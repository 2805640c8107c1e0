import StepTrace.Trace.Store
import StepTrace.Json.Writer

/-!
# The export

All that is registered as one document: the features with what they hold, the definitions,
transforms and tags.  Records refer to each other by identifiers.
-/

namespace StepTrace.Export

/-- A list of texts. -/
def texts (ss : List String) : Value :=
  .list (ss.map .text)

/-- The identifiers of tags. -/
def tagIds (s : Store) (tags : List (Ref Tag)) : Value :=
  texts (tags.map fun r => (s.get r).id)

/-- A step. -/
def step (s : Store) (r : Ref Step) : Value :=
  let x := s.get r
  .ofFields [
    ("id", .text x.id),
    ("keyword", x.keyword),
    ("text", x.text),
    ("location", .text x.location.display),
    ("doc_string", x.docString.getD .null),
    ("table", (x.table.map fun rows => .list (rows.map .list)).getD .null),
    ("definition", (x.definition.map fun d => .text (s.get d).id).getD .null),
    ("transforms", texts (x.transforms.map fun t => (s.get t).id))]

/-- A scenario. -/
def scenario (s : Store) (r : Ref Scenario) : Value :=
  let x := s.get r
  .ofFields [
    ("id", .text x.id),
    ("kind", .text x.kind.word),
    ("keyword", x.keyword),
    ("title", x.title),
    ("location", .text x.location.display),
    ("tags", tagIds s x.tags),
    ("steps", .list (x.steps.map (step s)))]

/-- An examples table. -/
def examples (s : Store) (r : Ref Examples) : Value :=
  let x := s.get r
  .ofFields [
    ("id", .text x.id),
    ("name", x.name),
    ("tags", tagIds s x.tags),
    ("rows", .list (x.rows.map .list))]

/-- An outline. -/
def outline (s : Store) (r : Ref Outline) : Value :=
  let x := s.get r
  .ofFields [
    ("id", .text x.id),
    ("kind", .text outlineWord),
    ("keyword", x.keyword),
    ("title", x.title),
    ("location", .text x.location.display),
    ("tags", tagIds s x.tags),
    ("steps", .list (x.steps.map (step s))),
    ("examples", .list (x.examples.map (examples s))),
    ("scenarios", .list (x.scenarios.map (scenario s)))]

/-- What stands in a feature. -/
def container (s : Store) : Container → Value
  | .scenario r => scenario s r
  | .outline r => outline s r

/-- A feature. -/
def feature (s : Store) (r : Ref Feature) : Value :=
  let x := s.get r
  .ofFields [
    ("id", .text x.id),
    ("name", .text x.name),
    ("keyword", x.keyword),
    ("title", x.title),
    ("location", .text x.location.display),
    ("tags", tagIds s x.tags),
    ("total_scenarios", .int x.totalScenarios),
    ("background", (x.background.map (scenario s)).getD .null),
    ("scenarios", .list (x.scenarios.map (container s)))]

/-- A step definition. -/
def definition (s : Store) (r : Ref Definition) : Value :=
  let x := s.get r
  .ofFields [
    ("id", .text x.id),
    ("keyword", .text x.keyword),
    ("pattern", x.pattern),
    ("source", .text x.source),
    ("pending", .bool x.pending),
    ("steps", texts x.steps)]

/-- A transform. -/
def transform (s : Store) (r : Ref Transform) : Value :=
  let x := s.get r
  .ofFields [
    ("id", .text x.id),
    ("keyword", .text x.keyword),
    ("pattern", x.pattern),
    ("source", .text x.source),
    ("steps", texts x.steps)]

/-- A tag. -/
def tag (s : Store) (r : Ref Tag) : Value :=
  let x := s.get r
  .ofFields [
    ("id", .text x.id),
    ("name", .text x.name),
    ("value", .text x.value),
    ("total_scenarios", .int x.totalScenarios),
    ("owners", texts x.owners)]

/-- Everything that is registered. -/
def ofStore (s : Store) : Value :=
  .ofFields [
    ("features", .list (s.allFeatures.map (feature s))),
    ("step_definitions", .list (s.allDefinitions.map (definition s))),
    ("transforms", .list (s.allTransforms.map (transform s))),
    ("tags", .list (s.allTags.map (tag s)))]

/-- The layout of an export, unless another one is asked for. -/
def defaultLayout : Json.Layout := .indented 2

/-- Everything that is registered, as JSON text. -/
def write (s : Store) (layout : Json.Layout := defaultLayout) : String :=
  Json.write layout (ofStore s)

end StepTrace.Export
