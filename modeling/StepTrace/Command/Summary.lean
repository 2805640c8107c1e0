import StepTrace.Project.Run
import StepTrace.View.Graph

/-!
# Summaries

What is printed of a run: how many steps are linked and which are not, or the tags with their
counts.  A step that is not linked is looked up by its identifier, so it has to be registered still.
-/

namespace StepTrace.Summary

/-- The line of a step that is not linked. -/
def unmatchedLine (s : Store) (id : String) : Except Fault String :=
  match s.catalog.find? id with
  | some (.step r) =>
    let step := s.get r
    .ok ("  " ++ step.location.display ++ "  " ++ step.keyword.display ++ step.text.display)
  | _ => .error .missingField

/-- The line of a definition that is not used. -/
def unusedLine (s : Store) (id : String) : Except Fault String :=
  match s.catalog.find? id with
  | some (.definition r) =>
    let definition := s.get r
    .ok ("  " ++ definition.id ++ "  " ++ definition.pattern.display)
  | _ => .error .missingField

/-- A heading followed by texts with commas between them; nothing if there are no texts. -/
def listed (heading : String) : List String → List String
  | [] => []
  | texts => [heading ++ ": " ++ String.intercalate ", " texts]

/-- How many features, scenarios and steps there are. -/
def countLines (s : Store) (r : RunResult) : List String :=
  let scenarios := (r.batch.features.map fun f => (s.get f).totalScenarios).foldl (· + ·) 0
  [s!"Features: {r.batch.features.length} ({scenarios} executable scenario(s))",
    s!"Linked steps: {r.report.linkedSteps.length}",
    s!"Unmatched steps: {r.report.unmatchedSteps.length}"]

/-- What could not be linked or read, and how many edges the link graph has. -/
def closingLines (s : Store) (r : RunResult) : List String :=
  listed "Features that failed to link" r.report.failedFeatures
    ++ listed "Skipped files" r.batch.skipped
    ++ listed "Graph edges"
      ((LinkGraph.ofStore s).edgeCounts.map fun (word, count) => word ++ "=" ++ toString count)

/-- The order of tags: by their names, then by their tokens. -/
def tagLe (a b : Tag) : Bool :=
  if a.name = b.name then decide (a.value ≤ b.value) else decide (a.name ≤ b.name)

/-- The line of a tag. -/
def tagLine (t : Tag) : String :=
  s!"  {t.value}  scenarios={t.totalScenarios}  owners={t.owners.length}"

/-- The lines of all tags. -/
def tagLines (s : Store) : List String :=
  match (s.allTags.map fun r => s.get r).mergeSort tagLe with
  | [] => ["No tags found."]
  | tags => tags.map tagLine

end StepTrace.Summary
