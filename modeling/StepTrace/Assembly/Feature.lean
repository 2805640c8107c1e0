import StepTrace.Assembly.Namespace
import StepTrace.Assembly.Step
import StepTrace.Assembly.Tagging
import StepTrace.Outline.Explosion

/-!
# Features of documents

A document is built into a feature: its background, its scenarios, and its outlines with one
scenario for each row of their examples.  Rules have no record of their own; what they hold belongs
to the feature.  Features, scenarios and examples that declare an excluded tag are passed over
before anything is made of them.

Records are numbered by what their owner holds when they are made, and registered as soon as they
are made; a malformed node ends the build, and what was made before stays.

Main definition: `Build.feature`.
-/

namespace StepTrace

/-- What the parts of one document have in common. -/
structure Site where
  /-- The file of the document. -/
  file : String
  /-- The names of excluded tags, without their sigils. -/
  excluded : List String
  /-- What the feature is placed under. -/
  nameSpace : Entry
deriving Inhabited

/-- A field of a node that may be missing or null. -/
def optionalField (node : Value) (key : String) : Except Fault Value := do
  return (← node.field key).orElse (.text "")

namespace Build

/-- The identifier of a container. -/
def containerId (s : Store) : Container → String
  | .scenario r => (s.get r).id
  | .outline r => (s.get r).id

/-- The steps of a container. -/
def containerSteps (s : Store) : Container → List (Ref Step)
  | .scenario r => (s.get r).steps
  | .outline r => (s.get r).steps

/-- Adds a step to a container. -/
def addStep (container : Container) (step : Ref Step) : Build Unit :=
  match container with
  | .scenario r => change r fun x => { x with steps := x.steps ++ [step] }
  | .outline r => change r fun x => { x with steps := x.steps ++ [step] }

/-- Builds the step of a node as the next one of a container. -/
def step (site : Site) (container : Container) (node : Value) : Build Unit := do
  let s ← get
  let id := containerId s container
  let number := (containerSteps s container).length + 1
  let step ← check (stepOf node (id ++ ":step_" ++ toString number) id site.file)
  addStep container (← register step)

/-- Builds the steps of a node into a container. -/
def steps (site : Site) (node : Value) (container : Container) : Build Unit := do
  (← check (node.elementsOf "steps")).forM (step site container)

/-- Makes the scenario of one row and adds it to its outline. -/
def row (outline : Ref Outline) (headers cells : List Value) : Build Unit := do
  let s ← get
  let o := s.get outline
  let (scenario, steps) ← check
    (Outline.explodeRow o (o.steps.map fun r => s.get r) headers cells)
  let stepRefs ← steps.mapM fun step => add step
  let r ← register { scenario with steps := stepRefs }
  stepRefs.forM fun step => enter step
  change outline fun o => { o with scenarios := o.scenarios ++ [r] }

/-- Builds one examples table of an outline, and the scenarios of its rows. -/
def examples (site : Site) (outline : Ref Outline) (node : Value) : Build Unit := do
  if ← check (do declaresExcluded site.excluded (← node.field "tags")) then return
  let o ← read outline
  let numbered := "examples_" ++ toString o.examples.length
  let given ← check (node.field "name")
  let r ← register {
    id := o.id ++ ":" ++ numbered
    name := given.orElse (.text numbered)
    keyword := ← check (node.field "keyword" (.text ""))
    title := given.orElse (.text "")
    location := ← check (locationOf node site.file)
    description := ← check (optionalField node "description")
    outlineId := o.id : Examples }
  declareAll site.file (← check (node.field "tags")) (some (.examples r))
  let header ← check (node.field "tableHeader")
  let headers ← if header.isPresent then check (rowCells header) else pure []
  change r fun e => { e with
    rows := if header.isPresent then [headers] else []
    hasHeader := header.isPresent }
  let body ← check (do (← node.elementsOf "tableBody").mapM rowCells)
  change r fun e => { e with rows := e.rows ++ body }
  change outline fun o => { o with examples := o.examples ++ [r] }
  body.forM (row outline headers)

/-- The feature that is being built. -/
def requireFeature (feature : Option (Ref Feature)) : Build (Ref Feature) :=
  some? .noFeature feature

/-- Builds the background of a node; a later background takes the place of an earlier one. -/
def background (site : Site) (feature : Option (Ref Feature)) (node : Value) : Build Unit := do
  let feature ← requireFeature feature
  let featureId := (← read feature).id
  let r ← register {
    id := featureId ++ ":background"
    kind := .background
    keyword := ← check (node.field "keyword" (.text ""))
    title := ← check (optionalField node "name")
    location := ← check (locationOf node site.file)
    description := ← check (optionalField node "description")
    featureId : Scenario }
  change feature fun f => { f with background := some r }
  steps site node (.scenario r)

/-- Builds a plain scenario. -/
def plainScenario (site : Site) (feature : Ref Feature) (node : Value) : Build Unit := do
  let f ← read feature
  let r ← register {
    id := f.id ++ ":scenario_" ++ toString (f.scenarios.length + 1)
    kind := .scenario
    keyword := ← check (node.field "keyword" (.text ""))
    title := ← check (optionalField node "name")
    location := ← check (locationOf node site.file)
    description := ← check (optionalField node "description")
    featureId := f.id : Scenario }
  declareAll site.file (← check (node.field "tags")) (some (.scenario r))
  change feature fun f => { f with scenarios := f.scenarios ++ [.scenario r] }
  steps site node (.scenario r)
  change feature fun f => { f with totalScenarios := f.totalScenarios + 1 }
  countScenarios 1 (some (← read feature).tags) [] (← read r).tags

/-- Builds an outline with its examples. -/
def outline (site : Site) (feature : Ref Feature) (node : Value) : Build Unit := do
  let f ← read feature
  let r ← register {
    id := f.id ++ ":scenario_" ++ toString (f.scenarios.length + 1)
    keyword := ← check (node.field "keyword" (.text ""))
    title := ← check (optionalField node "name")
    location := ← check (locationOf node site.file)
    description := ← check (optionalField node "description")
    featureId := f.id : Outline }
  declareAll site.file (← check (node.field "tags")) (some (.outline r))
  steps site node (.outline r)
  (← check (node.elementsOf "examples")).forM (examples site r)
  let total := (← read r).scenarios.length
  change feature fun f => { f with
    scenarios := f.scenarios ++ [.outline r]
    totalScenarios := f.totalScenarios + total }
  countScenarios total (some (← read feature).tags) [] (← read r).tags

/-- Builds a scenario, which is an outline if it has examples, unless it is excluded. -/
def scenario (site : Site) (feature : Option (Ref Feature)) (node : Value) : Build Unit := do
  if ← check (do declaresExcluded site.excluded (← node.field "tags")) then return
  if (← check (node.field "examples")).isPresent then
    outline site (← requireFeature feature) node
  else plainScenario site (← requireFeature feature) node

/-- Builds a child of a rule: a background or a scenario. -/
def ruleChild (site : Site) (feature : Option (Ref Feature)) (node : Value) : Build Unit := do
  let backgroundNode ← check (node.field "background")
  if backgroundNode.isPresent then background site feature backgroundNode
  else do
    let scenarioNode ← check (node.field "scenario")
    if scenarioNode.isPresent then scenario site feature scenarioNode

/-- Builds a child of a feature: a background, a scenario, or the children of a rule. -/
def child (site : Site) (feature : Option (Ref Feature)) (node : Value) : Build Unit := do
  let backgroundNode ← check (node.field "background")
  if backgroundNode.isPresent then background site feature backgroundNode
  else do
    let scenarioNode ← check (node.field "scenario")
    if scenarioNode.isPresent then scenario site feature scenarioNode
    else do
      let rule ← check (node.field "rule")
      if rule.isPresent then (← check (rule.elementsOf "children")).forM (ruleChild site feature)

/-- Builds children in order. -/
def children (site : Site) (feature : Option (Ref Feature)) (nodes : List Value) : Build Unit :=
  nodes.forM (child site feature)

/-- The comments of a document, one a line. -/
def commentsOf (document : Value) : Except Fault String := do
  let texts ← (← document.elementsOf "comments").mapM fun comment => comment.require "text"
  return String.intercalate "\n" (← texts.mapM Value.toText)

/-- Prepares the build of a document of a file: places the file under its namespace.  Excluded names
may be given with their sigil. -/
def site (file : Path) (excluded : List String) (readMe : ReadMe) : Build Site := do
  return {
    file := file.toString
    excluded := excluded.map stripSigil
    nameSpace := ← namespaceOf file readMe }

/-- Places a feature under its namespace. -/
def place (site : Site) (feature : Ref Feature) : Build Unit := do
  let .nameSpace r := site.nameSpace | throw .missingField
  let id := (← read feature).id
  if id ∉ (← read r).featureIds then
    change r fun n => { n with featureIds := n.featureIds ++ [id] }

/-- Builds the feature of a document; none if the document has none or it is excluded. -/
def document (site : Site) (document : Value) : Build (Option (Ref Feature)) := do
  let node ← check (document.field "feature")
  if !node.isPresent then return none
  if ← check (do declaresExcluded site.excluded (← node.field "tags")) then return none
  let r ← register {
    id := site.file
    name := featureName site.file
    keyword := ← check (node.field "keyword" (.text ""))
    title := ← check (optionalField node "name")
    location := ← check (locationOf node site.file)
    description := ← check (optionalField node "description")
    comments := ← check (commentsOf document)
    namespaceId := (← get).idOf site.nameSpace : Feature }
  place site r
  declareAll site.file (← check (node.field "tags")) (some (.feature r))
  children site (some r) (← check (node.elementsOf "children"))
  let f ← read r
  f.tags.forM fun tag => change tag fun t =>
    { t with totalScenarios := t.totalScenarios + f.totalScenarios }
  return some r

/-- Builds the document of a file. -/
def feature (file : Path) (content : Value) (excluded : List String) (readMe : ReadMe) :
    Build (Option (Ref Feature)) := do
  document (← site file excluded readMe) content

end Build

end StepTrace
