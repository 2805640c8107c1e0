import StepTrace.Outline.Placeholder
import StepTrace.Trace.Record

/-!
# Scenarios of an outline

One row of an examples table makes one scenario of an outline: a copy of the outline's steps with
the placeholders filled in.  Scenarios are numbered through all examples of the outline.
-/

namespace StepTrace.Outline

/-- A template step with its placeholders filled in: the doc string, the table cells and the text,
in this order. -/
def copyStep (template : Step) (id scenarioId : String) (headers row : List Value) :
    Except Fault Step := do
  let docString ← template.docString.mapM fun v => fillValue v headers row
  let table ← template.table.mapM fun rows =>
    rows.mapM fun cells => cells.mapM fun v => fillValue v headers row
  let text ← fillValue template.text headers row
  return {
    id
    keyword := template.keyword
    text
    location := template.location
    scenarioId
    docString
    table }

/-- The steps of a scenario, copied from the templates and numbered from `position` on. -/
def copySteps (scenarioId : String) (headers row : List Value) :
    (position : Nat) → (templates : List Step) → Except Fault (List Step)
  | _, [] => .ok []
  | position, template :: templates => do
    let id := scenarioId ++ ":step_" ++ toString position
    let step ← copyStep template id scenarioId headers row
    return step :: (← copySteps scenarioId headers row (position + 1) templates)

/-- The scenario that one row makes of an outline, still without its steps, and the steps. -/
def explodeRow (o : Outline) (templates : List Step) (headers row : List Value) :
    Except Fault (Scenario × List Step) := do
  let number := o.scenarios.length + 1
  let id := o.id ++ ":example_" ++ toString number
  let steps ← copySteps id headers row 1 templates
  return ({
    id
    kind := .exploded
    keyword := o.keyword
    title := .text (o.title.display ++ " (" ++ toString number ++ ")")
    location := o.location
    description := o.description
    comments := o.comments
    featureId := o.featureId
    outlineId := some o.id }, steps)

end StepTrace.Outline
