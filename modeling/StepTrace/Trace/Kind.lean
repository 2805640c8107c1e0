/-!
# Kinds

The kinds of things that are traced, and the kinds of scenarios, with the words that name them in
output.
-/

namespace StepTrace

/-- The kinds of things that are traced. -/
inductive Kind where
  | nameSpace
  | feature
  | scenario
  | outline
  | examples
  | step
  | tag
  | definition
  | transform
deriving DecidableEq, Repr, Inhabited

namespace Kind

def all : List Kind :=
  [nameSpace, feature, scenario, outline, examples, step, tag, definition, transform]

/-- The word for a kind. -/
def word : Kind → String
  | nameSpace => "namespace"
  | feature => "feature"
  | scenario => "scenario"
  | outline => "scenario_outline"
  | examples => "examples"
  | step => "step"
  | tag => "tag"
  | definition => "step_definition"
  | transform => "step_transform"

/-- The kind that a word names. -/
def ofWord? (w : String) : Option Kind :=
  all.find? fun kind => kind.word = w

theorem ofWord?_word (kind : Kind) : ofWord? kind.word = some kind := by
  cases kind <;> decide

end Kind

/-- The kinds of things that hold steps and run as one. -/
inductive ScenarioKind where
  | background
  | scenario
  /-- One row of an outline. -/
  | exploded
deriving DecidableEq, Repr, Inhabited

/-- The word for a kind of scenario. -/
def ScenarioKind.word : ScenarioKind → String
  | background => "background"
  | scenario => "scenario"
  | exploded => "example"

/-- The word for outlines among the kinds of scenarios. -/
def outlineWord : String := "outline"

end StepTrace
