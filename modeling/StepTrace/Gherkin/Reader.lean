import StepTrace.Fault
import StepTrace.Gherkin.Place

/-!
# Reading feature texts

A text is read in two steps: line by line into items, as `Place.follow` says, and from the last item
to the first into a document.  With a line that may not stand where it stands, or an end where the
text may not end, there is no document.

Main definition: `Gherkin.read`.
-/

namespace StepTrace.Gherkin

/-- The items of the lines, read from a place on. -/
def itemsFrom (place : Place) : List Line → Option (List Item)
  | [] => if place.mayEnd then some [] else none
  | l :: below => do
    let (place, items) ← place.follow l below
    return items ++ (← itemsFrom place below)

/-! ## From items to documents -/

/-- What the items behind some place give, as far as it is not yet part of something. -/
structure Remainder where
  comments : List CommentNode := []
  description : List String := []
  rows : List (List String) := []
  docLines : List String := []
  docString : Option (List String) := none
  steps : List StepNode := []
  examples : List ExamplesNode := []
  sections : List SectionNode := []
  rules : List RuleNode := []
  feature : Option FeatureNode := none
deriving Inhabited

namespace Remainder

/-- The remainder with a title in front of it. -/
def addTitle (r : Remainder) (heading : Heading) (title : Title) (tags : List TagNode) :
    Remainder :=
  let title := { title with description := r.description }
  match heading with
  | .examples => { r with
      examples := { title, tags, rows := r.rows } :: r.examples
      description := []
      rows := [] }
  | .scenario => { r with
      sections := .scenario title tags r.steps r.examples :: r.sections
      description := []
      steps := []
      examples := [] }
  | .background => { r with
      sections := .background title r.steps :: r.sections
      description := []
      steps := [] }
  | .rule => { r with
      rules := { title, tags, sections := r.sections } :: r.rules
      description := []
      sections := [] }
  | .feature => { r with
      feature := some { title, tags, sections := r.sections, rules := r.rules }
      description := []
      sections := []
      rules := [] }

/-- The remainder with an item in front of it. -/
def add (item : Item) (r : Remainder) : Remainder :=
  match item with
  | .comment line text => { r with comments := ⟨line, text⟩ :: r.comments }
  | .words text => { r with description := text :: r.description }
  | .row cells => { r with rows := cells :: r.rows }
  | .docLine text => { r with docLines := text :: r.docLines }
  | .docString => { r with docString := some r.docLines, docLines := [] }
  | .step line keyword text => { r with
      steps := { line, keyword, text, rows := r.rows, docString := r.docString } :: r.steps
      rows := []
      docString := none }
  | .title heading title tags => r.addTitle heading title tags

end Remainder

/-- The document that items give. -/
def Document.ofItems (items : List Item) : Document :=
  let r := items.foldr Remainder.add {}
  { feature := r.feature, comments := r.comments }

/-- The document of a feature text. -/
def read (text : String) : Except Fault Document := do
  match itemsFrom .start (linesOf text.toList) with
  | some items => return .ofItems items
  | none => throw .notGherkin

end StepTrace.Gherkin
