import StepTrace.Value.Basic

/-!
# Feature documents

What a feature text says, as a tree: a feature with its background, scenarios and rules, and the
comments.  `Document.toValue` gives the document in the form that features are built from.
-/

namespace StepTrace.Gherkin

/-- A tag, with the line on which it stands. -/
structure TagNode where
  line : Nat
  name : String
deriving DecidableEq, Repr, Inhabited

/-- A title line with the description under it. -/
structure Title where
  line : Nat
  keyword : String
  name : String
  /-- The lines of the description. -/
  description : List String := []
deriving DecidableEq, Repr, Inhabited

/-- A step. -/
structure StepNode where
  line : Nat
  keyword : String
  text : String
  /-- The rows of the table below the step; none without a table. -/
  rows : List (List String) := []
  /-- The lines of the doc string below the step. -/
  docString : Option (List String) := none
deriving DecidableEq, Repr, Inhabited

/-- An examples table, whose first row is the header. -/
structure ExamplesNode where
  title : Title
  tags : List TagNode := []
  rows : List (List String) := []
deriving DecidableEq, Repr, Inhabited

/-- A background or a scenario. -/
inductive SectionNode where
  | background (title : Title) (steps : List StepNode)
  | scenario (title : Title) (tags : List TagNode) (steps : List StepNode)
      (examples : List ExamplesNode)
deriving DecidableEq, Repr, Inhabited

/-- A rule with its sections. -/
structure RuleNode where
  title : Title
  tags : List TagNode := []
  sections : List SectionNode := []
deriving DecidableEq, Repr, Inhabited

/-- A feature: its own sections come before those of its rules. -/
structure FeatureNode where
  title : Title
  tags : List TagNode := []
  sections : List SectionNode := []
  rules : List RuleNode := []
deriving DecidableEq, Repr, Inhabited

/-- A comment, with the line on which it stands. -/
structure CommentNode where
  line : Nat
  text : String
deriving DecidableEq, Repr, Inhabited

/-- A feature text. -/
structure Document where
  feature : Option FeatureNode := none
  comments : List CommentNode := []
deriving DecidableEq, Repr, Inhabited

/-! ## Documents as values -/

/-- The field for a line. -/
def location (line : Nat) : String × Value :=
  ("location", .ofFields [("line", .int line)])

def TagNode.toValue (t : TagNode) : Value :=
  .ofFields [location t.line, ("name", .text t.name)]

/-- The description: empty lines at its end do not belong to it. -/
def Title.descriptionText (t : Title) : String :=
  String.intercalate "\n" (t.description.reverse.dropWhile (· = "")).reverse

/-- The fields that everything with a title has. -/
def Title.fields (t : Title) : List (String × Value) :=
  [location t.line, ("keyword", .text t.keyword), ("name", .text t.name),
    ("description", .text t.descriptionText)]

/-- The field for tags. -/
def tagField (tags : List TagNode) : String × Value :=
  ("tags", .list (tags.map TagNode.toValue))

/-- A table row. -/
def rowValue (cells : List String) : Value :=
  .ofFields [("cells", .list (cells.map fun cell => .ofFields [("value", .text cell)]))]

/-- The field for the table of a step. -/
def tableField (rows : List (List String)) : List (String × Value) :=
  if rows = [] then [] else [("dataTable", .ofFields [("rows", .list (rows.map rowValue))])]

/-- The field for the doc string of a step. -/
def docStringField (docString : Option (List String)) : List (String × Value) :=
  (docString.map fun lines =>
    ("docString", .ofFields [("content", .text (String.intercalate "\n" lines))])).toList

def StepNode.toValue (s : StepNode) : Value :=
  .ofFields ([location s.line, ("keyword", .text s.keyword), ("text", .text s.text)]
    ++ tableField s.rows ++ docStringField s.docString)

/-- The field for steps. -/
def stepField (steps : List StepNode) : String × Value :=
  ("steps", .list (steps.map StepNode.toValue))

def ExamplesNode.toValue (e : ExamplesNode) : Value :=
  let header := e.rows.head?.map fun row => ("tableHeader", rowValue row)
  .ofFields (e.title.fields ++ [tagField e.tags] ++ header.toList
    ++ [("tableBody", .list (e.rows.tail.map rowValue))])

def SectionNode.toValue : SectionNode → Value
  | background title steps =>
    .ofFields [("background", .ofFields (title.fields ++ [stepField steps]))]
  | scenario title tags steps examples =>
    .ofFields [("scenario", .ofFields (title.fields ++ [tagField tags, stepField steps,
      ("examples", .list (examples.map ExamplesNode.toValue))]))]

def RuleNode.toValue (r : RuleNode) : Value :=
  .ofFields [("rule", .ofFields (r.title.fields
    ++ [tagField r.tags, ("children", .list (r.sections.map SectionNode.toValue))]))]

def FeatureNode.toValue (f : FeatureNode) : Value :=
  .ofFields (f.title.fields ++ [tagField f.tags,
    ("children", .list (f.sections.map SectionNode.toValue ++ f.rules.map RuleNode.toValue))])

def CommentNode.toValue (c : CommentNode) : Value :=
  .ofFields [location c.line, ("text", .text c.text)]

def Document.toValue (d : Document) : Value :=
  .ofFields ((d.feature.map fun f => ("feature", f.toValue)).toList
    ++ [("comments", .list (d.comments.map CommentNode.toValue))])

end StepTrace.Gherkin
