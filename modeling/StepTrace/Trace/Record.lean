import StepTrace.OrderedMap
import StepTrace.Trace.Kind
import StepTrace.Value.Display

/-!
# Records

What is traced: the parts of feature documents, the tags that they share, the namespaces that they
lie in, and the definitions and transforms that their steps are linked to.

Records refer to each other by `Ref`, the place of a record in its arena, and not by identifier:
an identifier can be registered again for another record, while everything that referred to the old
one still does.  Texts that come straight from a document are values, since a document may hold
anything there.
-/

namespace StepTrace

/-- The place of a record in its arena. -/
structure Ref (α : Type) where
  index : Nat
deriving Repr, Inhabited

instance {α : Type} : DecidableEq (Ref α) := fun a b =>
  decidable_of_iff (a.index = b.index) (by cases a; cases b; simp)

instance {α : Type} : LawfulBEq (Ref α) :=
  inferInstance

/-- Where something was declared. -/
structure Location where
  file : String
  line : Int
deriving DecidableEq, Repr, Inhabited

/-- The location as text. -/
def Location.display (l : Location) : String :=
  l.file ++ ":" ++ toString l.line

/-- Where a tag was declared; the line is whatever the document says. -/
structure TagSite where
  file : String
  line : Value
deriving Repr, Inhabited

/-- A directory that features are placed under. -/
structure Namespace where
  id : String
  name : String
  parentId : Option String := none
  description : String := ""
  children : OrderedMap String (Ref Namespace) := .empty
  featureIds : List String := []
deriving Repr, Inhabited

/-- A tag, shared by everything that declares it. -/
structure Tag where
  id : String
  /-- The token without its sigil. -/
  name : String
  /-- The token. -/
  value : String
  /-- The identifiers of the things that declare the tag. -/
  owners : List String := []
  /-- The places where it is declared. -/
  sites : List TagSite := []
  totalScenarios : Int := 0
deriving Repr, Inhabited

/-- The implementation of steps that a pattern describes. -/
structure Definition where
  id : String
  keyword : String
  pattern : Value
  source : String := ""
  pending : Bool := false
  /-- The identifiers of the steps linked to the definition. -/
  steps : List String := []
deriving Repr, Inhabited

/-- A conversion of captured texts that a pattern describes. -/
structure Transform where
  id : String
  keyword : String
  pattern : Value
  source : String := ""
  /-- The identifiers of the steps linked to the transform. -/
  steps : List String := []
deriving Repr, Inhabited

/-- A step, with a doc string or a table if it has one. -/
structure Step where
  id : String
  keyword : Value
  text : Value
  location : Location
  scenarioId : String
  docString : Option Value := none
  table : Option (List (List Value)) := none
  definition : Option (Ref Definition) := none
  transforms : List (Ref Transform) := []
deriving Repr, Inhabited

/-- A background, a plain scenario, or one row of an outline. -/
structure Scenario where
  id : String
  kind : ScenarioKind
  keyword : Value
  title : Value
  location : Location
  description : Value
  comments : String := ""
  steps : List (Ref Step) := []
  tags : List (Ref Tag) := []
  featureId : String
  outlineId : Option String := none
deriving Repr, Inhabited

/-- One examples table of an outline. -/
structure Examples where
  id : String
  name : Value
  keyword : Value
  title : Value
  location : Location
  description : Value
  /-- All rows, the header first if there is one. -/
  rows : List (List Value) := []
  hasHeader : Bool := true
  tags : List (Ref Tag) := []
  outlineId : String
deriving Repr, Inhabited

namespace Examples

/-- The column headers. -/
def headers (e : Examples) : List Value :=
  if e.hasHeader then e.rows.head?.getD [] else []

/-- The rows that become scenarios. -/
def dataRows (e : Examples) : List (List Value) :=
  if e.hasHeader then e.rows.drop 1 else e.rows

end Examples

/-- A template for scenarios, with the scenarios made from it. -/
structure Outline where
  id : String
  keyword : Value
  title : Value
  location : Location
  description : Value
  comments : String := ""
  steps : List (Ref Step) := []
  tags : List (Ref Tag) := []
  examples : List (Ref Examples) := []
  scenarios : List (Ref Scenario) := []
  featureId : String
deriving Repr, Inhabited

/-- What stands in a feature: a plain scenario or an outline. -/
inductive Container where
  | scenario (ref : Ref Scenario)
  | outline (ref : Ref Outline)
deriving DecidableEq, Repr, Inhabited

/-- A feature document. -/
structure Feature where
  id : String
  name : String
  keyword : Value
  title : Value
  location : Location
  description : Value
  comments : String := ""
  tags : List (Ref Tag) := []
  scenarios : List Container := []
  background : Option (Ref Scenario) := none
  totalScenarios : Nat := 0
  namespaceId : String
deriving Repr, Inhabited

end StepTrace
