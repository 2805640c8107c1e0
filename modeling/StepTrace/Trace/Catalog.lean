import StepTrace.Trace.Record

/-!
# The catalog

The catalog says what is registered under which identifier.  It keeps two orders: of all
identifiers, and of the identifiers of each kind.  In both an identifier keeps its place when it is
registered again; when it changes its kind it leaves the order of the old kind and comes last in
that of the new one.

Main definitions: `Catalog.insert`, `Catalog.remove`, `Catalog.find?` and `Catalog.ofKind`.
-/

namespace StepTrace

/-- A reference to a record of any type. -/
inductive Entry where
  | nameSpace (ref : Ref Namespace)
  | feature (ref : Ref Feature)
  | scenario (ref : Ref Scenario)
  | outline (ref : Ref Outline)
  | examples (ref : Ref Examples)
  | step (ref : Ref Step)
  | tag (ref : Ref Tag)
  | definition (ref : Ref Definition)
  | transform (ref : Ref Transform)
deriving DecidableEq, Repr, Inhabited

/-- The kind of the record. -/
def Entry.kind : Entry → Kind
  | nameSpace _ => .nameSpace
  | feature _ => .feature
  | scenario _ => .scenario
  | outline _ => .outline
  | examples _ => .examples
  | step _ => .step
  | tag _ => .tag
  | definition _ => .definition
  | transform _ => .transform

/-- What is registered, under all identifiers and under those of each kind. -/
structure Catalog where
  entries : OrderedMap String Entry := .empty
  byKind : OrderedMap Kind (OrderedMap String Entry) := .empty
deriving Inhabited

namespace Catalog

/-- The identifiers of a kind with what is registered under them. -/
def index (c : Catalog) (kind : Kind) : OrderedMap String Entry :=
  (c.byKind.find? kind).getD .empty

/-- What is registered under an identifier. -/
def find? (c : Catalog) (id : String) : Option Entry :=
  c.entries.find? id

/-- All identifiers, in the order of registration. -/
def ids (c : Catalog) : List String :=
  c.entries.keys

/-- What is registered of a kind, in the order of that kind. -/
def ofKind (c : Catalog) (kind : Kind) : List Entry :=
  (c.index kind).values

/-- How many things of a kind are registered. -/
def count (c : Catalog) (kind : Kind) : Nat :=
  (c.index kind).size

/-- How many things are registered. -/
def size (c : Catalog) : Nat :=
  c.entries.size

/-- Takes an identifier out of the order of a kind. -/
def unindex (c : Catalog) (kind : Kind) (id : String) : Catalog :=
  { c with byKind := c.byKind.insert kind ((c.index kind).erase id) }

/-- Registers a record under an identifier, in place of what was there. -/
def insert (c : Catalog) (id : String) (entry : Entry) : Catalog :=
  let c := match c.find? id with
    | some old => if old.kind = entry.kind then c else c.unindex old.kind id
    | none => c
  { entries := c.entries.insert id entry
    byKind := c.byKind.insert entry.kind ((c.index entry.kind).insert id entry) }

/-- Takes an identifier out. -/
def remove (c : Catalog) (id : String) : Catalog :=
  match c.find? id with
  | some entry => { c.unindex entry.kind id with entries := c.entries.erase id }
  | none => c

end Catalog

end StepTrace
