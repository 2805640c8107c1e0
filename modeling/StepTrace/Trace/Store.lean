import StepTrace.Trace.Arena
import StepTrace.Trace.Catalog
import StepTrace.Fault

/-!
# The store

The store holds all records, registered or not, and the catalog of the registered ones.  The
operations that build and change records are `Build` actions: they may be refused on the way, and
what they did before stays.
-/

namespace StepTrace

/-- All records, and the catalog of those that are registered. -/
structure Store where
  namespaces : Arena Namespace := {}
  features : Arena Feature := {}
  scenarios : Arena Scenario := {}
  outlines : Arena Outline := {}
  examples : Arena Examples := {}
  steps : Arena Step := {}
  tags : Arena Tag := {}
  definitions : Arena Definition := {}
  transforms : Arena Transform := {}
  catalog : Catalog := {}
deriving Inhabited

/-- A type of records: its arena, its identifiers, and how its references are registered. -/
class Record (α : Type) extends Inhabited α where
  arena : Store → Arena α
  setArena : Store → Arena α → Store
  id : α → String
  entry : Ref α → Entry

instance : Record Namespace where
  arena := Store.namespaces
  setArena s a := { s with namespaces := a }
  id := Namespace.id
  entry := .nameSpace

instance : Record Feature where
  arena := Store.features
  setArena s a := { s with features := a }
  id := Feature.id
  entry := .feature

instance : Record Scenario where
  arena := Store.scenarios
  setArena s a := { s with scenarios := a }
  id := Scenario.id
  entry := .scenario

instance : Record Outline where
  arena := Store.outlines
  setArena s a := { s with outlines := a }
  id := Outline.id
  entry := .outline

instance : Record Examples where
  arena := Store.examples
  setArena s a := { s with examples := a }
  id := Examples.id
  entry := .examples

instance : Record Step where
  arena := Store.steps
  setArena s a := { s with steps := a }
  id := Step.id
  entry := .step

instance : Record Tag where
  arena := Store.tags
  setArena s a := { s with tags := a }
  id := Tag.id
  entry := .tag

instance : Record Definition where
  arena := Store.definitions
  setArena s a := { s with definitions := a }
  id := Definition.id
  entry := .definition

instance : Record Transform where
  arena := Store.transforms
  setArena s a := { s with transforms := a }
  id := Transform.id
  entry := .transform

namespace Store

variable {α : Type} [Record α]

/-- The record at a place. -/
def get (s : Store) (r : Ref α) : α :=
  (Record.arena s).get r

/-- The store with the record at a place changed. -/
def modify (s : Store) (r : Ref α) (f : α → α) : Store :=
  Record.setArena s ((Record.arena s).modify r f)

/-- The store with one more record, which is not registered. -/
def add (s : Store) (x : α) : Store × Ref α :=
  let (arena, r) := (Record.arena s).add x
  (Record.setArena s arena, r)

/-- The store with a record registered under its identifier. -/
def enter (s : Store) (r : Ref α) : Store :=
  { s with catalog := s.catalog.insert (Record.id (s.get r)) (Record.entry r) }

/-- The store with one more record, which is registered. -/
def register (s : Store) (x : α) : Store × Ref α :=
  let (s, r) := s.add x
  (s.enter r, r)

/-- The store with an identifier taken out of the catalog. -/
def remove (s : Store) (id : String) : Store :=
  { s with catalog := s.catalog.remove id }

/-- The store with nothing registered. -/
def clear (s : Store) : Store :=
  { s with catalog := {} }

/-! ## What is registered of a kind -/

def allFeatures (s : Store) : List (Ref Feature) :=
  (s.catalog.ofKind .feature).filterMap fun
    | .feature r => some r
    | _ => none

def allSteps (s : Store) : List (Ref Step) :=
  (s.catalog.ofKind .step).filterMap fun
    | .step r => some r
    | _ => none

def allTags (s : Store) : List (Ref Tag) :=
  (s.catalog.ofKind .tag).filterMap fun
    | .tag r => some r
    | _ => none

def allNamespaces (s : Store) : List (Ref Namespace) :=
  (s.catalog.ofKind .nameSpace).filterMap fun
    | .nameSpace r => some r
    | _ => none

def allDefinitions (s : Store) : List (Ref Definition) :=
  (s.catalog.ofKind .definition).filterMap fun
    | .definition r => some r
    | _ => none

def allTransforms (s : Store) : List (Ref Transform) :=
  (s.catalog.ofKind .transform).filterMap fun
    | .transform r => some r
    | _ => none

/-! ## What records of several types have in common -/

/-- The identifier of a record. -/
def idOf (s : Store) : Entry → String
  | .nameSpace r => (s.get r).id
  | .feature r => (s.get r).id
  | .scenario r => (s.get r).id
  | .outline r => (s.get r).id
  | .examples r => (s.get r).id
  | .step r => (s.get r).id
  | .tag r => (s.get r).id
  | .definition r => (s.get r).id
  | .transform r => (s.get r).id

/-- The location of a record, if its type has one. -/
def locationOf? (s : Store) : Entry → Option Location
  | .feature r => some (s.get r).location
  | .scenario r => some (s.get r).location
  | .outline r => some (s.get r).location
  | .examples r => some (s.get r).location
  | .step r => some (s.get r).location
  | _ => none

/-- The tags that a record declares, if its type can declare any. -/
def tagsOf? (s : Store) : Entry → Option (List (Ref Tag))
  | .feature r => some (s.get r).tags
  | .scenario r => some (s.get r).tags
  | .outline r => some (s.get r).tags
  | .examples r => some (s.get r).tags
  | _ => none

/-- The store with the tags of a record changed; a record that has none stays. -/
def modifyTags (s : Store) (entry : Entry) (f : List (Ref Tag) → List (Ref Tag)) : Store :=
  match entry with
  | .feature r => s.modify r fun x => { x with tags := f x.tags }
  | .scenario r => s.modify r fun x => { x with tags := f x.tags }
  | .outline r => s.modify r fun x => { x with tags := f x.tags }
  | .examples r => s.modify r fun x => { x with tags := f x.tags }
  | _ => s

/-- The description of a record, if its type has one. -/
def descriptionOf? (s : Store) : Entry → Option Value
  | .nameSpace r => some (.text (s.get r).description)
  | .feature r => some (s.get r).description
  | .scenario r => some (s.get r).description
  | .outline r => some (s.get r).description
  | .examples r => some (s.get r).description
  | _ => none

/-- The store with a record described; a record whose type has no description stays. -/
def describe (s : Store) (entry : Entry) (text : String) : Store :=
  match entry with
  | .nameSpace r => s.modify r fun x => { x with description := text }
  | .feature r => s.modify r fun x => { x with description := .text text }
  | .scenario r => s.modify r fun x => { x with description := .text text }
  | .outline r => s.modify r fun x => { x with description := .text text }
  | .examples r => s.modify r fun x => { x with description := .text text }
  | _ => s

/-- The scenarios of a feature that run, outlines replaced by their rows. -/
def executableScenarios (s : Store) (f : Feature) : List (Ref Scenario) :=
  f.scenarios.flatMap fun
    | .scenario r => [r]
    | .outline r => (s.get r).scenarios

/-- The background of a feature, if it has one, and its scenarios that run. -/
def stepContainers (s : Store) (f : Feature) : List (Ref Scenario) :=
  f.background.toList ++ s.executableScenarios f

/-- The number of scenarios that the rows of an outline should become. -/
def expectedScenarios (s : Store) (o : Outline) : Nat :=
  (o.examples.map fun r => (s.get r).dataRows.length).foldl (· + ·) 0

end Store

/-! ## Actions on a store -/

/-- An action on a store, which may be refused; what it did before stays. -/
abbrev Build := ExceptT Fault (StateM Store)

namespace Build

variable {α : Type} [Record α]

/-- The record at a place. -/
def read (r : Ref α) : Build α := do
  return (← get).get r

/-- Changes the record at a place. -/
def change (r : Ref α) (f : α → α) : Build Unit :=
  modify fun s => s.modify r f

/-- Adds a record and registers it. -/
def register (x : α) : Build (Ref α) :=
  modifyGet fun s => (s.register x).swap

/-- Adds a record without registering it. -/
def add (x : α) : Build (Ref α) :=
  modifyGet fun s => (s.add x).swap

/-- Registers a record. -/
def enter (r : Ref α) : Build Unit :=
  modify fun s => s.enter r

/-- The result of a step that does not touch the store. -/
def check {β : Type} (result : Except Fault β) : Build β :=
  match result with
  | .ok b => return b
  | .error fault => throw fault

/-- The value, which has to be there. -/
def some? {β : Type} (fault : Fault) (found : Option β) : Build β :=
  match found with
  | some b => return b
  | none => throw fault

end Build

end StepTrace
