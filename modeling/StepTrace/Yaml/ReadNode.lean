import StepTrace.Yaml.Document
import StepTrace.Yaml.Merge
import StepTrace.Yaml.ScalarValue

/-!
# Reading the nodes of a document

The scalars and keys of a document are read level by level: a list or mapping waits until those
found before it are done.  So the first fault in this order is the fault of the document.  Of
several fields with one key the last one counts, in the place of the first and under the key that
came first.  A key is a scalar.

Main definition: `Document.read`, whose result has no faults left in it.
-/

namespace StepTrace.Yaml

/-! ## Keys -/

/-- Are two keys the same?  Numbers are compared exactly, whatever their type, and a truth value
counts as the number one or zero. -/
def sameKey : Value → Value → Bool
  | .text a, .text b => a == b
  | .null, .null => true
  | .bool a, .bool b => a == b
  | .int a, .int b => a == b
  | .bool a, .int b | .int b, .bool a => (if a then 1 else 0) == b
  | .float a, .float b => a.same b
  | .int a, .float b | .float b, .int a => b.isInteger a
  | .bool a, .float b | .float b, .bool a => b.isInteger (if a then 1 else 0)
  | .moment a, .moment b => a.same b
  | _, _ => false

/-- The fields with one more; a key that is there keeps its place. -/
def putField {α : Type} (fields : List (Value × α)) (field : Value × α) : List (Value × α) :=
  if fields.any fun f => sameKey f.1 field.1 then
    fields.map fun f => if sameKey f.1 field.1 then (f.1, field.2) else f
  else fields ++ [field]

/-! ## Read nodes -/

/-- A node that has been read; the nodes inside are named by their numbers. -/
inductive ReadNode where
  | scalar (v : Value)
  | list (items : List Nat)
  | map (fields : List (Value × Nat))
deriving Repr, Inhabited

/-- The nodes of a document, the read ones, and the collections that wait, the last one first. -/
structure Progress where
  graph : Graph
  /-- The number of fields in the document. -/
  bound : Nat
  found : Array (Option ReadNode)
  waiting : List Nat := []
deriving Inhabited

/-- A step of reading nodes. -/
abbrev NodeReader := StateT Progress (Except Refusal)

namespace NodeReader

/-- The text of a scalar; a mapping may hold it in the field for its value. -/
def scalarText (g : Graph) : (fuel : Nat) → (id : Nat) → Except Refusal String
  | 0, _ => .error .malformed
  | fuel + 1, id =>
    match (g.node id).content with
    | .scalar text => .ok text
    | .sequence _ => .error .malformed
    | .mapping fields =>
      match fields.find? fun (key, _) => (g.node key).tag == .value with
      | some (_, value) => scalarText g fuel value
      | none => .error .malformed

/-- Writes down what has been read in a node. -/
def record (id : Nat) (n : ReadNode) : NodeReader Unit :=
  modify fun p => { p with found := p.found.setIfInBounds id (some n) }

/-- Reads a node if it is a scalar, and puts it among those that wait if it is a collection. -/
def visit (id : Nat) : NodeReader Unit := do
  let p ← get
  if ((p.found[id]?).join).isSome then return
  let n := p.graph.node id
  match n.tag with
  | .list => do
    record id (.list [])
    modify fun p => { p with waiting := id :: p.waiting }
  | .map => do
    record id (.map [])
    modify fun p => { p with waiting := id :: p.waiting }
  | tag => do
    let text ← scalarText p.graph (p.graph.nodes.size + 1) id
    record id (.scalar (← scalarValue tag text))

/-- The value of a key that has been read; a list or mapping is none. -/
def key (id : Nat) : NodeReader Value := do
  match ((← get).found[id]?).join with
  | some (.scalar v) => return v
  | _ => throw .malformed

/-- Reads the fields of a mapping. -/
def fields : List Field → NodeReader (List (Value × Nat))
  | [] => return []
  | (keyId, valueId) :: rest => do
    visit keyId
    let key ← key keyId
    visit valueId
    return (key, valueId) :: (← fields rest)

/-- Reads what is in a collection. -/
def enter (id : Nat) : NodeReader Unit := do
  let p ← get
  match (p.graph.node id).tag, (p.graph.node id).content with
  | .list, .sequence items => do
    items.forM visit
    record id (.list items)
  | .map, .mapping _ => do
    let graph ← wellFormed (p.graph.merged p.bound id)
    set { p with graph }
    let found ← fields ((graph.fields? id).getD [])
    record id (.map (found.foldl putField []))
  | _, _ => throw .malformed

/-- Reads the collections that wait, then those that were found in them, and so on; `levels` bounds
the depth of the document. -/
def enterAll : (levels : Nat) → NodeReader Unit
  | 0 => return
  | levels + 1 => do
    let p ← get
    if p.waiting.isEmpty then return
    set { p with waiting := [] }
    p.waiting.reverse.forM enter
    enterAll levels

end NodeReader

/-- The nodes of a document by their numbers, all of them read. -/
def Document.read (d : Document) : Except Refusal (Array (Option ReadNode)) := do
  let size := d.graph.nodes.size
  let found := Array.replicate size none
  let start : Progress := { graph := d.graph, bound := d.graph.fieldCount, found }
  let (_, p) ← (do
    NodeReader.visit d.root
    NodeReader.enterAll (size + 1)).run start
  return p.found

end StepTrace.Yaml
