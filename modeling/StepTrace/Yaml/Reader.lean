import StepTrace.Yaml.ReadNode

/-!
# Reading YAML

The nodes of a document are made into one value.  A list or mapping that contains itself becomes a
knot, labelled by its number.

Main definition: `Yaml.read`.
-/

namespace StepTrace.Yaml

/-- The nodes inside a node. -/
def ReadNode.children : ReadNode → List Nat
  | scalar _ => []
  | list items => items
  | map fields => fields.map (·.2)

/-- The read nodes of a document. -/
abbrev ReadNodes := Array (Option ReadNode)

namespace ReadNodes

/-- The node of a number; null if there is none. -/
def node (nodes : ReadNodes) (id : Nat) : ReadNode :=
  ((nodes[id]?).join).getD (.scalar .null)

/-- The nodes that are inside those found so far, at any depth; `rounds` bounds their number. -/
def reach (nodes : ReadNodes) : (rounds : Nat) → (found : List Nat) → List Nat
  | 0, found => found
  | rounds + 1, found =>
    let all := (found ++ found.flatMap fun id => (nodes.node id).children).eraseDups
    if all.length = found.length then found else reach nodes rounds all

/-- Does the node contain itself? -/
def containsItself (nodes : ReadNodes) (id : Nat) : Bool :=
  (nodes.reach nodes.size (nodes.node id).children.eraseDups).contains id

/-- The numbers of the nodes that contain themselves. -/
def looped (nodes : ReadNodes) : List Nat :=
  (List.range nodes.size).filter nodes.containsItself

/-- Is the node a mapping? -/
def isMapping (nodes : ReadNodes) (id : Nat) : Bool :=
  match nodes.node id with
  | .map _ => true
  | _ => false

/-- The value of a node inside those of the given numbers; `loops` are the nodes that contain
themselves.  No node is entered twice on the way down, so their number bounds the depth. -/
def value (nodes : ReadNodes) (loops : List Nat) : (fuel : Nat) → (above : List Nat) →
    (id : Nat) → Value
  | 0, _, _ => .null
  | fuel + 1, above, id =>
    if loops.contains id && above.contains id then .again id (nodes.isMapping id)
    else
      let inside := nodes.value loops fuel (id :: above)
      let body := match nodes.node id with
        | .scalar v => v
        | .list items => .list (items.map inside)
        | .map fields => .map (fields.map fun (key, v) => (key, inside v))
      if loops.contains id then .knot id body else body

end ReadNodes

/-- The value of a text that holds one document, null if it holds none. -/
def read (text : String) : Except Refusal Value := do
  let tokens ← Token.ofText text.toList
  match ← wellFormed (Document.ofTokens? tokens) with
  | none => return .null
  | some d => do
    let nodes ← d.read
    let loops := if d.looping then ReadNodes.looped nodes else []
    return ReadNodes.value nodes loops (nodes.size + 1) [] d.root

end StepTrace.Yaml
