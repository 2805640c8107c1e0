import StepTrace.Yaml.Tag

/-!
# Nodes of YAML

The nodes of a document are numbered, and a sequence or mapping names the nodes in it by their
numbers.  So a node can stand in several places, as an alias asks for, and even inside itself.

Main definitions: `Node` and `Graph`.
-/

namespace StepTrace.Yaml

/-- What is written in a node. -/
inductive Content where
  | scalar (text : String)
  | sequence (items : List Nat)
  | mapping (fields : List (Nat × Nat))
deriving DecidableEq, Repr, Inhabited

/-- A node. -/
structure Node where
  tag : Tag
  content : Content
deriving DecidableEq, Repr, Inhabited

namespace Node

/-- The tag of a node, whose own tag is written as `written` if it has one; `usual` is the tag
without one.  A lone sign of exclamation asks for the tag that the form tells. -/
def tagOf (written : Option String) (usual byForm : Tag) : Tag :=
  match written with
  | none => usual
  | some name => if name = "!" then byForm else .ofName name

/-- A scalar.  A plain one is read by its form. -/
def ofScalar (written : Option String) (text : String) (plain : Bool) : Node where
  tag := tagOf written (if plain then .ofPlain text else .text) (.ofPlain text)
  content := .scalar text

def ofSequence (written : Option String) (items : List Nat) : Node where
  tag := tagOf written .list .list
  content := .sequence items

def ofMapping (written : Option String) (fields : List (Nat × Nat)) : Node where
  tag := tagOf written .map .map
  content := .mapping fields

/-- The node where nothing is written. -/
def nothing : Node :=
  ofScalar none "" true

end Node

/-- The nodes of a document by their numbers. -/
structure Graph where
  nodes : Array Node := #[]
deriving Repr, Inhabited

namespace Graph

/-- The node of a number. -/
def node (g : Graph) (id : Nat) : Node :=
  g.nodes[id]?.getD .nothing

/-- The graph with one more node, and the number of that. -/
def add (g : Graph) (n : Node) : Graph × Nat :=
  (⟨g.nodes.push n⟩, g.nodes.size)

/-- The graph with another node under a number. -/
def put (g : Graph) (id : Nat) (n : Node) : Graph :=
  ⟨g.nodes.setIfInBounds id n⟩

/-- The fields of a node, if it is a mapping. -/
def fields? (g : Graph) (id : Nat) : Option (List (Nat × Nat)) :=
  match (g.node id).content with
  | .mapping fields => some fields
  | _ => none

/-- The graph with other fields in a mapping. -/
def putFields (g : Graph) (id : Nat) (fields : List (Nat × Nat)) : Graph :=
  g.put id { g.node id with content := .mapping fields }

/-- The number of all fields of all mappings. -/
def fieldCount (g : Graph) : Nat :=
  g.nodes.foldl (fun count n => count + match n.content with
    | .mapping fields => fields.length
    | _ => 0) 0

end Graph

end StepTrace.Yaml
