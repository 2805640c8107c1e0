import StepTrace.View.Graph
import StepTrace.Text.Substring

/-!
# The graph in DOT

The link graph as text for drawing programs: one line for each node, a blank line, and one line for
each edge.  In quoted texts backslashes, quotes and line feeds are escaped, so that each text ends
at its own closing quote and on its own line.
-/

namespace StepTrace.Dot

/-- One character inside quotes. -/
def escapeChar (c : Char) : List Char :=
  if c = '\\' then ['\\', '\\']
  else if c = '"' then ['\\', '"']
  else if c = '\n' then ['\\', 'n']
  else [c]

/-- A text between quotes. -/
def quote (s : String) : String :=
  String.ofList ('"' :: s.toList.flatMap escapeChar ++ ['"'])

/-- The shapes of nodes by the word for what they stand for. -/
def shapes : List (String × String) := [
  ("feature", "folder"),
  ("background", "box"),
  ("scenario", "box"),
  ("outline", "box3d"),
  ("example", "box"),
  ("examples", "tab"),
  ("step", "ellipse"),
  ("step_definition", "component"),
  ("step_transform", "cds"),
  ("tag", "note")]

/-- The shape of a node; one that nothing is known of is an ellipse. -/
def shapeOf (face : Option NodeFace) : String :=
  (face.bind fun face => shapes.lookup face.kind).getD "ellipse"

/-- The label of a node: its identifier if it has no other.  A label has to be a text. -/
def labelOf (id : String) (face : Option NodeFace) : Except Fault String :=
  match face with
  | some { label, .. } =>
    match label.orElse (.text id) with
    | .text s => .ok s
    | _ => .error .missingField
  | none => .ok id

/-- The line of a node. -/
def nodeLine (id : String) (face : Option NodeFace) : Except Fault String := do
  return "  " ++ quote id ++ " [shape=" ++ shapeOf face ++ ", label=" ++ quote (← labelOf id face)
    ++ "];"

/-- How the edges of a relation are drawn, if not plainly. -/
def styleOf : Relation → Option String
  | .contains => none
  | .implementedBy => some "bold"
  | .transformedBy => some "dashed"
  | .tagged => some "dotted"

/-- The line of an edge. -/
def edgeLine (edge : Edge) : String :=
  let style := match styleOf edge.relation with
    | some style => ", style=" ++ style
    | none => ""
  "  " ++ quote edge.source ++ " -> " ++ quote edge.target ++ " [label=\"" ++ edge.relation.word
    ++ "\"" ++ style ++ "];"

/-- The lines of a graph. -/
def lines (g : LinkGraph) : Except Fault (List String) := do
  let nodes ← g.nodes.entries.mapM fun (id, face) => nodeLine id face
  return ["digraph feature_links \x7b", "  rankdir=LR;", ""] ++ nodes ++ [""]
    ++ g.edges.map edgeLine ++ ["\x7d"]

/-- The graph of what is registered, as DOT text. -/
def write (s : Store) : Except Fault String := do
  return String.intercalate "\n" (← lines (.ofStore s))

end StepTrace.Dot
