import StepTrace.Yaml.Node
import StepTrace.Yaml.Token

/-!
# Documents of YAML

Tokens are read into the nodes of a document.  A node gets its number, and the anchor its node,
before what is in the node is read: an alias may stand inside the node that it stands for.  Each
anchor is given once, and before its aliases.  A text holds at most one document.

Main definition: `Document.ofTokens?`.
-/

namespace StepTrace.Yaml

/-- A document: its nodes, and the number of the outermost one. -/
structure Document where
  graph : Graph
  root : Nat
  /-- Does an alias stand inside the node that it stands for? -/
  looping : Bool
deriving Repr, Inhabited

namespace Document

/-- The beginnings of the tags that handles stand for without being told so. -/
def usualHandles : List (String × String) :=
  [("", ""), ("!", "!"), ("!!", Tag.namespaceName)]

/-- The tokens that are left, and the nodes and anchors so far. -/
structure Reading where
  tokens : List Token
  graph : Graph := {}
  anchored : List (String × Nat) := []
  handles : List (String × String) := usualHandles
  /-- The nodes that are still being read. -/
  opened : List Nat := []
  looping : Bool := false
deriving Inhabited

/-- A step of reading nodes, which fails on a malformed document. -/
abbrev Reader := StateT Reading Option

/-- The next token, if any. -/
def peek : Reader (Option Token) := do
  return (← get).tokens.head?

/-- Passes over a token. -/
def drop : Reader Unit :=
  modify fun r => { r with tokens := r.tokens.tail }

/-- Passes over a token if it comes next, and says whether it did. -/
def accept (t : Token) : Reader Bool := do
  if (← peek) = some t then
    drop
    return true
  else return false

/-- Is one of the tokens next? -/
def nextIn (ts : List Token) : Reader Bool := do
  return (← peek).any (· ∈ ts)

/-- An anchor, if one comes next. -/
def anchor? : Reader (Option String) := do
  match ← peek with
  | some (.anchor name) => do
    drop
    return some name
  | _ => return none

/-- A tag, if one comes next. -/
def tag? : Reader (Option String) := do
  match ← peek with
  | some (.tag handle suffix) => do
    drop
    let beginning ← ((← get).handles.lookup handle : Option _)
    return some (beginning ++ suffix)
  | _ => return none

/-- An anchor and a tag, in either order. -/
def properties : Reader (Option String × Option String) := do
  match ← anchor? with
  | some anchor => return (some anchor, ← tag?)
  | none => do
    let tag ← tag?
    if tag.isSome then return (← anchor?, tag) else return (none, none)

/-- Gives a new node its number, and a new anchor its node. -/
def openNode (anchor : Option String) : Reader Nat := do
  let r ← get
  let (graph, id) := r.graph.add .nothing
  let anchored ←
    match anchor with
    | none => pure r.anchored
    | some name =>
      if (r.anchored.lookup name).isSome then failure
      pure ((name, id) :: r.anchored)
  set { r with graph, anchored, opened := id :: r.opened }
  return id

/-- Writes down what has been read in a node. -/
def closeNode (id : Nat) (n : Node) : Reader Unit :=
  modify fun r => { r with graph := r.graph.put id n, opened := r.opened.filter (· != id) }

/-- A node that is read at once. -/
def addNode (n : Node) : Reader Nat := do
  let id ← openNode none
  closeNode id n
  return id

/-- The node of an anchor. -/
def aliased (name : String) : Reader Nat := do
  let r ← get
  let id ← (r.anchored.lookup name : Option _)
  set { r with looping := r.looping || r.opened.contains id }
  return id

mutual

/-- A node.  Only in a block may it be a block collection; under a key its items may stand no
further in than the key, without a block of their own. -/
def node : (fuel : Nat) → (inBlock underKey : Bool) → Reader Nat
  | 0, _, _ => failure
  | fuel + 1, inBlock, underKey => do
    match ← peek with
    | some (.alias name) => do
      drop
      aliased name
    | _ => do
      let (anchor, tag) ← properties
      let id ← openNode anchor
      closeNode id (← content fuel inBlock underKey tag (anchor.isSome || tag.isSome))
      return id

/-- What follows the anchor and the tag of a node; it may be missing where there is one of them. -/
def content : (fuel : Nat) → (inBlock underKey : Bool) → (tag : Option String) →
    (mayMiss : Bool) → Reader Node
  | 0, _, _, _, _ => failure
  | fuel + 1, inBlock, underKey, tag, mayMiss => do
    match ← peek with
    | some (.scalar text plain) => do
      drop
      return .ofScalar tag text plain
    | some .openBracket => do
      drop
      return .ofSequence tag (← flowItems fuel true)
    | some .openBrace => do
      drop
      return .ofMapping tag (← flowFields fuel true)
    | some .item =>
      if underKey then return .ofSequence tag (← keyItems fuel)
      else if mayMiss then return .ofScalar tag "" true
      else failure
    | some .blockSequence =>
      if inBlock then do
        drop
        return .ofSequence tag (← blockItems fuel)
      else if mayMiss then return .ofScalar tag "" true
      else failure
    | some .blockMapping =>
      if inBlock then do
        drop
        return .ofMapping tag (← blockFields fuel)
      else if mayMiss then return .ofScalar tag "" true
      else failure
    | _ => if mayMiss then return .ofScalar tag "" true else failure

/-- A node, or nothing if one of the tokens comes next or the text ends. -/
def nodeUnless : (fuel : Nat) → (inBlock underKey : Bool) → (stops : List Token) → Reader Nat
  | 0, _, _, _ => failure
  | fuel + 1, inBlock, underKey, stops => do
    if ← nextIn stops then addNode .nothing else node fuel inBlock underKey

/-- The items of a block. -/
def blockItems : (fuel : Nat) → Reader (List Nat)
  | 0 => failure
  | fuel + 1 => do
    if ← accept .item then
      let first ← nodeUnless fuel true false [.item, .blockEnd]
      return first :: (← blockItems fuel)
    else if ← accept .blockEnd then return []
    else failure

/-- Items that stand no further in than the key above them. -/
def keyItems : (fuel : Nat) → Reader (List Nat)
  | 0 => failure
  | fuel + 1 => do
    if ← accept .item then
      let first ← nodeUnless fuel true false [.item, .key, .value, .blockEnd]
      return first :: (← keyItems fuel)
    else return []

/-- The fields of a block. -/
def blockFields : (fuel : Nat) → Reader (List (Nat × Nat))
  | 0 => failure
  | fuel + 1 => do
    if ← accept .blockEnd then return []
    else if ← accept .key then
      let key ← nodeUnless fuel true true [.key, .value, .blockEnd]
      let value ← blockValue fuel
      return (key, value) :: (← blockFields fuel)
    else failure

/-- The value of a field in a block. -/
def blockValue : (fuel : Nat) → Reader Nat
  | 0 => failure
  | fuel + 1 => do
    if ← accept .value then nodeUnless fuel true true [.key, .value, .blockEnd]
    else addNode .nothing

/-- The items between brackets; a comma may follow the last one. -/
def flowItems : (fuel : Nat) → (first : Bool) → Reader (List Nat)
  | 0, _ => failure
  | fuel + 1, first => do
    if ← accept .closeBracket then return []
    else
      let separated ← if first then pure true else accept .comma
      if !separated then failure
      if ← accept .closeBracket then return []
      else if ← accept .key then
        let key ← nodeUnless fuel false false [.value, .comma, .closeBracket]
        let value ← flowValue fuel .closeBracket
        let pair ← addNode (.ofMapping none [(key, value)])
        return pair :: (← flowItems fuel false)
      else
        let item ← node fuel false false
        return item :: (← flowItems fuel false)

/-- The fields between braces; a comma may follow the last one. -/
def flowFields : (fuel : Nat) → (first : Bool) → Reader (List (Nat × Nat))
  | 0, _ => failure
  | fuel + 1, first => do
    if ← accept .closeBrace then return []
    else
      let separated ← if first then pure true else accept .comma
      if !separated then failure
      if ← accept .closeBrace then return []
      else if ← accept .key then
        let key ← nodeUnless fuel false false [.value, .comma, .closeBrace]
        let value ← flowValue fuel .closeBrace
        return (key, value) :: (← flowFields fuel false)
      else
        let key ← node fuel false false
        let value ← addNode .nothing
        return (key, value) :: (← flowFields fuel false)

/-- The value of a field between brackets or braces. -/
def flowValue : (fuel : Nat) → (close : Token) → Reader Nat
  | 0, _ => failure
  | fuel + 1, close => do
    if ← accept .value then nodeUnless fuel false false [.comma, close]
    else addNode .nothing

end

/-- Passes over the marks at the end of a document. -/
def skipEnds : (fuel : Nat) → Reader Unit
  | 0 => return
  | fuel + 1 => do if ← accept .documentEnd then skipEnds fuel

/-- Reads directives: at most one on the version, and one for a handle.  `given` are the handles of
those before. -/
def directives : (fuel : Nat) → (versioned : Bool) → (given : List (String × String)) →
    Reader Unit
  | 0, _, _ => failure
  | fuel + 1, versioned, given => do
    match ← peek with
    | some (.directive content) => do
      drop
      match content with
      | .version => if versioned then failure else directives fuel true given
      | .handle name beginning =>
        if (given.lookup name).isSome then failure
        else directives fuel versioned ((name, beginning) :: given)
      | .other => directives fuel versioned given
    | _ => modify fun r => { r with handles := given ++ usualHandles }

/-- Does a document begin with directives or its mark? -/
def isMarked : Reader Bool := do
  match ← peek with
  | some (.directive _) | some .documentStart => return true
  | _ => return false

/-- The document of the tokens, if there is one, and nothing behind it. -/
def document (fuel : Nat) : Reader (Option Nat) := do
  if (← peek).isNone then return none
  let found ←
    if ← isMarked then do
      directives fuel false []
      if !(← accept .documentStart) then failure
      if (← peek).isNone || (← isMarked) || (← nextIn [.documentEnd]) then addNode .nothing
      else node fuel true false
    else node fuel true false
  skipEnds fuel
  if (← peek).isSome then failure
  return some found

/-- The document that the tokens hold; the outer option is empty if they are malformed. -/
def ofTokens? (tokens : List Token) : Option (Option Document) := do
  let (root, r) ← (document (4 * tokens.length + 4)).run { tokens }
  return root.map fun root => { graph := r.graph, root, looping := r.looping }

end Document

end StepTrace.Yaml
