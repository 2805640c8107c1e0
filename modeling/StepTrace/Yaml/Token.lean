import StepTrace.Yaml.Scalar

/-!
# Tokens of YAML

The structure of a text in blocks follows from columns, and a key is known as a key only by the
colon behind it.  So the tokens are found with a memory: the columns of the open blocks, and for
each nesting of brackets the token that may turn out to be a key.  A key has to be followed by its
colon on the same line and within 1024 characters.

A token that turns out to be a key gets its mark, and the mark of the block that begins with it, put
in front of it.

Main definition: `Token.ofText`.
-/

namespace StepTrace.Yaml

/-- What a line that begins with a per cent sign says. -/
inductive Directive where
  /-- The version of the format. -/
  | version
  /-- The beginning of the tags that are written with a handle. -/
  | handle (name beginning : String)
  /-- Something that is passed over. -/
  | other
deriving DecidableEq, Repr, Inhabited

/-- A piece of a text. -/
inductive Token where
  | directive (content : Directive)
  | documentStart
  | documentEnd
  | blockSequence
  | blockMapping
  | blockEnd
  | openBracket
  | closeBracket
  | openBrace
  | closeBrace
  /-- The dash before an item. -/
  | item
  /-- The comma in brackets. -/
  | comma
  | key
  | value
  | alias (name : String)
  | anchor (name : String)
  | tag (handle suffix : String)
  | scalar (text : String) (plain : Bool)
deriving DecidableEq, Repr, Inhabited

/-- A token that may turn out to be a key. -/
structure KeyStart where
  /-- The number of tokens before it. -/
  position : Nat
  /-- Does it have to be a key? -/
  required : Bool
  cursor : Cursor
deriving Repr, Inhabited

/-- The longest distance from the beginning of a key to its colon. -/
def longestKey : Nat := 1024

/-- How far the tokens have been found. -/
structure Scan where
  cursor : Cursor
  /-- More than the number of characters that are left. -/
  bound : Nat
  tokens : Array Token := #[]
  /-- How many brackets are open. -/
  depth : Nat := 0
  /-- The column behind that of the innermost open block, zero without one. -/
  margin : Nat := 0
  /-- The margins of the blocks around it. -/
  outer : List Nat := []
  /-- May a key begin here? -/
  keyAllowed : Bool := true
  /-- The tokens that may turn out to be keys, by the number of brackets around them. -/
  keys : List (Nat × KeyStart) := []
deriving Inhabited

/-- A step of finding tokens. -/
abbrev Scanner := StateT Scan (Except Refusal)

namespace Scanner

/-- Gives up on a malformed text. -/
def refuse {α : Type} : Scanner α := throw .malformed

/-- The result of a function that fails on a malformed text. -/
def need {α : Type} (result : Option α) : Scanner α :=
  wellFormed result

/-- Adds a token. -/
def emit (t : Token) : Scanner Unit :=
  modify fun s => { s with tokens := s.tokens.push t }

/-- Goes on at another place. -/
def moveTo (c : Cursor) : Scanner Unit :=
  modify fun s => { s with cursor := c }

/-- Says whether a key may begin at the next token. -/
def allowKey (allowed : Bool) : Scanner Unit :=
  modify fun s => { s with keyAllowed := allowed }

/-- Adds a token of so many characters. -/
def emitLength (n : Nat) (t : Token) : Scanner Unit := do
  moveTo ((← get).cursor.forward n)
  emit t

/-! ## Keys -/

/-- Is it too late for a colon? -/
def isStale (now : Cursor) (k : KeyStart) : Bool :=
  k.cursor.line != now.line || k.cursor.index + longestKey < now.index

/-- Forgets the keys that it is too late for. -/
def dropStaleKeys : Scanner Unit := do
  let s ← get
  if s.keys.any fun (_, k) => k.required && isStale s.cursor k then refuse
  set { s with keys := s.keys.filter fun (_, k) => !isStale s.cursor k }

/-- Forgets the key at this nesting of brackets. -/
def dropKey : Scanner Unit := do
  let s ← get
  if (s.keys.lookup s.depth).any (·.required) then refuse
  set { s with keys := s.keys.filter fun (depth, _) => depth != s.depth }

/-- Remembers that the next token may be a key. -/
def noteKey : Scanner Unit := do
  let s ← get
  if s.keyAllowed then
    dropKey
    let required := s.depth == 0 && s.margin == s.cursor.column + 1
    modify fun s => { s with
      keys := (s.depth, ⟨s.tokens.size, required, s.cursor⟩) :: s.keys }

/-! ## Blocks -/

/-- Closes the blocks whose lines begin behind the given number of columns. -/
def closeBlocks (margin : Nat) : Scanner Unit := do
  let s ← get
  if s.depth = 0 then
    let all := s.margin :: s.outer
    let closed := all.takeWhile (margin < ·)
    let left := all.drop closed.length
    set { s with
      tokens := s.tokens ++ Array.replicate closed.length Token.blockEnd
      margin := left.head?.getD 0
      outer := left.tail }

/-- Opens a block at a column, if it is further in than the innermost one; its mark goes before the
token at `position`. -/
def openBlock (column position : Nat) (mark : Token) : Scanner Unit := do
  let s ← get
  if s.margin < column + 1 then
    set { s with
      tokens := s.tokens.insertIdxIfInBounds position mark
      margin := column + 1
      outer := s.margin :: s.outer }

/-- Opens a block here, where a key has to be allowed. -/
def openBlockHere (mark : Token) : Scanner Unit := do
  let s ← get
  if s.depth = 0 then
    if !s.keyAllowed then refuse
    openBlock s.cursor.column s.tokens.size mark

/-! ## Tags -/

/-- A character of a tag, other than a per cent sign. -/
def isTagChar (c : Char) : Bool :=
  c.isAlphanum || "-;/?:@&=+$,_.!~*'()[]".contains c

/-- The bytes that a text gives in hexadecimal digits behind per cent signs, and what follows them;
none if a sign is not followed by two digits. -/
def percentBytes? : List Char → Option (List UInt8 × List Char)
  | '%' :: a :: b :: s => do
    let high ← Numeral.hexDigit? a
    let low ← Numeral.hexDigit? b
    let (bytes, rest) ← percentBytes? s
    return ((16 * high + low).toUInt8 :: bytes, rest)
  | '%' :: _ => none
  | s => some ([], s)

/-- The text of a tag, which may be empty, and what follows it. -/
def tagChars? : (fuel : Nat) → List Char → Option (List Char × List Char)
  | 0, _ => none
  | fuel + 1, s => do
    let plain := s.takeWhile isTagChar
    let rest := s.drop plain.length
    if rest.head? ≠ some '%' then return (plain, rest)
    let (bytes, rest) ← percentBytes? rest
    let meant ← String.fromUTF8? ⟨bytes.toArray⟩
    let (more, rest) ← tagChars? fuel rest
    return (plain ++ meant.toList ++ more, rest)

/-- The text of a tag, and what follows it. -/
def tagText? (s : List Char) : Option (List Char × List Char) :=
  (tagChars? (s.length + 1) s).filter fun (_, rest) => rest.length < s.length

/-! ## Single tokens -/

/-- Ends all blocks before a line that stands for itself. -/
def endBlocks : Scanner Unit := do
  closeBlocks 0
  dropKey
  allowKey false

/-- Is this all blank, but for a comment? -/
def isIdle (s : List Char) : Bool :=
  (s.dropWhile (· == ' ')).head?.all (· == '#')

/-- Is this the number of a version that can be read, with nothing but a comment behind it? -/
def isVersion (s : List Char) : Bool :=
  let s := s.dropWhile (· == ' ')
  let major := s.takeWhile Char.isDigit
  match s.drop major.length with
  | '.' :: s =>
    let minor := s.takeWhile Char.isDigit
    let rest := s.drop minor.length
    Numeral.ofDigits 10 major == 1 && !minor.isEmpty && rest.head?.all (· == ' ') && isIdle rest
  | _ => false

/-- A character of the name of an anchor, a handle or a directive. -/
def isNameChar (c : Char) : Bool :=
  c.isAlphanum || c == '-' || c == '_'

/-- The handle that a text begins with, with its signs of exclamation, and what follows it. -/
def handle? : List Char → Option (List Char × List Char)
  | '!' :: s =>
    let name := s.takeWhile isNameChar
    match s.drop name.length with
    | '!' :: rest => some ('!' :: name ++ ['!'], rest)
    | rest => if name.isEmpty && rest.head? = some ' ' then some (['!'], rest) else none
  | _ => none

/-- The beginning of tags that a directive gives to a handle. -/
def handleDirective? (s : List Char) : Option Directive := do
  let (name, rest) ← handle? (s.dropWhile (· == ' '))
  if rest.head? ≠ some ' ' then none
  let (beginning, rest) ← tagText? (rest.dropWhile (· == ' '))
  if rest.head?.all (· == ' ') && isIdle rest then
    some (.handle (String.ofList name) (String.ofList beginning))
  else none

/-- What a directive says, behind the sign. -/
def directive? (line : List Char) : Option Directive :=
  let name := line.takeWhile isNameChar
  let rest := line.drop name.length
  if name.isEmpty || !rest.head?.all (· == ' ') then none
  else if name = "YAML".toList then if isVersion rest then some .version else none
  else if name = "TAG".toList then handleDirective? rest
  else some .other

/-- A line that begins with a per cent sign. -/
def directive : Scanner Unit := do
  endBlocks
  let start := (← get).cursor.advance
  let content ← need (directive? (start.takeWhile fun c => !isBreak c))
  moveTo (start.skipWhile fun c => !isBreak c)
  emit (.directive content)

/-- A line that divides documents. -/
def divider (t : Token) : Scanner Unit := do
  endBlocks
  emitLength 3 t

/-- An opening bracket or brace. -/
def opening (t : Token) : Scanner Unit := do
  noteKey
  modify fun s => { s with depth := s.depth + 1 }
  allowKey true
  emitLength 1 t

/-- A closing bracket or brace. -/
def closing (t : Token) : Scanner Unit := do
  dropKey
  modify fun s => { s with depth := s.depth - 1 }
  allowKey false
  emitLength 1 t

/-- A comma between brackets. -/
def comma : Scanner Unit := do
  allowKey true
  dropKey
  emitLength 1 .comma

/-- The dash before an item. -/
def item : Scanner Unit := do
  openBlockHere .blockSequence
  allowKey true
  dropKey
  emitLength 1 .item

/-- The question mark before a key. -/
def explicitKey : Scanner Unit := do
  openBlockHere .blockMapping
  allowKey ((← get).depth == 0)
  dropKey
  emitLength 1 .key

/-- The colon before a value. -/
def value : Scanner Unit := do
  let s ← get
  match s.keys.lookup s.depth with
  | some k => do
    modify fun s => { s with
      keys := s.keys.filter fun (depth, _) => depth != s.depth
      tokens := s.tokens.insertIdxIfInBounds k.position .key }
    if s.depth = 0 then openBlock k.cursor.column k.position .blockMapping
    allowKey false
  | none => do
    openBlockHere .blockMapping
    allowKey (s.depth == 0)
    dropKey
  emitLength 1 .value

/-- May the character follow the name of an anchor? -/
def endsName (c : Cursor) : Bool :=
  match c.peek with
  | none => true
  | some ch => isSpace ch || "?:,]\x7d%@\x60".contains ch

/-- An anchor or alias. -/
def named (make : String → Token) : Scanner Unit := do
  noteKey
  allowKey false
  let c := (← get).cursor.advance
  let name := c.takeWhile isNameChar
  let behind := c.skipWhile isNameChar
  if name.isEmpty || !endsName behind then refuse
  moveTo behind
  emit (make (String.ofList name))

/-- The tag that a text begins with: its handle, empty if it is written out, what it ends in, and
what follows it. -/
def tag? (s : List Char) : Option (String × List Char × List Char) := do
  match s with
  | '!' :: '<' :: s => do
    let (text, rest) ← tagText? s
    match rest with
    | '>' :: rest => some ("", text, rest)
    | _ => none
  | _ => do
    let word := (s.takeWhile fun c => !(c == ' ' || isBreak c)).drop 1
    let (handle, rest) ← if word.contains '!' then handle? s else some (['!'], s.drop 1)
    let (text, rest) ← tagText? rest
    return (String.ofList handle, text, rest)

/-- A tag. -/
def tag : Scanner Unit := do
  noteKey
  allowKey false
  let c := (← get).cursor
  if c.spaceAt 1 then
    moveTo c.advance
    emit (.tag "" "!")
  else
    let (handle, text, rest) ← need (tag? c.rest)
    if !rest.head?.all (fun ch => ch == ' ' || isBreak ch) then refuse
    moveTo (c.forward (c.rest.length - rest.length))
    emit (.tag handle (String.ofList text))

/-- A block scalar. -/
def blockScalar (folded : Bool) : Scanner Unit := do
  allowKey true
  dropKey
  let s ← get
  let (text, c) ← need (block s.bound folded s.margin s.cursor)
  moveTo c
  emit (.scalar text false)

/-- A quoted scalar. -/
def quotedScalar (double : Bool) : Scanner Unit := do
  noteKey
  allowKey false
  let s ← get
  let (text, c) ← quoted s.bound double s.cursor
  moveTo c
  emit (.scalar text false)

/-- A plain scalar.  Behind a line end a key may begin again. -/
def plainScalar : Scanner Unit := do
  noteKey
  let s ← get
  let (text, newLine, c) := plain s.bound (s.depth != 0) s.margin s.cursor
  allowKey newLine
  moveTo c
  emit (.scalar text true)

/-! ## The next token -/

/-- May the character begin a plain scalar, whatever follows? -/
def beginsPlain (c : Char) : Bool :=
  !(isSpace c || "-?:,[]\x7b\x7d#&*!|>'\"%@\x60".contains c)

/-- Goes on to the next token: past blanks, comments and line ends. -/
def skip : (fuel : Nat) → Scanner Unit
  | 0 => return
  | fuel + 1 => do
    let c := ((← get).cursor.skipWhile (· == ' ')).skipComment
    match c.peek with
    | some ch =>
      if isBreak ch then
        moveTo c.advance
        if (← get).depth = 0 then allowKey true
        skip fuel
      else moveTo c
    | none => moveTo c

/-- The token that begins with a character, at a place where it may begin. -/
def token (ch : Char) : Scanner Unit := do
  let s ← get
  let c := s.cursor
  let inFlow := s.depth != 0
  let spaced := c.spaceAt 1
  if c.column = 0 ∧ ch = '%' then directive
  else if c.column = 0 ∧ c.beginsMark '-' then divider .documentStart
  else if c.column = 0 ∧ c.beginsMark '.' then divider .documentEnd
  else if ch = '[' then opening .openBracket
  else if ch = '\x7b' then opening .openBrace
  else if ch = ']' then closing .closeBracket
  else if ch = '\x7d' then closing .closeBrace
  else if ch = ',' then comma
  else if ch = '-' ∧ spaced then item
  else if ch = '?' ∧ (inFlow ∨ spaced) then explicitKey
  else if ch = ':' ∧ (inFlow ∨ spaced) then value
  else if ch = '*' then named .alias
  else if ch = '&' then named .anchor
  else if ch = '!' then tag
  else if ch = '|' ∧ ¬inFlow then blockScalar false
  else if ch = '>' ∧ ¬inFlow then blockScalar true
  else if ch = '\'' then quotedScalar false
  else if ch = '"' then quotedScalar true
  else if beginsPlain ch ∨ (¬spaced ∧ (ch = '-' ∨ (¬inFlow ∧ (ch = '?' ∨ ch = ':')))) then
    plainScalar
  else refuse

/-- All tokens up to the end of the text. -/
def all : (fuel : Nat) → Scanner Unit
  | 0 => refuse
  | fuel + 1 => do
    skip (fuel + 1)
    dropStaleKeys
    let c := (← get).cursor
    closeBlocks (c.column + 1)
    match c.peek with
    | none => endBlocks
    | some ch => do
      token ch
      all fuel

end Scanner

/-- A character that may stand in a text. -/
def isPrintable (c : Char) : Bool :=
  let n := c.toNat
  n == 9 || n == 10 || n == 13 || (32 ≤ n && n ≤ 126) || n == 0x85
    || (0xa0 ≤ n && n ≤ 0xfffd) || 0x10000 ≤ n

/-- The tokens of a text. -/
def Token.ofText (text : List Char) : Except Refusal (List Token) :=
  if text.all isPrintable then
    let start : Cursor := ⟨text, 0, 0, 0⟩
    let start := if start.peek = some byteOrderMark then start.advance else start
    let bound := text.length + 1
    ((Scanner.all bound).run { cursor := start, bound }).map fun (_, s) => s.tokens.toList
  else .error .malformed

end StepTrace.Yaml
