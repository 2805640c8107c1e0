/-!
# Places in a YAML text

A cursor stands before the rest of a text and knows its line and column, which the structure of the
text hangs on.  Every reading function takes a cursor and gives the cursor behind what it has read.
Line ends are line feeds; three further characters end lines too.
-/

namespace StepTrace.Yaml

/-- A character that ends a line. -/
def isBreak (c : Char) : Bool :=
  c == '\n' || c == '\x85' || c == '\u2028' || c == '\u2029'

/-- A blank within a line. -/
def isBlank (c : Char) : Bool :=
  c == ' ' || c == '\t'

/-- A blank or the end of a line. -/
def isSpace (c : Char) : Bool :=
  isBlank c || isBreak c

/-- What a line end stands for in a scalar. -/
def breakText (c : Char) : Char :=
  if c = '\x85' then '\n' else c

/-- The byte order mark, which takes no column. -/
def byteOrderMark : Char := '\ufeff'

/-- A place in a text. -/
structure Cursor where
  rest : List Char
  line : Nat := 0
  column : Nat := 0
  /-- The number of characters before. -/
  index : Nat := 0
deriving Repr, Inhabited

namespace Cursor

/-- The next character, if any. -/
def peek (c : Cursor) : Option Char :=
  c.rest.head?

/-- The character `n` places further on. -/
def peekAt (c : Cursor) (n : Nat) : Option Char :=
  c.rest[n]?

/-- The cursor behind the next character. -/
def advance (c : Cursor) : Cursor :=
  match c.rest with
  | [] => c
  | ch :: rest =>
    if isBreak ch then ⟨rest, c.line + 1, 0, c.index + 1⟩
    else if ch = byteOrderMark then { c with rest, index := c.index + 1 }
    else ⟨rest, c.line, c.column + 1, c.index + 1⟩

/-- The cursor `n` characters further on. -/
def forward : (n : Nat) → Cursor → Cursor
  | 0, c => c
  | n + 1, c => forward n c.advance

/-- The cursor behind those of the given characters that satisfy `p` without a gap. -/
def skipFrom (p : Char → Bool) : List Char → Cursor → Cursor
  | [], c => c
  | ch :: rest, c => if p ch then skipFrom p rest c.advance else c

/-- The cursor behind the characters that satisfy `p`. -/
def skipWhile (p : Char → Bool) (c : Cursor) : Cursor :=
  skipFrom p c.rest c

/-- The characters that satisfy `p`. -/
def takeWhile (p : Char → Bool) (c : Cursor) : List Char :=
  c.rest.takeWhile p

/-- Does the text go on with this? -/
def begins (c : Cursor) (head : List Char) : Bool :=
  head.isPrefixOf c.rest

/-- Is the character `n` places further on a blank, a line end, or the end of the text? -/
def spaceAt (c : Cursor) (n : Nat) : Bool :=
  match c.peekAt n with
  | none => true
  | some ch => isSpace ch

/-- Does a line end or the text end here? -/
def atLineEnd (c : Cursor) : Bool :=
  match c.peek with
  | none => true
  | some ch => isBreak ch

/-- A mark of three characters that stands alone. -/
def beginsMark (c : Cursor) (mark : Char) : Bool :=
  c.begins [mark, mark, mark] && c.spaceAt 3

/-- Does a line that divides documents begin here? -/
def atDivider (c : Cursor) : Bool :=
  c.beginsMark '-' || c.beginsMark '.'

/-- The cursor behind a comment, if there is one. -/
def skipComment (c : Cursor) : Cursor :=
  if c.peek = some '#' then c.skipWhile fun ch => !isBreak ch else c

end Cursor

end StepTrace.Yaml
