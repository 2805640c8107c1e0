import StepTrace.Numeral.Digits
import StepTrace.Yaml.Cursor
import StepTrace.Yaml.Refusal

/-!
# Scalars of YAML

The three ways to write a scalar: plain, between quotes, and as a block of lines.  Lines of plain
and quoted scalars are folded: one line end becomes a space, each further one stays a line feed.
Each function gives the text of the scalar and the cursor behind it, or the reason why there is no
such scalar; `fuel` bounds the number of steps, and the length of the text is enough.

Main definitions: `plain`, `quoted` and `block`.
-/

namespace StepTrace.Yaml

open Numeral

/-- The line end of a folded line, given the line ends of the empty lines behind it. -/
def foldBreak (first : Char) (more : List Char) : List Char :=
  (if breakText first ≠ '\n' then [breakText first]
    else if more.isEmpty then [' '] else []) ++ more

/-! ## Plain scalars -/

/-- The number of characters of a plain scalar up to a blank, a line end, or what ends the scalar.
Inside brackets more characters end it. -/
def plainLength (inFlow : Bool) : List Char → Nat
  | [] => 0
  | c :: s =>
    let endsHere := isSpace c
      || (c == ':' && match s with
        | [] => true
        | next :: _ => isSpace next || (inFlow && ",[]\x7b\x7d".contains next))
      || (inFlow && ",?[]\x7b\x7d".contains c)
    if endsHere then 0 else plainLength inFlow s + 1

/-- What separates two words of a plain scalar. -/
structure Gap where
  /-- What the gap is in the scalar; nothing if the scalar ends here. -/
  text : List Char
  /-- Has the gap ended a line? -/
  newLine : Bool
  cursor : Cursor

/-- The empty lines inside a plain scalar, and the blanks in front of what follows; also whether the
scalar goes on there, which it does not at a divider. -/
def plainBreaks : (fuel : Nat) → Cursor → Bool × List Char × Cursor
  | 0, c => (false, [], c)
  | fuel + 1, c =>
    if c.atDivider then (false, [], c)
    else
      let behind := c.skipWhile (· == ' ')
      match behind.peek with
      | some ch =>
        if isBreak ch then
          let (goesOn, more, c) := plainBreaks fuel behind.advance
          (goesOn, breakText ch :: more, c)
        else (true, [], behind)
      | none => (true, [], behind)

/-- The gap at a place. -/
def gap (fuel : Nat) (c : Cursor) : Gap :=
  let blanks := c.takeWhile (· == ' ')
  let behind := c.skipWhile (· == ' ')
  match behind.peek with
  | some ch =>
    if isBreak ch then
      let (goesOn, more, c) := plainBreaks fuel behind.advance
      ⟨if goesOn then foldBreak ch more else [], true, c⟩
    else ⟨blanks, false, behind⟩
  | none => ⟨blanks, false, behind⟩

/-- A plain scalar, whose further lines have to be moved in by `margin` outside brackets; `done`
is its text so far, in reverse, and `between` the gap that came last.  Also says whether the last
gap has ended a line. -/
def plainFrom (inFlow : Bool) (margin : Nat) : (fuel : Nat) → (done between : List Char) →
    (newLine : Bool) → Cursor → String × Bool × Cursor
  | 0, done, _, newLine, c => (String.ofList done.reverse, newLine, c)
  | fuel + 1, done, between, newLine, c =>
    let length := plainLength inFlow c.rest
    if c.peek = some '#' ∨ length = 0 then (String.ofList done.reverse, newLine, c)
    else
      let done := (c.rest.take length).reverse ++ (between.reverse ++ done)
      let g := gap fuel (c.forward length)
      if g.text.isEmpty || g.cursor.peek = some '#' || (!inFlow && g.cursor.column < margin) then
        (String.ofList done.reverse, g.newLine, g.cursor)
      else plainFrom inFlow margin fuel done g.text g.newLine g.cursor

/-- The plain scalar at a place, and whether it has ended its line; `bound` is more than the number
of characters that are left. -/
def plain (bound : Nat) (inFlow : Bool) (margin : Nat) (c : Cursor) : String × Bool × Cursor :=
  plainFrom inFlow margin bound [] [] false c

/-! ## Quoted scalars -/

/-- The empty lines inside a quoted scalar, and the blanks in front of what follows.  No divider may
stand there. -/
def quotedBreaks : (fuel : Nat) → Cursor → Option (List Char × Cursor)
  | 0, _ => none
  | fuel + 1, c =>
    if c.atDivider then none
    else
      let c := c.skipWhile isBlank
      match c.peek with
      | some ch =>
        if isBreak ch then
          (quotedBreaks fuel c.advance).map fun (more, c) => (breakText ch :: more, c)
        else some ([], c)
      | none => some ([], c)

/-- Blanks and line ends inside a quoted scalar.  The text may not end there. -/
def quotedSpace (fuel : Nat) (c : Cursor) : Option (List Char × Cursor) :=
  let blanks := c.takeWhile isBlank
  let behind := c.skipWhile isBlank
  match behind.peek with
  | none => none
  | some ch =>
    if isBreak ch then
      (quotedBreaks fuel behind.advance).map fun (more, c) =>
        (foldBreak ch more, c)
    else some (blanks, behind)

/-- The character that one behind a backslash stands for. -/
def escapes : List (Char × Char) := [
  ('0', '\x00'), ('a', '\x07'), ('b', '\x08'), ('t', '\t'), ('\t', '\t'), ('n', '\n'),
  ('v', '\x0b'), ('f', '\x0c'), ('r', '\r'), ('e', '\x1b'), (' ', ' '), ('"', '"'),
  ('\\', '\\'), ('/', '/'), ('N', '\x85'), ('_', '\u00a0'), ('L', '\u2028'), ('P', '\u2029')]

/-- The number of hexadecimal digits behind the letter of an escape. -/
def escapeLength : List (Char × Nat) := [('x', 2), ('u', 4), ('U', 8)]

/-- One more than the greatest number that a character may be asked for by. -/
def characterLimit : Nat := 2147483648

/-- The character of an escape that gives its number in hexadecimal digits. -/
def numberedChar (digits : List Char) (length : Nat) : Except Refusal Char :=
  let n := ofDigits 16 digits
  if digits.length ≠ length ∨ digits.any fun d => (hexDigit? d).isNone then .error .malformed
  else if n.isValidChar then .ok (Char.ofNat n)
  else if n < 0x110000 then .error .malformed
  else if n < characterLimit then .error (.scalar .noSuchCharacter)
  else .error (.scalar .tooLarge)

/-- What an escape stands for; the cursor is behind the backslash. -/
def escape (fuel : Nat) (c : Cursor) : Except Refusal (List Char × Cursor) :=
  match c.peek with
  | none => .error .malformed
  | some ch =>
    match escapes.lookup ch, escapeLength.lookup ch with
    | some meant, _ => .ok ([meant], c.advance)
    | none, some length =>
      (numberedChar (c.advance.rest.take length) length).map fun meant =>
        ([meant], c.advance.forward length)
    | none, none =>
      if isBreak ch then wellFormed (quotedBreaks fuel c.advance) else .error .malformed

/-- A scalar behind its opening quote; `done` is its text so far, in reverse. -/
def quotedFrom (double : Bool) : (fuel : Nat) → (done : List Char) → Cursor →
    Except Refusal (String × Cursor)
  | 0, _, _ => .error .malformed
  | fuel + 1, done, c =>
    match c.rest with
    | [] => .error .malformed
    | ch :: rest =>
      if double ∧ ch = '"' then .ok (String.ofList done.reverse, c.advance)
      else if ¬double ∧ ch = '\'' then
        if rest.head? = some '\'' then quotedFrom double fuel ('\'' :: done) (c.forward 2)
        else .ok (String.ofList done.reverse, c.advance)
      else if double ∧ ch = '\\' then
        match escape fuel c.advance with
        | .ok (meant, c) => quotedFrom double fuel (meant.reverse ++ done) c
        | .error refusal => .error refusal
      else if isSpace ch then
        match quotedSpace fuel c with
        | some (space, c) => quotedFrom double fuel (space.reverse ++ done) c
        | none => .error .malformed
      else quotedFrom double fuel (ch :: done) c.advance

/-- The quoted scalar at a place; `bound` is more than the number of characters that are left. -/
def quoted (bound : Nat) (double : Bool) (c : Cursor) : Except Refusal (String × Cursor) :=
  quotedFrom double bound [] c.advance

/-! ## Block scalars -/

/-- What becomes of the line ends at the end of a block scalar. -/
inductive Chomping where
  /-- None stays. -/
  | strip
  /-- One stays. -/
  | clip
  /-- All stay. -/
  | keep
deriving DecidableEq, Repr, Inhabited

/-- The sign for the line ends at the end of a block scalar. -/
def chompingSign? (c : Cursor) : Option Chomping :=
  match c.peek with
  | some '+' => some .keep
  | some '-' => some .strip
  | _ => none

/-- The digit for the indentation of a block scalar. -/
def indentDigit? (c : Cursor) : Option Nat :=
  c.peek.bind fun ch => if ch.isDigit then some (ch.toNat - 48) else none

/-- The signs behind the indicator of a block scalar, in either order. -/
def blockSigns (c : Cursor) : Option (Chomping × Option Nat × Cursor) :=
  let (chomping, increment, c) :=
    match chompingSign? c, indentDigit? c with
    | some chomping, _ =>
      match indentDigit? c.advance with
      | some n => (chomping, some n, c.forward 2)
      | none => (chomping, none, c.advance)
    | none, some n =>
      match chompingSign? c.advance with
      | some chomping => (chomping, some n, c.forward 2)
      | none => (.clip, some n, c.advance)
    | none, none => (.clip, none, c)
  let separated := match c.peek with
    | none => true
    | some ch => ch == ' ' || isBreak ch
  if increment = some 0 ∨ ¬separated then none else some (chomping, increment, c)

/-- The rest of the line of the indicator, which may hold a comment. -/
def blockHeadEnd (c : Cursor) : Option Cursor :=
  let c := (c.skipWhile (· == ' ')).skipComment
  if c.atLineEnd then some c.advance else none

/-- The empty lines at the beginning of a block scalar, and the greatest column reached in them or
in front of the first line. -/
def blockStart : List Char → (column : Nat) → Cursor → List Char × Nat × Cursor
  | [], column, c => ([], column, c)
  | ch :: rest, column, c =>
    if ch = ' ' then blockStart rest (max column c.advance.column) c.advance
    else if isBreak ch then
      let (breaks, column, c) := blockStart rest column c.advance
      (breakText ch :: breaks, column, c)
    else ([], column, c)

/-- Empty lines, and blanks up to the column `indent` of the next line. -/
def blockBreaks (indent : Nat) : List Char → Cursor → List Char × Cursor
  | [], c => ([], c)
  | ch :: rest, c =>
    if ch = ' ' ∧ c.column < indent then blockBreaks indent rest c.advance
    else if isBreak ch then
      let (breaks, c) := blockBreaks indent rest c.advance
      (breakText ch :: breaks, c)
    else ([], c)

/-- Does a line of the block begin here? -/
def atBlockLine (indent : Nat) (c : Cursor) : Bool :=
  c.column == indent && c.peek.isSome

/-- Does a blank come next? -/
def blankNext (c : Cursor) : Bool :=
  c.peek.any isBlank

/-- What the end of a line becomes between two lines of a block, given the empty lines between
them.  Folding leaves lines alone that begin with a blank. -/
def lineJoint (folded blankAround : Bool) (lineEnd breaks : List Char) : List Char :=
  (if folded ∧ lineEnd = ['\n'] ∧ ¬blankAround then
    if breaks.isEmpty then [' '] else []
  else lineEnd) ++ breaks

/-- The lines of a block whose text so far is `done`, in reverse. -/
def blockLines (folded : Bool) (indent : Nat) (chomping : Chomping) : (fuel : Nat) →
    (done : List Char) → Cursor → String × Cursor
  | 0, done, c => (String.ofList done.reverse, c)
  | fuel + 1, done, c =>
    let line := c.takeWhile fun ch => !isBreak ch
    let behind := c.skipWhile fun ch => !isBreak ch
    let lineEnd := (behind.peek.map breakText).toList
    let (breaks, next) := blockBreaks indent behind.advance.rest behind.advance
    let done := line.reverse ++ done
    if atBlockLine indent next then
      let joint := lineJoint folded (blankNext c || blankNext next) lineEnd breaks
      blockLines folded indent chomping fuel (joint.reverse ++ done) next
    else
      let tail := match chomping with
        | .strip => []
        | .clip => lineEnd
        | .keep => lineEnd ++ breaks
      (String.ofList (done.reverse ++ tail), next)

/-- The block scalar at a place, inside a block whose lines are moved in by `margin` at least;
`bound` is more than the number of characters that are left. -/
def block (bound : Nat) (folded : Bool) (margin : Nat) (c : Cursor) : Option (String × Cursor) := do
  let (chomping, increment, c) ← blockSigns c.advance
  let c ← blockHeadEnd c
  let least := max margin 1
  let (breaks, indent, c) :=
    match increment with
    | none =>
      let (breaks, column, c) := blockStart c.rest 0 c
      (breaks, max least column, c)
    | some n =>
      let indent := least + n - 1
      let (breaks, c) := blockBreaks indent c.rest c
      (breaks, indent, c)
  if atBlockLine indent c then
    return blockLines folded indent chomping bound breaks.reverse c
  else
    return (String.ofList (if chomping = .keep then breaks else []), c)

end StepTrace.Yaml
