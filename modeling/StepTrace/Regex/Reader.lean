import StepTrace.Regex.Alternation
import StepTrace.Regex.Match
import StepTrace.Text.Identifier
import StepTrace.Numeral.Integer

/-!
# Reading patterns

The text of a pattern is read from left to right into a syntax tree.  A backslash and the character
behind it are read as one token, so a pattern cannot end in a lone backslash.

The reader keeps what later parts of the pattern depend on: which groups are closed and how wide
they are, the names of groups, and the flags that the beginning of the pattern has set.  Two kinds
of fault are kept back until the whole pattern has been read: a look-behind without a fixed width,
and a loop where loops are forbidden.

Main definition: `Regex.read`.
-/

namespace StepTrace.Regex

open Text

/-! ## Tokens -/

/-- A character, or a backslash together with the character behind it. -/
inductive Token where
  | plain (c : Char)
  | escaped (c : Char)
deriving DecidableEq, Repr

/-- The text of a token. -/
def Token.chars : Token → List Char
  | plain c => [c]
  | escaped c => ['\\', c]

/-- The first token of a text, and what follows it. -/
def nextToken? : List Char → Option (Token × List Char)
  | [] => none
  | '\\' :: c :: rest => some (.escaped c, rest)
  | c :: rest => some (.plain c, rest)

/-! ## Flags -/

/-- How the parts of a pattern are to be read and compared. -/
structure Flags where
  ignoreCase : Bool := false
  multiline : Bool := false
  dotAll : Bool := false
  verbose : Bool := false
  ascii : Bool := false
  unicode : Bool := false
  noLoops : Bool := false
deriving DecidableEq, Repr, Inhabited

namespace Flags

/-- The flag of a letter. -/
def ofLetter? : Char → Option Flags
  | 'i' => some { ignoreCase := true }
  | 'm' => some { multiline := true }
  | 's' => some { dotAll := true }
  | 'x' => some { verbose := true }
  | 'a' => some { ascii := true }
  | 'u' => some { unicode := true }
  | 't' => some { noLoops := true }
  | _ => none

def union (f g : Flags) : Flags where
  ignoreCase := f.ignoreCase || g.ignoreCase
  multiline := f.multiline || g.multiline
  dotAll := f.dotAll || g.dotAll
  verbose := f.verbose || g.verbose
  ascii := f.ascii || g.ascii
  unicode := f.unicode || g.unicode
  noLoops := f.noLoops || g.noLoops

/-- The flags of `f` that are not in `g`. -/
def without (f g : Flags) : Flags where
  ignoreCase := f.ignoreCase && !g.ignoreCase
  multiline := f.multiline && !g.multiline
  dotAll := f.dotAll && !g.dotAll
  verbose := f.verbose && !g.verbose
  ascii := f.ascii && !g.ascii
  unicode := f.unicode && !g.unicode
  noLoops := f.noLoops && !g.noLoops

/-- Do the two have a flag in common? -/
def meets (f g : Flags) : Bool :=
  f.without g != f

/-- Does the set choose between ASCII and Unicode classes? -/
def choosesClasses (f : Flags) : Bool :=
  f.ascii || f.unicode

/-- The flags inside a group that adds and drops some.  A choice of classes replaces the former
one. -/
def inGroup (f added dropped : Flags) : Flags :=
  let f := if added.choosesClasses then { f with ascii := false, unicode := false } else f
  (f.union added).without dropped

/-- How letters are compared. -/
def folding (f : Flags) : Folding :=
  if !f.ignoreCase then .exact else if f.ascii then .ascii else .unicode

end Flags

/-! ## The state of the reader -/

/-- What has been read so far, as far as the rest depends on it. -/
structure Reading where
  rest : List Char
  /-- The flags set for the whole pattern. -/
  flags : Flags := {}
  /-- The widths of the groups in the order in which they were opened, absent while open. -/
  widths : Array (Option Width) := #[]
  names : List (String × Nat) := []
  /-- Inside a look-behind, the number of the first group that was not closed before it. -/
  behind : Option Nat := none
  /-- The numbers of groups that conditions ask for. -/
  conditions : List Nat := []
  /-- Has a look-behind without a fixed width been read? -/
  unfixed : Bool := false
deriving Inhabited

/-- A step of the reader. -/
abbrev Reader := StateT Reading (Except Refusal)

namespace Reader

def refuse {α : Type} : Reader α := throw .malformed

/-- The next token, which stays unread. -/
def peek : Reader (Option Token) := do
  return (nextToken? (← get).rest).map (·.1)

/-- Goes on with the given text, which must not be a lone backslash. -/
def goOn (rest : List Char) : Reader Unit := do
  if rest = ['\\'] then refuse
  modify fun r => { r with rest }

/-- Reads a token. -/
def token : Reader (Option Token) := do
  match nextToken? (← get).rest with
  | none => return none
  | some (t, rest) => do
    goOn rest
    return some t

/-- Reads the character if it comes next. -/
def accept (c : Char) : Reader Bool := do
  if (← peek) = some (.plain c) then do
    let _ ← token
    return true
  else return false

/-- Reads the character, which has to come next. -/
def expect (c : Char) : Reader Unit := do
  if !(← accept c) then refuse

/-- Reads up to `limit` characters that satisfy the test. -/
def takeWhile (test : Char → Bool) : (limit : Nat) → Reader (List Char)
  | 0 => return []
  | limit + 1 => do
    match ← peek with
    | some (.plain c) =>
      if test c then do
        let _ ← token
        return c :: (← takeWhile test limit)
      else return []
    | _ => return []

/-- Reads the text before `stop` and `stop` itself; `fuel` bounds the number of tokens. -/
def textUntil (stop : Char) : (fuel : Nat) → Reader (List Char)
  | 0 => refuse
  | fuel + 1 => do
    match ← token with
    | none => refuse
    | some t =>
      if t = .plain stop then return []
      else return t.chars ++ (← textUntil stop fuel)

/-- Reads a name that ends at `stop`; it must not be empty. -/
def name (stop : Char) : Reader (List Char) := do
  let found ← textUntil stop ((← get).rest.length + 1)
  if found.isEmpty then refuse
  return found

/-- Passes over the tokens before `stop` and `stop` itself, or to the end of the pattern if
`open_ended`. -/
def skipPast (stop : Char) (openEnded : Bool) : (fuel : Nat) → Reader Unit
  | 0 => return
  | fuel + 1 => do
    match ← token with
    | none => if openEnded then return else refuse
    | some t => if t = .plain stop then return else skipPast stop openEnded fuel

/-! ## Groups -/

/-- The number of groups opened so far, the whole match counted as one. -/
def groups : Reader Nat := do
  return (← get).widths.size + 1

/-- The width of a closed group. -/
def closedWidth? (number : Nat) : Reader (Option Width) := do
  if number = 0 then return none
  return ((← get).widths[number - 1]?).join

/-- Inside a look-behind only groups closed before it may be referred to. -/
def checkBehind (number : Nat) : Reader Unit := do
  match (← get).behind with
  | none => return
  | some bound =>
    if (← closedWidth? number).isNone || bound ≤ number then refuse

/-- Opens a group and gives its number. -/
def openGroup (name : Option String) : Reader Nat := do
  let number ← groups
  match name with
  | none => pure ()
  | some name =>
    if ((← get).names.lookup name).isSome then refuse
    modify fun r => { r with names := (name, number) :: r.names }
  modify fun r => { r with widths := r.widths.push none }
  return number

/-- The widths of the groups closed so far. -/
def groupWidths : Reader (Nat → Width) := do
  let widths := (← get).widths
  return fun number => ((widths[number - 1]?).join).getD (.exactly 0)

def closeGroup (number : Nat) (body : Expr) : Reader Unit := do
  let width := body.width (← groupWidths)
  modify fun r => { r with widths := r.widths.setIfInBounds (number - 1) (some width) }

/-- A back-reference to a group that has to be closed. -/
def backReference (flags : Flags) (number : Nat) : Reader Expr := do
  if (← closedWidth? number).isNone then refuse
  checkBehind number
  return .same number flags.folding

/-! ## Escapes -/

def isHex (c : Char) : Bool :=
  c.isDigit || ('a' ≤ c && c ≤ 'f') || ('A' ≤ c && c ≤ 'F')

def isOctal (c : Char) : Bool :=
  '0' ≤ c && c ≤ '7'

def hexValue (c : Char) : Nat :=
  if c.isDigit then c.toNat - 48 else if 'a' ≤ c then c.toNat - 87 else c.toNat - 55

def numeral (base : Nat) (digits : List Char) : Nat :=
  digits.foldl (fun n c => n * base + hexValue c) 0

/-- The code point written by exactly `count` hexadecimal digits. -/
def hexCode (count : Nat) : Reader Nat := do
  let digits ← takeWhile isHex count
  if digits.length ≠ count then refuse
  let code := numeral 16 digits
  if 0x110000 ≤ code then refuse
  return code

/-- The character that a letter behind a backslash names, in classes and outside. -/
def controlCode? : Char → Option Nat
  | 'a' => some 7
  | 'b' => some 8
  | 'f' => some 12
  | 'n' => some 10
  | 'r' => some 13
  | 't' => some 9
  | 'v' => some 11
  | '\\' => some 92
  | _ => none

/-- The class that a letter behind a backslash names, with its negation. -/
def category? : Char → Option (Category × Bool)
  | 'd' => some (.digit, false)
  | 'D' => some (.digit, true)
  | 's' => some (.blank, false)
  | 'S' => some (.blank, true)
  | 'w' => some (.word, false)
  | 'W' => some (.word, true)
  | _ => none

/-- The anchor that a letter behind a backslash names. -/
def anchor? (ascii : Bool) : Char → Option Anchor
  | 'A' => some .textStart
  | 'Z' => some .textEnd
  | 'b' => some (.wordBoundary ascii)
  | 'B' => some (.notWordBoundary ascii)
  | _ => none

/-- The code point written by the escape `\x`, `\u` or `\U`. -/
def hexEscape? : Char → Option (Reader Nat)
  | 'x' => some (hexCode 2)
  | 'u' => some (hexCode 4)
  | 'U' => some (hexCode 8)
  | _ => none

/-- An escape inside a class. -/
def classEscape (flags : Flags) (c : Char) : Reader SetItem := do
  if let some n := controlCode? c then return .char n
  if let some (category, negated) := category? c then
    return .named category flags.ascii negated
  if let some read := hexEscape? c then return .char (← read)
  if isOctal c then do
    let n := numeral 8 (c :: (← takeWhile isOctal 2))
    if 0o377 < n then refuse
    return .char n
  if c.isAlphanum then refuse
  return .char c.toNat

/-! ## Items of a sequence -/

/-- What a repetition sign may follow. -/
inductive ItemKind where
  | repeatable
  | anchor
  | loop
deriving DecidableEq, Repr

/-- What is written in one piece: a part of a sequence, or a group whose parts are parts of the
sequence around it. -/
structure Item where
  parts : List Expr
  kind : ItemKind := .repeatable

namespace Item

def ofExpr (e : Expr) : Item := { parts := [e] }

def ofAnchor (place : Anchor) : Item := ⟨[.anchor place], .anchor⟩

def code (flags : Flags) (n : Nat) : Item :=
  .ofExpr (.one (.letter n false flags.folding))

end Item

/-- The decimal number behind a backslash: a back-reference, or three octal digits. -/
def numberEscape (flags : Flags) (c : Char) : Reader Item := do
  let second ← takeWhile Char.isDigit 1
  match second with
  | [d] =>
    let third ← if isOctal c && isOctal d then takeWhile isOctal 1 else pure []
    match third with
    | [e] =>
      let n := numeral 8 [c, d, e]
      if 0o377 < n then refuse
      return .code flags n
    | _ => return .ofExpr (← backReference flags (numeral 10 [c, d]))
  | _ => return .ofExpr (← backReference flags (numeral 10 [c]))

/-- An escape outside classes. -/
def escape (flags : Flags) (c : Char) : Reader Item := do
  if let some place := anchor? flags.ascii c then return .ofAnchor place
  if let some (category, negated) := category? c then
    let items : List SetItem := [.named category flags.ascii negated]
    return .ofExpr (.one (.set { items, folding := flags.folding }))
  if let some n := controlCode? c then return .code flags n
  if let some read := hexEscape? c then return .code flags (← read)
  if c = '0' then return .code flags (numeral 8 (← takeWhile isOctal 2))
  if c.isDigit then return ← numberEscape flags c
  if c.isAlpha then refuse
  return .code flags c.toNat

/-! ## Classes in brackets -/

/-- One end of a range, or an entry that stands alone. -/
def classEntry (flags : Flags) : Token → Reader SetItem
  | .plain c => return .char c.toNat
  | .escaped c => classEscape flags c

/-- The entries up to the closing bracket, in reverse; a bracket that comes first is an entry. -/
def classItems (flags : Flags) : (fuel : Nat) → (items : List SetItem) → Reader (List SetItem)
  | 0, _ => refuse
  | fuel + 1, items => do
    match ← token with
    | none => refuse
    | some first =>
      if first = .plain ']' && !items.isEmpty then return items
      let low ← classEntry flags first
      if ← accept '-' then
        match ← token with
        | none => refuse
        | some second =>
          if second = .plain ']' then return .char 45 :: low :: items
          match low, ← classEntry flags second with
          | .char a, .char b =>
            if b < a then refuse
            classItems flags fuel (.range a b :: items)
          | _, _ => refuse
      else classItems flags fuel (low :: items)

/-- A class, behind its opening bracket.  A class of one character is that letter. -/
def charClass (flags : Flags) : Reader Item := do
  let negated ← accept '^'
  let items ← classItems flags ((← get).rest.length + 1) []
  let folding := flags.folding
  match items.reverse.eraseDups with
  | [.char code] => return .ofExpr (.one (.letter code negated folding))
  | items => return .ofExpr (.one (.set { items, negated, folding }))

/-! ## Repetition -/

/-- The first number that is too large for a repetition count. -/
def repetitionLimit : Nat := 4294967295

/-- A repetition count; none if no digits were written. -/
def repetitionCount (digits : List Char) : Reader (Option Nat) := do
  if digits.isEmpty then return none
  let n := numeral 10 digits
  if repetitionLimit ≤ n then throw .repetitionTooLarge
  return some n

/-- Counts in braces, behind the opening brace; none if the brace stands for itself. -/
def bracedCounts? : Reader (Option (Nat × Option Nat)) := do
  let here := (← get).rest
  if (← peek) = some (.plain '}') then return none
  let low ← takeWhile Char.isDigit here.length
  let comma ← accept ','
  let high ← if comma then takeWhile Char.isDigit here.length else pure low
  if !(← accept '}') then do
    modify fun r => { r with rest := here }
    return none
  let least := (← repetitionCount low).getD 0
  let most ← repetitionCount high
  match most with
  | some m => if m < least then refuse
  | none => pure ()
  return some (least, most)

/-- The counts that a repetition sign stands for; none for a brace that stands for itself. -/
def counts? : Char → Reader (Option (Nat × Option Nat))
  | '?' => return some (0, some 1)
  | '*' => return some (0, none)
  | '+' => return some (1, none)
  | _ => bracedCounts?

/-- The mode of a loop, from the sign behind its counts. -/
def loopMode : Reader LoopMode := do
  if ← accept '?' then return .lazy
  else if ← accept '+' then return .possessive
  else return .greedy

/-- The items with the last one repeated. -/
def repeatLast (least : Nat) (most : Option Nat) : List Item → Reader (List Item)
  | [] => refuse
  | last :: items => do
    if last.kind ≠ .repeatable then refuse
    return ⟨[.loop (← loopMode) least most (.sequence last.parts)], .loop⟩ :: items

/-! ## Flags in the pattern -/

/-- The flag of a token; a token that is no flag letter is refused. -/
def flagOf : Option Token → Reader Flags
  | some (.plain c) =>
    match Flags.ofLetter? c with
    | some f => return f
    | none => refuse
  | _ => refuse

/-- Flags to add, from the letter just read on, and the sign that ends them. -/
def addedFlags : (fuel : Nat) → (added : Flags) → (letter : Option Token) → Reader (Flags × Char)
  | 0, _, _ => refuse
  | fuel + 1, added, letter => do
    let added := added.union (← flagOf letter)
    if added.ascii && added.unicode then refuse
    match ← token with
    | some (.plain ')') => return (added, ')')
    | some (.plain '-') => return (added, '-')
    | some (.plain ':') => return (added, ':')
    | next => addedFlags fuel added next

/-- Flags to drop, from the letter just read on, up to the colon. -/
def droppedFlags : (fuel : Nat) → (dropped : Flags) → (letter : Option Token) → Reader Flags
  | 0, _, _ => refuse
  | fuel + 1, dropped, letter => do
    let flag ← flagOf letter
    if flag.choosesClasses then refuse
    let dropped := dropped.union flag
    match ← token with
    | some (.plain ':') => return dropped
    | next => droppedFlags fuel dropped next

/-- Flags behind `(?`, from the letter or minus sign just read on: flags for the whole pattern, or
the flags that a group adds and drops. -/
def groupFlags (first : Char) : Reader (Option (Flags × Flags)) := do
  let fuel := (← get).rest.length + 1
  let (added, stop) ←
    if first = '-' then pure ({}, '-') else addedFlags fuel {} (some (.plain first))
  if stop = ')' then do
    modify fun r => { r with flags := r.flags.union added }
    return none
  if added.noLoops then refuse
  let dropped ← if stop = '-' then do droppedFlags fuel {} (← token) else pure {}
  if dropped.noLoops || added.meets dropped then refuse
  return some (added, dropped)

/-! ## Conditions -/

/-- The first number that is too large for a group. -/
def groupLimit : Nat := 1073741823

/-- The group that a condition asks for, by name or number. -/
def conditionGroup : Reader Nat := do
  let found ← name ')'
  if isIdentifier found then
    match (← get).names.lookup (String.ofList found) with
    | some number => return number
    | none => refuse
  else
    match Numeral.readInteger? found with
    | some (.ofNat number) => do
      if number = 0 || groupLimit ≤ number then refuse
      modify fun r => { r with conditions := number :: r.conditions }
      return number
    | _ => refuse

/-! ## Sequences, alternatives and groups -/

/-- The flags that hold in a scope: those given, or at the outermost level those of the whole
pattern. -/
def scopeFlags (scope : Option Flags) : Reader Flags := do
  return scope.getD (← get).flags

def isVerboseBlank (c : Char) : Bool :=
  isAsciiBlank c

/-- A name of a group, which has to be an identifier. -/
def groupName (stop : Char) : Reader String := do
  let found ← name stop
  if !isIdentifier found then refuse
  return String.ofList found

mutual

/-- Alternatives, up to a closing parenthesis or the end of the pattern, as parts of one sequence.
Without a scope the alternatives are those of the whole pattern. -/
def alternatives (scope : Option Flags) : (fuel : Nat) → (first : Bool) → Reader (List Expr)
  | 0, _ => refuse
  | fuel + 1, first => do
    let found ← branches scope fuel first
    return Expr.joined (← scopeFlags scope).folding found

/-- The parts of each alternative. -/
def branches (scope : Option Flags) : (fuel : Nat) → (first : Bool) → Reader (List (List Expr))
  | 0, _ => refuse
  | fuel + 1, first => do
    let parts ← sequence scope fuel first []
    if ← accept '|' then
      let others ← branches scope fuel false
      return parts :: others
    else return [parts]

/-- The parts of one alternative, with the items read so far in reverse.  Flags for the whole
pattern may stand only where `first` holds and before all items. -/
def sequence (scope : Option Flags) : (fuel : Nat) → (first : Bool) → List Item →
    Reader (List Expr)
  | 0, _, _ => refuse
  | fuel + 1, first, items => do
    let flags ← scopeFlags scope
    let done := items.reverse.flatMap (·.parts)
    match ← peek with
    | none => return done
    | some (.plain '|') => return done
    | some (.plain ')') => return done
    | some (.escaped c) => do
      let _ ← token
      let item ← escape flags c
      sequence scope fuel first (item :: items)
    | some (.plain c) => do
      let _ ← token
      if flags.verbose && isVerboseBlank c then
        sequence scope fuel first items
      else if flags.verbose && c == '#' then do
        skipPast '\n' true ((← get).rest.length + 1)
        sequence scope fuel first items
      else if c == '[' then do
        let item ← charClass flags
        sequence scope fuel first (item :: items)
      else if c == '?' || c == '*' || c == '+' || c == '{' then do
        match ← counts? c with
        | none => sequence scope fuel first (.code flags c.toNat :: items)
        | some (least, most) => do
          let items ← repeatLast least most items
          sequence scope fuel first items
      else if c == '.' then sequence scope fuel first (.ofExpr (.one (.any flags.dotAll)) :: items)
      else if c == '^' then sequence scope fuel first (.ofAnchor (.caret flags.multiline) :: items)
      else if c == '$' then sequence scope fuel first (.ofAnchor (.dollar flags.multiline) :: items)
      else if c == '(' then do
        match ← parenthesis flags fuel (first && items.isEmpty) with
        | none => sequence scope fuel first items
        | some item => sequence scope fuel first (item :: items)
      else sequence scope fuel first (.code flags c.toNat :: items)

/-- What an opening parenthesis begins; comments and flags for the whole pattern leave nothing. -/
def parenthesis (flags : Flags) : (fuel : Nat) → (flagsAllowed : Bool) → Reader (Option Item)
  | 0, _ => refuse
  | fuel + 1, flagsAllowed => do
    if !(← accept '?') then
      return some (.ofExpr (← captured flags fuel none))
    match ← token with
    | some (.plain 'P') => do
      if ← accept '<' then do
        let name ← groupName '>'
        return some (.ofExpr (← captured flags fuel (some name)))
      else if ← accept '=' then do
        let name ← groupName ')'
        match (← get).names.lookup name with
        | none => refuse
        | some number => return some (.ofExpr (← backReference flags number))
      else refuse
    | some (.plain ':') => return some { parts := ← enclosed flags fuel }
    | some (.plain '#') => do
      skipPast ')' false ((← get).rest.length + 1)
      return none
    | some (.plain '=') => return some (.ofExpr (.ahead false (.sequence (← enclosed flags fuel))))
    | some (.plain '!') => return some (.ofExpr (.ahead true (.sequence (← enclosed flags fuel))))
    | some (.plain '<') => do
      match ← token with
      | some (.plain '=') => return some (.ofExpr (← lookBehind flags fuel false))
      | some (.plain '!') => return some (.ofExpr (← lookBehind flags fuel true))
      | _ => refuse
    | some (.plain '(') => return some (.ofExpr (← condition flags fuel))
    | some (.plain '>') => return some (.ofExpr (.atomic (.sequence (← enclosed flags fuel))))
    | some (.plain c) => do
      if c ≠ '-' && (Flags.ofLetter? c).isNone then refuse
      match ← groupFlags c with
      | none => if flagsAllowed then return none else refuse
      | some (added, dropped) => do
        let body ← enclosed (flags.inGroup added dropped) fuel
        return some (.ofExpr (.flagged (.sequence body)))
    | _ => refuse

/-- Alternatives up to a closing parenthesis, which is read, as parts of one sequence. -/
def enclosed (flags : Flags) : (fuel : Nat) → Reader (List Expr)
  | 0 => refuse
  | fuel + 1 => do
    let parts ← alternatives (some flags) fuel false
    expect ')'
    return parts

/-- A capturing group. -/
def captured (flags : Flags) : (fuel : Nat) → (name : Option String) → Reader Expr
  | 0, _ => refuse
  | fuel + 1, name => do
    let number ← openGroup name
    let body := Expr.sequence (← enclosed flags fuel)
    closeGroup number body
    return .group number body

/-- A look-behind.  Groups that it opens itself cannot be referred to inside it. -/
def lookBehind (flags : Flags) : (fuel : Nat) → (negated : Bool) → Reader Expr
  | 0, _ => refuse
  | fuel + 1, negated => do
    let outer := (← get).behind
    if outer.isNone then do
      let bound ← groups
      modify fun r => { r with behind := some bound }
    let body := Expr.sequence (← alternatives (some flags) fuel false)
    if outer.isNone then modify fun r => { r with behind := none }
    expect ')'
    let width := body.width (← groupWidths)
    if width.most ≠ some width.least || repetitionLimit < width.least then
      modify fun r => { r with unfixed := true }
    return .behind negated width.least body

/-- A condition on a group, behind its second parenthesis, with one or two branches. -/
def condition (flags : Flags) : (fuel : Nat) → Reader Expr
  | 0 => refuse
  | fuel + 1 => do
    let number ← conditionGroup
    checkBehind number
    let yes ← sequence (some flags) fuel false []
    let no ←
      if ← accept '|' then do
        let no ← sequence (some flags) fuel false []
        if (← peek) = some (.plain '|') then refuse
        pure no
      else pure []
    expect ')'
    return .ifGroup number (.sequence yes) (.sequence no)

end

/-- The whole pattern, and the checks that wait for its end. -/
def pattern : Reader Expr := do
  let start := (← get).rest
  goOn start
  let e := Expr.sequence (← alternatives none (8 * start.length + 8) true)
  let r ← get
  if r.flags.ascii && r.flags.unicode then throw .conflictingFlags
  if !r.rest.isEmpty then refuse
  if r.conditions.any (r.widths.size < ·) then refuse
  if r.unfixed || (r.flags.noLoops && e.hasLoop) then refuse
  return e

end Reader

/-- The set that first characters are looked up in before a match is tried.  Its named classes are
those of the whole pattern, so it matters where the first set has another alphabet of its own. -/
def startSet? (ascii : Bool) (e : Expr) : Option CharSet := do
  let set ← e.firstSet?
  if set.hasOther ascii && set.items.all (CharSet.isUncased set.folding) then
    some (set.withAlphabet ascii)
  else none

/-- Reads a pattern. -/
def read (source : String) : Except Refusal Regex := do
  let (expr, r) ← Reader.pattern.run { rest := source.toList }
  return { source, expr, groupCount := r.widths.size, start := startSet? r.flags.ascii expr }

end StepTrace.Regex
