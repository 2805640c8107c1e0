import StepTrace.Numeral.Digits

/-!
# Tags of YAML

A tag says how a node is read.  A node without a tag of its own has that of its kind; a plain scalar
has the tag that its form tells: it stands for null, a truth value, a number, a date, or its own
text.  Numerals may hold underscores; integers may be written in base two, eight, ten or sixteen,
and integers and floating-point numbers in base sixty with colons.

Main definitions: `Tag.ofName` and `Tag.ofPlain`.
-/

namespace StepTrace.Yaml

open Numeral

/-- How a node is read. -/
inductive Tag where
  | null
  | bool
  | int
  | float
  | moment
  | text
  | list
  | map
  /-- As a key: take over the fields of the value. -/
  | merge
  /-- As a key: the field for the value of the whole mapping. -/
  | value
  | unknown
deriving DecidableEq, Repr, Inhabited

/-! ## Words -/

/-- The words for null. -/
def nullWords : List String := ["", "~", "null", "Null", "NULL"]

/-- The words for true and false. -/
def truthWords : List String :=
  ["yes", "Yes", "YES", "no", "No", "NO", "true", "True", "TRUE", "false", "False", "FALSE",
    "on", "On", "ON", "off", "Off", "OFF"]

/-- The words for numbers that are not finite, behind their sign. -/
def infinityWords : List String := [".inf", ".Inf", ".INF"]

def nanWords : List String := [".nan", ".NaN", ".NAN"]

/-- The words that stand for signs of the format itself. -/
def signWords : List String := ["!", "&", "*"]

/-! ## Numerals -/

/-- The text without a sign in front. -/
def dropSign : List Char → List Char
  | '-' :: s | '+' :: s => s
  | s => s

/-- A decimal digit or an underscore. -/
def isDigitOrGap (c : Char) : Bool :=
  c.isDigit || c == '_'

/-- A piece of a numeral in base sixty, after the first: one or two digits, and below sixty. -/
def isSixtyPiece : List Char → Bool
  | [a] => a.isDigit
  | [a, b] => '0' ≤ a && a ≤ '5' && b.isDigit
  | _ => false

/-- Cuts a text at every colon. -/
def splitColons : List Char → List (List Char)
  | [] => [[]]
  | c :: s =>
    match splitColons s with
    | [] => [[c]]
    | piece :: pieces => if c = ':' then [] :: piece :: pieces else (c :: piece) :: pieces

/-- Two or more pieces in base sixty. -/
def isSixty (s : List Char) : Bool :=
  match splitColons s with
  | head :: piece :: pieces =>
    head.head?.any Char.isDigit && head.all isDigitOrGap && (piece :: pieces).all isSixtyPiece
  | _ => false

/-- An integer. -/
def isInteger (s : List Char) : Bool :=
  match dropSign s with
  | ['0'] => true
  | '0' :: 'b' :: digits =>
    !digits.isEmpty && digits.all fun c => c == '0' || c == '1' || c == '_'
  | '0' :: 'x' :: digits =>
    !digits.isEmpty && digits.all fun c => (hexDigit? c).isSome || c == '_'
  | '0' :: digits => digits.all fun c => ('0' ≤ c && c ≤ '7') || c == '_'
  | s => s.head?.any Char.isDigit && (s.all isDigitOrGap || isSixty s)

/-- The exponent that ends a numeral: nothing, or a letter, a sign and digits. -/
def isExponent : List Char → Bool
  | [] => true
  | e :: sign :: digits =>
    (e == 'e' || e == 'E') && (sign == '-' || sign == '+') && !digits.isEmpty
      && digits.all Char.isDigit
  | _ => false

/-- A floating-point number in base ten; the whole part may only be missing where there is no
sign. -/
def isDecimal (s : List Char) : Bool :=
  let body := dropSign s
  let whole := body.takeWhile isDigitOrGap
  match body.drop whole.length with
  | '.' :: rest =>
    let part := rest.takeWhile isDigitOrGap
    let begun :=
      if whole.isEmpty then body.length == s.length && part.head?.any Char.isDigit
      else whole.head?.any Char.isDigit
    begun && isExponent (rest.drop part.length)
  | _ => false

/-- A floating-point number in base sixty. -/
def isSixtyDecimal (s : List Char) : Bool :=
  let body := dropSign s
  let whole := body.takeWhile (· != '.')
  match body.drop whole.length with
  | '.' :: part => isSixty whole && part.all isDigitOrGap
  | _ => false

/-- A floating-point number. -/
def isFloat (s : List Char) : Bool :=
  isDecimal s || isSixtyDecimal s || String.ofList (dropSign s) ∈ infinityWords
    || String.ofList s ∈ nanWords

/-! ## Dates -/

/-- The numerals of a time of day. -/
structure ClockText where
  hour : List Char
  minute : List Char
  second : List Char
  /-- The digits behind the point. -/
  fraction : List Char
  /-- The distance from the common time: whether it is west, hours and minutes. -/
  offset : Option (Bool × List Char × List Char)
deriving DecidableEq, Repr, Inhabited

/-- The numerals of a date. -/
structure MomentText where
  year : List Char
  month : List Char
  day : List Char
  clock : Option ClockText
deriving DecidableEq, Repr, Inhabited

/-- At least `least` and at most `most` digits, and what follows them. -/
def digits? (least most : Nat) (s : List Char) : Option (List Char × List Char) :=
  let digits := (s.take most).takeWhile Char.isDigit
  if least ≤ digits.length then some (digits, s.drop digits.length) else none

/-- The text behind the character that it begins with. -/
def after? (c : Char) : List Char → Option (List Char)
  | d :: s => if c = d then some s else none
  | [] => none

/-- A blank between the parts of a date. -/
def isDateBlank (c : Char) : Bool :=
  c == ' ' || c == '\t'

/-- The distance from the common time at the end of a date: none, or as it is written. -/
def offsetText? (s : List Char) : Option (Option (Bool × List Char × List Char)) :=
  if s.isEmpty then some none
  else
    match s.dropWhile isDateBlank with
    | ['Z'] => some (some (false, [], []))
    | sign :: s => do
      if sign ≠ '-' ∧ sign ≠ '+' then none
      let (hour, s) ← digits? 1 2 s
      if s.isEmpty then return some (sign == '-', hour, [])
      let (minute, s) ← digits? 2 2 (← after? ':' s)
      if s.isEmpty then return some (sign == '-', hour, minute) else none
    | [] => none

/-- The time of day behind a day. -/
def clockText? (s : List Char) : Option ClockText := do
  let (hour, s) ← digits? 1 2 s
  let (minute, s) ← digits? 2 2 (← after? ':' s)
  let (second, s) ← digits? 2 2 (← after? ':' s)
  let fraction := ((after? '.' s).getD []).takeWhile Char.isDigit
  let s := ((after? '.' s).map fun s => s.drop fraction.length).getD s
  return { hour, minute, second, fraction, offset := ← offsetText? s }

/-- The numerals of a date, if a text is written as one: a day, and perhaps a time of day behind the
letter `T` or blanks. -/
def momentText? (s : List Char) : Option MomentText := do
  let (year, s) ← digits? 4 4 s
  let (month, s) ← digits? 1 2 (← after? '-' s)
  let (day, s) ← digits? 1 2 (← after? '-' s)
  match s with
  | [] => return { year, month, day, clock := none }
  | c :: rest =>
    if c = 'T' ∨ c = 't' then return { year, month, day, clock := some (← clockText? rest) }
    else if isDateBlank c then
      return { year, month, day, clock := some (← clockText? (rest.dropWhile isDateBlank)) }
    else none

/-- A date.  Where it is a day alone, month and day have two digits. -/
def isMoment (s : List Char) : Bool :=
  match momentText? s with
  | some m => m.clock.isSome || (m.month.length == 2 && m.day.length == 2)
  | none => false

/-! ## The tag of a node -/

namespace Tag

/-- The beginning of the names of tags. -/
def namespaceName : String := "tag:yaml.org,2002:"

/-- The tags by their names. -/
def named : List (String × Tag) := [
  ("null", null), ("bool", bool), ("int", int), ("float", float), ("timestamp", moment),
  ("str", text), ("seq", list), ("map", map), ("merge", merge), ("value", value)]

/-- The tag of a name. -/
def ofName (name : String) : Tag :=
  ((named.find? fun (short, _) => namespaceName ++ short = name).map (·.2)).getD unknown

/-- The tag that a form tells. -/
def ofForm (s : List Char) : Tag :=
  let word := String.ofList s
  if word ∈ truthWords then bool
  else if isFloat s then float
  else if isInteger s then int
  else if word = "<<" then merge
  else if word ∈ nullWords then null
  else if isMoment s then moment
  else if word = "=" then value
  else if word ∈ signWords then unknown
  else text

/-- The tag of a scalar that is read by its form.  A line feed at its end does not count. -/
def ofPlain (s : String) : Tag :=
  match s.toList.reverse with
  | '\n' :: before => if before.isEmpty then text else ofForm before.reverse
  | _ => ofForm s.toList

end Tag

end StepTrace.Yaml
