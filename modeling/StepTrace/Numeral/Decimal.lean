import StepTrace.Numeral.Binary64
import StepTrace.Numeral.Integer

/-!
# Reading decimal numerals

A decimal numeral is an optional sign, digits with a point among or around them, and an optional
exponent; or a word for a number that is not finite.  Blanks may stand around it, and its digits may
be those of any script.
-/

namespace StepTrace.Numeral

open StepTrace.Text

/-- The decimal digits that a text begins with, as one number with their count, and what follows
them. -/
def leadingDigits : List Char → (value count : Nat) → Nat × Nat × List Char
  | [], value, count => (value, count, [])
  | c :: s, value, count =>
    match digitValue? c with
    | some d => leadingDigits s (10 * value + d) (count + 1)
    | none => (value, count, c :: s)

/-- The exponent that ends a numeral; zero if there is none. -/
def readExponent? (s : List Char) : Option Int :=
  match s with
  | [] => some 0
  | e :: s =>
    if e = 'e' ∨ e = 'E' then
      let (negative, digits) := match s with
        | '-' :: s => (true, s)
        | '+' :: s => (false, s)
        | s => (false, s)
      match leadingDigits digits 0 0 with
      | (n, count, []) => if count = 0 then none else some (if negative then -n else n)
      | _ => none
    else none

/-- The words for numbers that are not finite. -/
def infinityNames : List String := ["inf", "infinity"]

/-- The number that a numeral behind its sign stands for. -/
def readUnsigned? (negative : Bool) (s : List Char) : Option Binary64 :=
  let word := String.ofList (s.map Char.toLower)
  if word ∈ infinityNames then some (.infinite negative)
  else if word = "nan" then some .nan
  else
    let (whole, wholeCount, rest) := leadingDigits s 0 0
    let (digits, partCount, rest) := match rest with
      | '.' :: part => leadingDigits part whole 0
      | rest => (whole, 0, rest)
    if wholeCount + partCount = 0 then none
    else (readExponent? rest).map fun e => .ofDecimal negative digits (e - partCount)

/-- The number nearest to what a text stands for. -/
def readDecimal? (s : List Char) : Option Binary64 :=
  match trimBlanks s with
  | '-' :: s => readUnsigned? true s
  | '+' :: s => readUnsigned? false s
  | s => readUnsigned? false s

end StepTrace.Numeral
