import StepTrace.Numeral.Digits
import StepTrace.Text.Classes

/-!
# Reading integers

An integer numeral is an optional sign and digits, with single underscores allowed between digits
and blanks allowed around it.  Decimal digits may be those of any script; in a base other than ten
the digits may have the mark of the base in front.
-/

namespace StepTrace.Numeral

open StepTrace.Text

/-- A blank that may stand around a numeral. -/
def isNumeralBlank (c : Char) : Bool :=
  if c.toNat < 128 then isAsciiBlank c else isBlank c

/-- The text without blanks around it. -/
def trimBlanks (s : List Char) : List Char :=
  ((s.dropWhile isNumeralBlank).reverse.dropWhile isNumeralBlank).reverse

/-- The value of a digit of any script, or of a letter that serves as a digit. -/
def digitOf? (c : Char) : Option Nat :=
  (digitValue? c).orElse fun _ => hexDigit? c

/-- The digits of a numeral as one number.  `pending` says that a digit has to follow: at the
start, and behind an underscore. -/
def readDigits? (base : Nat) : (pending : Bool) → (value : Nat) → List Char → Option Nat
  | pending, value, [] => if pending then none else some value
  | pending, value, c :: s =>
    if c = '_' then (if pending then none else readDigits? base true value s)
    else
      match (digitOf? c).filter (· < base) with
      | some d => readDigits? base false (base * value + d) s
      | none => none

/-- Is the letter the mark of the base, behind a zero? -/
def isBaseMark (base : Nat) (c : Char) : Bool :=
  (base == 2 && (c == 'b' || c == 'B')) || (base == 8 && (c == 'o' || c == 'O'))
    || (base == 16 && (c == 'x' || c == 'X'))

/-- A numeral without the mark of its base. -/
def dropBaseMark (base : Nat) : List Char → List Char
  | '0' :: c :: s =>
    if isBaseMark base c then (match s with
      | '_' :: s => s
      | s => s)
    else '0' :: c :: s
  | s => s

/-- The integer that a text stands for in a base. -/
def readInBase? (base : Nat) (s : List Char) : Option Int :=
  match trimBlanks s with
  | '-' :: s => (readDigits? base true 0 (dropBaseMark base s)).map fun n => -(n : Int)
  | '+' :: s => (readDigits? base true 0 (dropBaseMark base s)).map Int.ofNat
  | s => (readDigits? base true 0 (dropBaseMark base s)).map Int.ofNat

/-- The integer that a text stands for in base ten. -/
def readInteger? (s : List Char) : Option Int :=
  readInBase? 10 s

end StepTrace.Numeral
