import StepTrace.Numeral.Decimal
import StepTrace.Text.LetterCase
import StepTrace.Value.Basic
import StepTrace.Yaml.Refusal
import StepTrace.Yaml.Tag

/-!
# Values of scalars

The value of a scalar with a given tag.  The tag is the tag that its form tells or the tag that is
written before it; in both cases the text may turn out not to be what the tag says, and then the
scalar has no value.

Main definition: `scalarValue`.
-/

namespace StepTrace.Yaml

open Numeral

/-! ## Numerals -/

/-- A numeral without underscores. -/
def withoutGaps (s : List Char) : List Char :=
  s.filter (· ≠ '_')

/-- A numeral behind its sign, and whether the sign is a minus; a numeral is not empty. -/
def splitSign : List Char → Except ScalarFault (Bool × List Char)
  | [] => .error .noNumeral
  | '-' :: s => .ok (true, s)
  | '+' :: s => .ok (false, s)
  | s => .ok (false, s)

/-- The result of reading a numeral. -/
def numeral {α : Type} : Option α → Except ScalarFault α
  | some a => .ok a
  | none => .error .badNumeral

/-- The integer that a numeral behind its sign stands for, its base told by how it begins. -/
def magnitude (s : List Char) : Except ScalarFault Int :=
  match s with
  | [] => .error .noNumeral
  | ['0'] => .ok 0
  | '0' :: 'b' :: digits => numeral (readInBase? 2 digits)
  | '0' :: 'x' :: digits => numeral (readInBase? 16 digits)
  | '0' :: _ => numeral (readInBase? 8 s)
  | _ =>
    if s.contains ':' then do
      let pieces ← (splitColons s).mapM fun piece => numeral (readInteger? piece)
      return pieces.foldl (fun n piece => 60 * n + piece) 0
    else numeral (readInteger? s)

/-- The integer that a scalar stands for. -/
def integer (s : List Char) : Except ScalarFault Int := do
  let (negative, body) ← splitSign (withoutGaps s)
  let n ← magnitude body
  return if negative then -n else n

/-- The sum of pieces, the last one first, each times the next power of sixty.  Powers, products and
sums are all rounded, in this order. -/
def sixtySum : List Binary64 → (power : Nat) → (sum : Binary64) → Except ScalarFault Binary64
  | [], _, sum => .ok sum
  | piece :: pieces, power, sum =>
    match Binary64.ofNat power with
    | .finite negative m e =>
      sixtySum pieces (60 * power) (sum.add (piece.mul (.finite negative m e)))
    | _ => .error .tooLarge

/-- The floating-point number that a numeral behind its sign stands for. -/
def size (s : List Char) : Except ScalarFault Binary64 :=
  let word := String.ofList s
  if word = ".inf" then .ok (.infinite false)
  else if word = ".nan" then .ok .nan
  else if s.contains ':' then do
    let pieces ← (splitColons s).mapM fun piece => numeral (readDecimal? piece)
    sixtySum pieces.reverse 1 .zero
  else numeral (readDecimal? s)

/-- The floating-point number that a scalar stands for. -/
def float (s : List Char) : Except ScalarFault Binary64 := do
  let (negative, body) ← splitSign ((withoutGaps s).map Char.toLower)
  let x ← size body
  return if negative then x.neg else x

/-! ## Truth values -/

/-- The word in lower case. -/
def lowerWord (s : String) : String :=
  String.ofList (s.toList.map fun c => Char.ofNat (Text.lowerCode c.toNat))

/-- The truth value that a word stands for, in upper or lower case. -/
def truth (s : String) : Except ScalarFault Bool :=
  let word := lowerWord s
  if word ∈ ["yes", "true", "on"] then .ok true
  else if word ∈ ["no", "false", "off"] then .ok false
  else .error (.noTruthValue word)

/-! ## Dates -/

/-- The number that digits of a date stand for; zero if there are none. -/
def dateNumber (digits : List Char) : Nat :=
  ofDigits 10 digits

/-- The time of day of the numerals.  Of a fraction six digits count. -/
def ClockText.clock (t : ClockText) : Clock where
  hour := dateNumber t.hour
  minute := dateNumber t.minute
  second := dateNumber t.second
  micro := dateNumber ((t.fraction ++ List.replicate 6 '0').take 6)
  ahead := t.offset.map fun (isWest, hours, minutes) =>
    let size : Int := 60 * dateNumber hours + dateNumber minutes
    if isWest then -size else size

/-- The date of the numerals. -/
def MomentText.moment (t : MomentText) : Moment where
  day := ⟨dateNumber t.year, dateNumber t.month, dateNumber t.day⟩
  clock := t.clock.map ClockText.clock

/-- The date that a scalar stands for.  A line feed at its end does not count. -/
def moment (s : List Char) : Except ScalarFault Moment :=
  let s := if s.getLast? = some '\n' then s.dropLast else s
  match momentText? s with
  | none => .error .notMoment
  | some t => if t.moment.isValid then .ok t.moment else .error .noSuchMoment

/-! ## Values -/

/-- The value of a scalar. -/
def scalarValue (tag : Tag) (s : String) : Except Refusal Value :=
  let known (result : Except ScalarFault Value) : Except Refusal Value :=
    result.mapError .scalar
  match tag with
  | .null => .ok .null
  | .text => .ok (.text s)
  | .bool => known ((truth s).map .bool)
  | .int => known ((integer s.toList).map .int)
  | .float => known ((float s.toList).map .float)
  | .moment => known ((moment s.toList).map .moment)
  | .list | .map | .merge | .value | .unknown => .error .malformed

end StepTrace.Yaml
