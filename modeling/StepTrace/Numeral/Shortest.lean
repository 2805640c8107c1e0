import StepTrace.Numeral.Binary64

/-!
# The shortest decimal of a floating-point number

A finite number is written with the fewest digits that read back as the same number; of several
such decimals the nearest is taken.  The reals that round to `m · 2 ^ e` form an interval around
it, whose ends belong to it exactly when `m` is even.  For 1, 2, … 17 digits the two decimals next
to the number on that grid are tested against the interval, in whole numbers.
-/

namespace StepTrace.Numeral

/-- The value `digits · 10 ^ power`. -/
structure Decimal where
  digits : Nat
  power : Int
deriving DecidableEq, Repr

namespace Decimal

/-- Drops zeros at the end of the digits; `fuel` bounds their number. -/
def trimZeros : (fuel : Nat) → Decimal → Decimal
  | 0, d => d
  | fuel + 1, d =>
    if d.digits ≠ 0 ∧ d.digits % 10 = 0 then trimZeros fuel ⟨d.digits / 10, d.power + 1⟩ else d

end Decimal

/-- A quarter of the distance between neighbours, `2 ^ (exponent - 2)`, as a quotient. -/
def quarterStep (exponent : Int) : Nat × Nat :=
  if 2 ≤ exponent then (Nat.pow 2 (exponent - 2).toNat, 1)
  else (1, Nat.pow 2 (2 - exponent).toNat)

/-- The power of ten as a quotient. -/
def powerOfTen (power : Int) : Nat × Nat :=
  if 0 ≤ power then (Nat.pow 10 power.toNat, 1) else (1, Nat.pow 10 (-power).toNat)

/-- The least `k` from `k₀` on with `num < den · 10 ^ k`; `fuel` bounds the search. -/
def leadingPower (num den : Nat) : (fuel k : Nat) → Nat
  | 0, k => k
  | fuel + 1, k => if num < den * Nat.pow 10 k then k else leadingPower num den fuel (k + 1)

/-- The least `t` from `t₀` on with `den ≤ num · 10 ^ t`; `fuel` bounds the search. -/
def trailingPower (num den : Nat) : (fuel t : Nat) → Nat
  | 0, t => t
  | fuel + 1, t => if den ≤ num * Nat.pow 10 t then t else trailingPower num den fuel (t + 1)

/-- The `k` with `10 ^ (k - 1) ≤ num / den < 10 ^ k`. -/
def pointPosition (num den : Nat) : Int :=
  if den ≤ num then leadingPower num den 400 0 else 1 - (trailingPower num den 400 0 : Int)

/-- The decimal with `count` digits that lies in the interval of the number, the nearer one if
there are two.  The number has `quarters` steps of `step`, the interval reaches from `low` to
`high` steps, and `closed` says whether it has its ends. -/
def decimalWith? (quarters low high : Nat) (closed : Bool) (step : Nat × Nat) (point : Int)
    (count : Nat) : Option Decimal :=
  let power := point - count
  let grid := powerOfTen power
  let inside (c : Nat) : Bool :=
    let x := c * grid.1 * step.2
    let l := low * step.1 * grid.2
    let h := high * step.1 * grid.2
    if closed then l ≤ x && x ≤ h else l < x && x < h
  let num := quarters * step.1 * grid.2
  let den := step.2 * grid.1
  let below := num / den
  let above := below + 1
  match inside below && 0 < below, inside above with
  | true, true =>
    let r := num % den
    some ⟨if 2 * r < den || (2 * r == den && below % 2 == 0) then below else above, power⟩
  | true, false => some ⟨below, power⟩
  | false, true => some ⟨above, power⟩
  | false, false => none

/-- The shortest decimal that reads back as the positive number `mantissa · 2 ^ exponent`. -/
def shortest (mantissa : Nat) (exponent : Int) : Decimal :=
  let step := quarterStep exponent
  let quarters := 4 * mantissa
  let low := if mantissa = Nat.pow 2 52 ∧ Binary64.leastExponent < exponent then quarters - 1
    else quarters - 2
  let point := pointPosition (quarters * step.1) step.2
  let found := (List.range 17).findSome? fun i =>
    decimalWith? quarters low (quarters + 2) (mantissa % 2 == 0) step point (i + 1)
  (found.getD ⟨0, 0⟩).trimZeros 20

/-! ## Layout -/

/-- How a floating-point number is laid out as text. -/
structure FloatStyle where
  /-- The point is written in its place if it stands at least here, counted from the first digit. -/
  leastPoint : Int
  /-- The point is written in its place if it stands at most here. -/
  greatestPoint : Int
  /-- The least number of digits of an exponent. -/
  exponentWidth : Nat
  infinity : String
  nan : String

/-- Numbers from `0.0001` to below `10 ^ 16` are written with the point in its place, and always
with a digit behind it; others with an exponent of two or more digits. -/
def FloatStyle.plain : FloatStyle where
  leastPoint := -3
  greatestPoint := 16
  exponentWidth := 2
  infinity := "inf"
  nan := "nan"

/-- The digits `ds` of a positive number with the point behind the first `point` of them. -/
def FloatStyle.layout (style : FloatStyle) (ds : List Char) (point : Int) : List Char :=
  if style.leastPoint ≤ point ∧ point ≤ style.greatestPoint then
    if point ≤ 0 then '0' :: '.' :: List.replicate (-point).toNat '0' ++ ds
    else
      let whole := ds.take point.toNat ++ List.replicate (point.toNat - ds.length) '0'
      let part := ds.drop point.toNat
      whole ++ '.' :: (if part.isEmpty then ['0'] else part)
  else
    let exponent := point - 1
    let size := Nat.toDigits 10 exponent.natAbs
    let size := List.replicate (style.exponentWidth - size.length) '0' ++ size
    let sign := if exponent < 0 then '-' else '+'
    let head := match ds with
      | [] => []
      | [d] => [d]
      | d :: rest => d :: '.' :: rest
    head ++ 'e' :: sign :: size

/-- The text of a number in the given style. -/
def Binary64.render (style : FloatStyle) : Binary64 → String
  | .nan => style.nan
  | .infinite negative => (if negative then "-" else "") ++ style.infinity
  | .finite negative m e =>
    let body :=
      if m = 0 then style.layout ['0'] 1
      else
        let d := shortest m e
        let ds := Nat.toDigits 10 d.digits
        style.layout ds (ds.length + d.power)
    (if negative then "-" else "") ++ String.ofList body

end StepTrace.Numeral
