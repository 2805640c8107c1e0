/-!
# Binary floating-point numbers

A number with 53 binary digits of precision is held as sign, mantissa and exponent, with the value
`± mantissa · 2 ^ exponent`.  Decimal numerals are rounded to the nearest such number, a tie going
to the even mantissa; what is too large becomes infinite.

Finite values are kept in one form: the mantissa has 53 binary digits, or the exponent is the least
one, `-1074`.
-/

namespace StepTrace.Numeral

/-- A binary floating-point number of double precision. -/
inductive Binary64 where
  | finite (negative : Bool) (mantissa : Nat) (exponent : Int)
  | infinite (negative : Bool)
  | nan
deriving DecidableEq, Repr, Inhabited

namespace Binary64

/-- The least exponent of a finite value. -/
def leastExponent : Int := -1074

/-- The greatest exponent of a finite value. -/
def greatestExponent : Int := 971

def zero : Binary64 := .finite false 0 leastExponent

/-- Zero of either sign. -/
def isZero : Binary64 → Bool
  | .finite _ m _ => m == 0
  | _ => false

/-- The number of binary digits of `n`; none for zero. -/
def bitLength (n : Nat) : Nat :=
  if n = 0 then 0 else n.log2 + 1

/-- The quotient rounded to the nearest integer, a tie to the even one. -/
def roundDiv (num den : Nat) : Nat :=
  let q := num / den
  let r := num % den
  if 2 * r < den then q
  else if den < 2 * r then q + 1
  else if q % 2 = 0 then q else q + 1

/-- `num / den · 2 ^ -exponent`, rounded to an integer. -/
def scaled (num den : Nat) (exponent : Int) : Nat :=
  if 0 ≤ exponent then roundDiv num (den * Nat.pow 2 exponent.toNat)
  else roundDiv (num * Nat.pow 2 (-exponent).toNat) den

/-- The number nearest to `± num / den`. -/
def ofRatio (negative : Bool) (num den : Nat) : Binary64 :=
  let guess : Int := (bitLength num : Int) - bitLength den - 53
  let exponent := max guess leastExponent
  let mantissa := scaled num den exponent
  let (mantissa, exponent) :=
    if Nat.pow 2 53 ≤ mantissa then
      let exponent := exponent + 1
      let mantissa := scaled num den exponent
      if Nat.pow 2 53 ≤ mantissa then (mantissa / 2, exponent + 1) else (mantissa, exponent)
    else (mantissa, exponent)
  if greatestExponent < exponent then .infinite negative else .finite negative mantissa exponent

/-- The number nearest to `± digits · 10 ^ power`. -/
def ofDecimal (negative : Bool) (digits : Nat) (power : Int) : Binary64 :=
  if digits = 0 then .finite negative 0 leastExponent
  else
    let magnitude : Int := (Nat.toDigits 10 digits).length + power
    if 310 < magnitude then .infinite negative
    else if magnitude < -330 then .finite negative 0 leastExponent
    else if 0 ≤ power then ofRatio negative (digits * Nat.pow 10 power.toNat) 1
    else ofRatio negative digits (Nat.pow 10 (-power).toNat)

/-- The integer part of a finite number, toward zero. -/
def truncate? : Binary64 → Option Int
  | .finite negative m e =>
    let size := if 0 ≤ e then m * Nat.pow 2 e.toNat else m / Nat.pow 2 (-e).toNat
    some (if negative then -size else size)
  | _ => none

/-! ## Arithmetic -/

/-- The number nearest to `± m · 2 ^ e`. -/
def ofScaled (negative : Bool) (m : Nat) (e : Int) : Binary64 :=
  if m = 0 then .finite negative 0 leastExponent
  else if 0 ≤ e then ofRatio negative (m * Nat.pow 2 e.toNat) 1
  else ofRatio negative m (Nat.pow 2 (-e).toNat)

/-- The number nearest to a natural number. -/
def ofNat (n : Nat) : Binary64 :=
  ofScaled false n 0

/-- The number with the other sign. -/
def neg : Binary64 → Binary64
  | .finite negative m e => .finite (!negative) m e
  | .infinite negative => .infinite (!negative)
  | .nan => .nan

/-- The mantissa with its sign. -/
def signed (negative : Bool) (m : Nat) : Int :=
  if negative then -m else m

/-- The product, rounded. -/
def mul : Binary64 → Binary64 → Binary64
  | .nan, _ => .nan
  | _, .nan => .nan
  | .finite n₁ m₁ e₁, .finite n₂ m₂ e₂ => ofScaled (n₁ != n₂) (m₁ * m₂) (e₁ + e₂)
  | .infinite n₁, .infinite n₂ => .infinite (n₁ != n₂)
  | .infinite n₁, .finite n₂ m _ => if m = 0 then .nan else .infinite (n₁ != n₂)
  | .finite n₁ m _, .infinite n₂ => if m = 0 then .nan else .infinite (n₁ != n₂)

/-- The sum, rounded.  A sum of zero is negative only if both numbers are. -/
def add : Binary64 → Binary64 → Binary64
  | .nan, _ => .nan
  | _, .nan => .nan
  | .infinite n₁, .infinite n₂ => if n₁ = n₂ then .infinite n₁ else .nan
  | .infinite n₁, .finite _ _ _ => .infinite n₁
  | .finite _ _ _, .infinite n₂ => .infinite n₂
  | .finite n₁ m₁ e₁, .finite n₂ m₂ e₂ =>
    let e := min e₁ e₂
    let sum := signed n₁ (m₁ * Nat.pow 2 (e₁ - e).toNat)
      + signed n₂ (m₂ * Nat.pow 2 (e₂ - e).toNat)
    if sum = 0 then .finite (n₁ && n₂) 0 leastExponent
    else ofScaled (sum < 0) sum.natAbs e

/-- Is the number exactly the integer? -/
def isInteger (n : Int) : Binary64 → Bool
  | .finite negative m e =>
    if 0 ≤ e then signed negative (m * Nat.pow 2 e.toNat) == n
    else signed negative m == n * Nat.pow 2 (-e).toNat
  | _ => false

/-- Are the two the same number?  Zeros of either sign are. -/
def same (x y : Binary64) : Bool :=
  x == y || (x.isZero && y.isZero)

end Binary64

end StepTrace.Numeral
