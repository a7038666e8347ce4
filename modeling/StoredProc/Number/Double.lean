import StoredProc.Number.Power

/-!
# Doubles

A double is a number `± mantissa · 2 ^ exponent` with a mantissa of at most 53
bits and an exponent of at least -1074, an infinity, or no number. Rounding a
ratio goes to the nearest double, half-way cases to the even mantissa. All of
it is exact arithmetic on natural numbers.
-/

namespace StoredProc

/-- A binary floating point number of 64 bits. A finite one is normalised:
its mantissa has 53 bits unless its exponent is the least one. -/
inductive Double where
  | finite (negative : Bool) (mantissa : Nat) (exponent : Int)
  | infinite (negative : Bool)
  | nan
  deriving DecidableEq, Inhabited, Repr

namespace Double

/-- The exponent of the smallest doubles. -/
def leastExponent : Int := -1074

/-- The exponent of the largest doubles. -/
def greatestExponent : Int := 971

/-- The nearest integer to a ratio, half-way cases to the even one. -/
def roundHalfEven (num den : Nat) : Nat :=
  let q := num / den
  let r := num % den
  if 2 * r > den ∨ (2 * r = den ∧ q % 2 = 1) then q + 1 else q

/-- `num / den / 2 ^ e` as a ratio of natural numbers. -/
def scaled (num den : Nat) (e : Int) : Nat × Nat :=
  (num * powerOfTwo (-e).toNat, den * powerOfTwo e.toNat)

/-- The exponent with which a ratio has a mantissa of 53 bits, or the least
exponent if the mantissa stays shorter. -/
def exponentOf (num den : Nat) : Int :=
  let guess := max ((Nat.log2 num : Int) - Nat.log2 den - 53) leastExponent
  let (n, d) := scaled num den guess
  if d * powerOfTwo 53 ≤ n then guess + 1 else guess

/-- A mantissa that rounding made 54 bits long is halved. -/
def carried (mantissa : Nat) (exponent : Int) : Nat × Int :=
  if mantissa = powerOfTwo 53 then (powerOfTwo 52, exponent + 1) else (mantissa, exponent)

/-- The double with a rounded mantissa, an infinity if the exponent is too great. -/
def ofRounded (negative : Bool) (rounded : Nat × Int) : Double :=
  if greatestExponent < rounded.2 then .infinite negative
  else .finite negative rounded.1 rounded.2

/-- The double nearest to a ratio. -/
def ofRatio (negative : Bool) (num den : Nat) : Double :=
  if num = 0 then .finite negative 0 leastExponent
  else
    let e := exponentOf num den
    let ratio := scaled num den e
    ofRounded negative (carried (roundHalfEven ratio.1 ratio.2) e)

/-- The number of decimal digits of a number, one for zero. -/
def decimalLength (n : Nat) : Nat := (Nat.toDigits 10 n).length

/-- The double nearest to `digits · 10 ^ exponent`. Numbers far outside the
range of doubles are settled by their size alone. -/
def ofDecimal (negative : Bool) (digits : Nat) (exponent : Int) : Double :=
  if digits = 0 then .finite negative 0 leastExponent
  else
    let size := exponent + decimalLength digits
    if 400 < size then .infinite negative
    else if size < -400 then .finite negative 0 leastExponent
    else ofRatio negative (digits * powerOfTen exponent.toNat) (powerOfTen (-exponent).toNat)

/-- The double nearest to `digits · 2 ^ exponent`. -/
def ofBinary (negative : Bool) (digits : Nat) (exponent : Int) : Double :=
  if digits = 0 then .finite negative 0 leastExponent
  else
    let size := exponent + Nat.log2 digits
    if 1100 < size then .infinite negative
    else if size < -1200 then .finite negative 0 leastExponent
    else ofRatio negative (digits * powerOfTwo exponent.toNat) (powerOfTwo (-exponent).toNat)

def isFinite : Double → Bool
  | .finite .. => true
  | _ => false

end Double

end StoredProc
