import StoredProc.Number.Double

/-!
# The shortest decimal of a double

A double is written with the fewest digits that read back as the same double,
and of those with the ones nearest to it. The search tries one digit, two
digits, and so on: on each decimal grid only the two neighbours of the number
can be the answer.
-/

namespace StoredProc

/-- The decimal number `digits · 10 ^ exponent`. -/
structure Decimal where
  digits : Nat
  exponent : Int
  deriving DecidableEq, Inhabited, Repr

namespace Decimal

/-- Move zeros at the end of the digits into the exponent, at most `fuel`. -/
def stripZeros : Nat → Decimal → Decimal
  | 0, d => d
  | fuel + 1, d =>
    if d.digits ≠ 0 ∧ d.digits % 10 = 0 then
      stripZeros fuel ⟨d.digits / 10, d.exponent + 1⟩
    else d

end Decimal

namespace Double

/-- The reals that round to a positive double, in quarters of its unit: the
lower end, the number itself and the upper end. -/
def neighbourhood (mantissa : Nat) (exponent : Int) : Nat × Nat × Nat :=
  let below := if mantissa = powerOfTwo 52 ∧ exponent ≠ leastExponent then 1 else 2
  (4 * mantissa - below, 4 * mantissa, 4 * mantissa + 2)

/-- The exponent of the leading decimal digit of a positive ratio. -/
def leadingExponent (num den : Nat) : Int :=
  let guess : Int := (decimalLength num : Int) - decimalLength den
  if den * powerOfTen guess.toNat ≤ num * powerOfTen (-guess).toNat then guess else guess - 1

/-- Whether a number lies in the neighbourhood with these ends, which belong to
it only if the mantissa is even. -/
def isNear (mantissa low high x : Nat) : Bool :=
  if mantissa % 2 = 0 then low ≤ x && x ≤ high else low < x && x < high

/-- The nearer one of the two integers around a ratio, if it is accepted, else
the other one; half-way cases to the even one. -/
def nearest? (accepts : Nat → Bool) (num den : Nat) : Option Nat :=
  let floor := num / den
  let rest := num % den
  match accepts floor, accepts (floor + 1) with
  | true, true =>
    if 2 * rest < den ∨ (2 * rest = den ∧ floor % 2 = 0) then some floor else some (floor + 1)
  | true, false => some floor
  | false, true => some (floor + 1)
  | false, false => none

/-- The decimal with `count` digits that stands for a positive double, if one
of its two neighbours on that grid does. -/
def onGrid? (mantissa : Nat) (exponent leading : Int) (count : Nat) : Option Decimal :=
  let (low, middle, high) := neighbourhood mantissa exponent
  let grid := leading - count + 1
  let up := powerOfTwo (exponent - 2).toNat * powerOfTen (-grid).toNat
  let down := powerOfTwo (2 - exponent).toNat * powerOfTen grid.toNat
  let accepts (d : Nat) : Bool := isNear mantissa (low * up) (high * up) (d * down)
  (nearest? accepts (middle * up) down).map (⟨·, grid⟩)

/-- The shortest decimal of a double with this mantissa and exponent. -/
def shortest (mantissa : Nat) (exponent : Int) : Decimal :=
  if mantissa = 0 then ⟨0, 0⟩
  else
    let leading := leadingExponent (mantissa * powerOfTwo exponent.toNat)
      (powerOfTwo (-exponent).toNat)
    let found := (List.range 17).findSome? fun i =>
      onGrid? mantissa exponent leading (i + 1)
    (found.getD ⟨mantissa, exponent⟩).stripZeros 20

/-! ## Layouts -/

/-- The digits with zeros in front up to a width. -/
def padded (width n : Nat) : List Char :=
  let digits := Nat.toDigits 10 n
  List.replicate (width - digits.length) '0' ++ digits

/-- Positional notation. -/
def positional (d : Decimal) : List Char :=
  let digits := Nat.toDigits 10 d.digits
  if 0 ≤ d.exponent then digits ++ List.replicate d.exponent.toNat '0'
  else
    let places := (-d.exponent).toNat
    let digits := padded (places + 1) d.digits
    digits.take (digits.length - places) ++ '.' :: digits.drop (digits.length - places)

/-- Scientific notation; the exponent has a sign and at least two digits. -/
def scientific (d : Decimal) : List Char :=
  let digits := Nat.toDigits 10 d.digits
  let exponent := d.exponent + (digits.length - 1 : Nat)
  let fraction := digits.drop 1
  digits.take 1 ++ (if fraction.isEmpty then [] else '.' :: fraction)
    ++ 'e' :: (if exponent < 0 then '-' else '+') :: padded 2 exponent.natAbs

/-- The general notation: positional while the leading digit stands between
the fourth place after the point and the sixth before it. -/
def general (d : Decimal) : List Char :=
  let leading := d.exponent + (decimalLength d.digits - 1 : Nat)
  if leading < -4 ∨ 6 ≤ leading then scientific d else positional d

/-- The text of a double in messages. -/
def describe : Double → String
  | .nan => "NaN"
  | .infinite false => "+Inf"
  | .infinite true => "-Inf"
  | .finite negative mantissa exponent =>
    String.ofList ((if negative then ['-'] else []) ++ general (shortest mantissa exponent))

/-- The text of a finite double in a program: the general notation, with a
point or an exponent so that it cannot be taken for an integer. -/
def text? : Double → Option String
  | .finite negative mantissa exponent =>
    let digits := general (shortest mantissa exponent)
    let digits := if digits.any fun c => c = '.' || c = 'e' then digits else digits ++ ['.', '0']
    some (String.ofList ((if negative then ['-'] else []) ++ digits))
  | _ => none

/-- The text of a double in positional notation with a point; nothing for one
that is not finite. -/
def positionalText? : Double → Option String
  | .finite negative mantissa exponent =>
    let digits := positional (shortest mantissa exponent)
    let digits := if digits.contains '.' then digits else digits ++ ['.', '0']
    some (String.ofList ((if negative then ['-'] else []) ++ digits))
  | _ => none

end Double

end StoredProc
