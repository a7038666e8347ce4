import StoredProc.Number.Double

/-!
# Reading numbers

An integer is an optional sign and decimal digits, within 64 bits. A double is
decimal or hexadecimal; a hexadecimal one must have a binary exponent. An
underscore may stand between two digits of a double, or after the hexadecimal
mark. The names of the infinities and of no number are read in any case.
-/

namespace StoredProc

/-- An optional sign at the start of a text. -/
def takeSign : List Char → Bool × List Char
  | '-' :: rest => (true, rest)
  | '+' :: rest => (false, rest)
  | cs => (false, cs)

/-- The number that decimal digits spell. -/
def digitsValue (digits : List Char) : Nat :=
  digits.foldl (fun n d => n * 10 + (d.toNat - '0'.toNat)) 0

/-- An integer of 64 bits. -/
def readInt64? (text : String) : Option Int :=
  let (negative, digits) := takeSign text.toList
  if digits.isEmpty || !digits.all Char.isDigit then none
  else
    let size := digitsValue digits
    if negative then
      if size ≤ int64Limit then some (-(size : Int)) else none
    else if size < int64Limit then some size else none

namespace Double

/-- The characters that decimal numbers are written with. -/
def isNumberChar (c : Char) : Bool :=
  c.isDigit || c = '.' || c = 'e' || c = 'E' || c = '+' || c = '-'

/-- The value of a digit in base ten or sixteen. -/
def digitValue? (hex : Bool) (c : Char) : Option Nat :=
  let c := c.toLower
  if c.isDigit then some (c.toNat - '0'.toNat)
  else if hex && 'a' ≤ c && c ≤ 'f' then some (c.toNat - 'a'.toNat + 10)
  else none

/-- The digits of a number with at most one point. -/
structure Mantissa where
  value : Nat := 0
  /-- The number of digits read. -/
  count : Nat := 0
  /-- The number of digits after the point, once a point was read. -/
  places : Option Nat := none

/-- Read digits, underscores and one point, as far as they go. -/
def readMantissa (hex : Bool) (m : Mantissa) : List Char → Mantissa × List Char
  | [] => (m, [])
  | c :: rest =>
    if c = '_' then readMantissa hex m rest
    else if c = '.' ∧ m.places = none then readMantissa hex { m with places := some 0 } rest
    else
      match digitValue? hex c with
      | none => (m, c :: rest)
      | some d =>
        let base := if hex then 16 else 10
        readMantissa hex
          { value := m.value * base + d, count := m.count + 1, places := m.places.map (· + 1) }
          rest

/-- An exponent after its mark: a sign and digits, the first of them not an
underscore. Exponents of more than four digits are all alike. -/
def readExponent (cs : List Char) : Option (Int × List Char) :=
  let (negative, rest) := takeSign cs
  match rest with
  | [] => none
  | first :: _ =>
    if !first.isDigit then none
    else
      let (digits, rest) := rest.span fun c => c.isDigit || c = '_'
      let value := (digits.filter Char.isDigit).foldl
        (fun n d => if n < 10000 then n * 10 + (d.toNat - '0'.toNat) else n) 0
      some (if negative then -(value : Int) else value, rest)

/-- The last character seen while underscores are checked. -/
inductive Seen where
  | start
  | digit
  | underscore
  | other
  deriving DecidableEq

/-- Whether every underscore stands between two digits. -/
def separated (hex : Bool) (seen : Seen) : List Char → Bool
  | [] => seen ≠ .underscore
  | c :: rest =>
    if (digitValue? hex c).isSome then separated hex .digit rest
    else if c = '_' then seen = .digit && separated hex .underscore rest
    else seen ≠ .underscore && separated hex .other rest

/-- The names of the doubles that are not finite. A sign may stand before an
infinity only. -/
def special? (cs : List Char) : Option Double :=
  let isInfinity (cs : List Char) : Bool :=
    let name := String.ofList (cs.map Char.toLower)
    name = "inf" || name = "infinity"
  match cs with
  | '+' :: rest => if isInfinity rest then some (.infinite false) else none
  | '-' :: rest => if isInfinity rest then some (.infinite true) else none
  | cs =>
    if isInfinity cs then some (.infinite false)
    else if String.ofList (cs.map Char.toLower) = "nan" then some .nan
    else none

/-- Whether an unsigned number is marked as hexadecimal, and its digits. -/
def takeBase : List Char → Bool × List Char
  | '0' :: x :: rest =>
    if x.toLower = 'x' && !rest.isEmpty then (true, rest) else (false, '0' :: x :: rest)
  | body => (false, body)

/-- The exponent behind the digits. Only a decimal number may do without. -/
def takeExponent (hex : Bool) : List Char → Option (Int × List Char)
  | [] => if hex then none else some (0, [])
  | mark :: rest => if mark.toLower = (if hex then 'p' else 'e') then readExponent rest else none

/-- Read a finite number or one too large to be finite. -/
def number? (cs : List Char) : Option Double := do
  let (negative, body) := takeSign cs
  let (hex, digits) := takeBase body
  let (m, rest) := readMantissa hex {} digits
  guard (m.count ≠ 0)
  let (exponent, rest) ← takeExponent hex rest
  guard rest.isEmpty
  guard (!cs.contains '_' || separated hex (if hex then .digit else .start) digits)
  let places := m.places.getD 0
  return if hex then ofBinary negative m.value (exponent - 4 * places)
    else ofDecimal negative m.value (exponent - places)

/-- The double that a text spells. -/
def read? (text : String) : Option Double :=
  let cs := text.toList
  match special? cs with
  | some d => some d
  | none => number? cs

end Double

end StoredProc
