import StoredProc.Number.Reader

/-!
# Integers in several bases

An integer of 64 bits may be written in base ten, or after `0b`, `0o` and `0x`
in base two, eight and sixteen; a leading zero alone also stands for base eight.
An underscore may stand between two digits or after the mark of the base.
-/

namespace StoredProc

/-- Why a text is no integer of 64 bits. -/
inductive IntegerError where
  | malformed
  | outOfRange
  deriving DecidableEq, Inhabited, Repr

namespace IntegerError

def message : IntegerError → String
  | malformed => "parse error"
  | outOfRange => "value out of range"

end IntegerError

/-- An unsigned number after its sign, divided into its base and its digits. The
flag says that the base is marked by a letter. -/
def splitBase : List Char → Nat × Bool × List Char
  | '0' :: mark :: rest =>
    if rest.isEmpty then (8, false, mark :: rest)
    else if mark.toLower = 'b' then (2, true, rest)
    else if mark.toLower = 'o' then (8, true, rest)
    else if mark.toLower = 'x' then (16, true, rest)
    else (8, false, mark :: rest)
  | '0' :: rest => (8, false, rest)
  | cs => (10, false, cs)

/-- The value of digits, over the value of those before them. Underscores are
skipped. The first digit that is too much decides, whatever follows it. -/
def readDigits (base value : Nat) : List Char → Except IntegerError Nat
  | [] => .ok value
  | c :: rest =>
    if c = '_' then readDigits base value rest
    else
      match Double.digitValue? true c with
      | none => .error .malformed
      | some digit =>
        if base ≤ digit then .error .malformed
        else if word64Limit ≤ value * base + digit then .error .outOfRange
        else readDigits base (value * base + digit) rest

/-- Whether the underscores of an unsigned number divide digits. -/
def dividesDigits (cs : List Char) : Bool :=
  match splitBase cs with
  | (base, true, digits) => Double.separated (base = 16) .digit digits
  | (_, false, _) => Double.separated false .start cs

/-- The integer that a text gives. -/
def readInteger (text : String) : Except IntegerError Int :=
  let (negative, cs) := takeSign text.toList
  if cs.isEmpty then .error .malformed
  else
    let (base, _, digits) := splitBase cs
    match readDigits base 0 digits with
    | .error cause => .error cause
    | .ok size =>
      if cs.contains '_' && !dividesDigits cs then .error .malformed
      else if negative then
        if size ≤ int64Limit then .ok (-(size : Int)) else .error .outOfRange
      else if size < int64Limit then .ok size else .error .outOfRange

end StoredProc
