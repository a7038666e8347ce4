import StoredProc.Json.Basic
import StoredProc.Number.Reader
import StoredProc.Number.Shortest

/-!
# YAML values

A YAML document holds the same kinds of values as a JSON document. A plain
scalar is `null`, a truth value, an integer or a decimal if it is spelled like
one, and a text otherwise. Integers are spelled in decimal notation only: one in
hexadecimal, octal or binary notation is a text here. So are the infinities, what
is not a number, and a decimal without digits on both sides of a point. A
document is turned into JSON text with its keys in the order in which they are
written.
-/

namespace StoredProc

inductive Yaml where
  | null
  | bool (value : Bool)
  | int (value : Int)
  | double (value : Double)
  | str (value : String)
  | list (items : List Yaml)
  | map (entries : List (Yaml × Yaml))
  deriving Inhabited

namespace Yaml

/-- An integer in decimal notation. One that does not fit in 64 bits becomes
the nearest that does. -/
def integer? (scalar : String) : Option Int :=
  let (negative, digits) := takeSign scalar.toList
  if digits.isEmpty || !digits.all Char.isDigit then none
  else
    let size := digitsValue digits
    some (if negative then -(min size int64Limit : Nat) else (min size (word64Limit - 1) : Nat))

/-- A decimal: digits, a point, digits and perhaps an exponent. -/
def decimal? (scalar : String) : Option Double :=
  let (_, body) := takeSign scalar.toList
  match body.span Char.isDigit with
  | (_ :: _, '.' :: rest) =>
    match rest.span Char.isDigit with
    | (_ :: _, tail) =>
      if tail.isEmpty || tail.head?.any (fun c => c = 'e' || c = 'E') then Double.read? scalar
      else none
    | _ => none
  | _ => none

/-- The value of a plain scalar. -/
def resolve (scalar : String) : Yaml :=
  if ["", "~", "null", "Null", "NULL"].contains scalar then .null
  else if ["true", "True", "TRUE"].contains scalar then .bool true
  else if ["false", "False", "FALSE"].contains scalar then .bool false
  else
    match integer? scalar, decimal? scalar with
    | some value, _ => .int value
    | none, some value => .double value
    | none, none => .str scalar

/-- A text as it is written in the JSON form of a document. -/
def spelled (s : String) : String := String.ofList (s.toList.flatMap Text.quoteChar)

mutual

/-- The JSON form of a value. There is none when a key is not a text or a
double is not finite. -/
def toJson? : Yaml → Option Json
  | .null => some .null
  | .bool value => some (.bool value)
  | .int value => some (.int value)
  | .double value => value.positionalText?.map .num
  | .str value => some (.str (spelled value))
  | .list items => (itemsToJson? items).map .array
  | .map entries => (entriesToJson? entries).map .written

def itemsToJson? : List Yaml → Option (List Json)
  | [] => some []
  | item :: rest => do
    let value ← item.toJson?
    let values ← itemsToJson? rest
    return value :: values

def entriesToJson? : List (Yaml × Yaml) → Option (List (String × Json))
  | [] => some []
  | (.str key, item) :: rest => do
    let value ← item.toJson?
    let values ← entriesToJson? rest
    return (spelled key, value) :: values
  | _ :: _ => none

end

end Yaml

end StoredProc
