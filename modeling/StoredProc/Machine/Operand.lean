import StoredProc.Json.Range
import StoredProc.Number.Shortest

/-!
# Operands

The payload of an instruction is a small value: a number, a text, a list, a
record or a map of values, or raw JSON. Some operands are written alike without
being the same. No payload at all and a map that was never made are both `null`.
An integer that the machine counts or addresses with, and one of 64 bits that
the program computes with, are both written by their digits. A record and a map
of the same entries are one object.
-/

namespace StoredProc

inductive Operand where
  | none
  | noMap
  | bool (value : Bool)
  /-- A slot, a count, a depth or an address. -/
  | int (value : Int)
  /-- An integer of the program, which is none of these. -/
  | int64 (value : Int)
  | double (value : Double)
  | text (value : String)
  | list (items : List Operand)
  /-- Values under names that are fixed, in a fixed order. -/
  | record (fields : List (String × Operand))
  | map (entries : List (String × Operand))
  | raw (source : String)
  deriving Inhabited

namespace Operand

mutual

/-- The JSON form of an operand. A double that is not finite has none, nor has
raw text that is not JSON. -/
def toJson? : Operand → Option Json
  | .none | .noMap => some .null
  | .bool value => some (.bool value)
  | .int value | .int64 value => some (.int value)
  | .double value => value.text?.map .num
  | .text value => some (.string value)
  | .list items => (itemsToJson? items).map .array
  | .record fields => (entriesToJson? fields).map .object
  | .map entries => (entriesToJson? entries).map .dictionary
  | .raw source => Json.embed? source

def itemsToJson? : List Operand → Option (List Json)
  | [] => some []
  | item :: rest =>
    match item.toJson?, itemsToJson? rest with
    | some value, some values => some (value :: values)
    | _, _ => Option.none

def entriesToJson? : List (String × Operand) → Option (List (String × Json))
  | [] => some []
  | (key, item) :: rest =>
    match item.toJson?, entriesToJson? rest with
    | some value, some values => some ((key, value) :: values)
    | _, _ => Option.none

end

mutual

/-- The form of an operand in messages. A record is shown by its values; the
entries of a map are in order of their keys; raw JSON is shown by its bytes. -/
def describe : Operand → String
  | .none => "<nil>"
  | .noMap => "map[]"
  | .bool true => "true"
  | .bool false => "false"
  | .int value | .int64 value => value.repr
  | .double value => value.describe
  | .text value => value
  | .list items => "[" ++ " ".intercalate (describeItems items) ++ "]"
  | .record fields =>
    "\x7b" ++ " ".intercalate ((describeEntries fields).map Prod.snd) ++ "\x7d"
  | .map entries =>
    "map[" ++ " ".intercalate (((describeEntries entries).mergeSort
      fun a b => a.1 ≤ b.1).map fun entry => entry.1 ++ ":" ++ entry.2) ++ "]"
  | .raw source =>
    "[" ++ " ".intercalate (source.toUTF8.toList.map fun byte => byte.toNat.repr) ++ "]"

def describeItems : List Operand → List String
  | [] => []
  | item :: rest => item.describe :: describeItems rest

def describeEntries : List (String × Operand) → List (String × String)
  | [] => []
  | (key, item) :: rest => (key, item.describe) :: describeEntries rest

end

/-- What is said of a double that cannot be an operand. -/
def notFinite (value : Double) : String :=
  "invalid operand: " ++ value.describe ++ " is not a finite double"

end Operand

end StoredProc
