import StoredProc.DataType.Basic
import StoredProc.Json.Parser

/-!
# Type documents

A type is written as `{"kind": ..., "data": ...}`. The data is the list of the
one inner type of a container, the map of the fields of an object, the store
name of a reference, and `null` for the rest. Reading ignores unknown members
and the data of a type that needs none.
-/

namespace StoredProc

/-- What a message says of a text that cannot be read as a document. Where the
reader gave up is not part of the answer. -/
def unreadable : String := "<detail>"

namespace DataType

/-- The document of a kind with its data. -/
def typeDocument (kind : String) (data : Json) : Json :=
  .object [("kind", .string kind), ("data", data)]

mutual

/-- The document of a type. -/
def toJson : DataType → Json
  | .prim p => typeDocument p.name .null
  | .object fields => typeDocument "Object" (.dictionary (fieldsToJson fields))
  | .array elem => typeDocument "Array" (.array [elem.toJson])
  | .optional inner => typeDocument "Optional" (.array [inner.toJson])
  | .ref store => typeDocument "Ref" (.string store)
  | .any => typeDocument "Any" .null
  | .nothing => typeDocument "none" .null

def fieldsToJson : List (String × DataType) → List (String × Json)
  | [] => []
  | (name, type) :: rest => (name, type.toJson) :: fieldsToJson rest

end

/-- Why a document is not a type. -/
inductive DecodeError where
  | unreadable
  | refWithoutStore
  | notSingleElement (kind : String)
  | notFieldMap
  | unknownKind (kind : String)
  | inField (name : String) (cause : DecodeError)
  deriving Inhabited, Repr

namespace DecodeError

def message : DecodeError → String
  | .unreadable => "invalid type document: " ++ StoredProc.unreadable
  | .refWithoutStore => "invalid type document: a Ref should have a store name as data"
  | .notSingleElement kind =>
    "invalid type document: " ++ kind ++ " should have a single element list as data"
  | .notFieldMap => "invalid type document: an Object should have a field map as data"
  | .unknownKind kind => "invalid type document: unknown kind " ++ Text.quoted kind
  | .inField name cause => "field " ++ name ++ ": " ++ cause.message

end DecodeError

/-- The data of a type document, its inner types already read. -/
inductive Data where
  | absent
  | null
  | text (value : Option String)
  | list (items : List (Except DecodeError DataType))
  | map (fields : Option (List (String × Except DecodeError DataType)))
  | other

/-- The types of all fields, or the first failure by field name. -/
def collectFields :
    List (String × Except DecodeError DataType) →
      Except DecodeError (List (String × DataType))
  | [] => .ok []
  | (name, .error cause) :: _ => .error (.inField name cause)
  | (name, .ok type) :: rest => do
    let types ← collectFields rest
    return (name, type) :: types

/-- The type that a kind and its data describe. -/
def ofData (kind : String) (data : Data) : Except DecodeError DataType :=
  match kind with
  | "string" => .ok .string
  | "int" => .ok .int
  | "double" => .ok .double
  | "bool" => .ok .bool
  | "Any" => .ok .any
  | "none" => .ok .nothing
  | "Ref" =>
    match data with
    | .text (some store) => if store.isEmpty then .error .refWithoutStore else .ok (.ref store)
    | _ => .error .refWithoutStore
  | "Array" =>
    match data with
    | .list [item] => item.map .array
    | _ => .error (.notSingleElement kind)
  | "Optional" =>
    match data with
    | .list [item] => item.map .optional
    | _ => .error (.notSingleElement kind)
  | "Object" =>
    match data with
    | .null => .ok (.object [])
    | .map (some fields) => (collectFields (sortFields fields)).map .object
    | _ => .error .notFieldMap
  | _ => .error (.unknownKind kind)

mutual

/-- The type that a document describes. -/
def ofJson : Json → Except DecodeError DataType
  | .null => .error (.unknownKind "")
  | .obj _ members =>
    match Json.soundNames members, Json.textMember? "kind" members with
    | true, some kind => ofData kind (lastData members)
    | _, _ => .error .unreadable
  | _ => .error .unreadable

/-- The data of a document: the last member of that name counts. -/
def lastData : List (String × Json) → Data
  | [] => .absent
  | (name, value) :: rest =>
    match lastData rest with
    | .absent => if Json.named "data" name then readData value else .absent
    | found => found

/-- Read the data by its own shape. -/
def readData : Json → Data
  | .null => .null
  | .str written => .text (Json.unescape? written)
  | .arr _ items => .list (readItems items)
  | .obj _ members => .map (readFields members)
  | _ => .other

def readItems : List Json → List (Except DecodeError DataType)
  | [] => []
  | item :: rest => ofJson item :: readItems rest

/-- The named types of a field map; no map if a name cannot be read. -/
def readFields : List (String × Json) → Option (List (String × Except DecodeError DataType))
  | [] => some []
  | (name, value) :: rest =>
    match Json.unescape? name, readFields rest with
    | some name, some fields => some ((name, ofJson value) :: fields)
    | _, _ => none

end

/-- The type that a text describes. -/
def parse (source : String) : Except DecodeError DataType :=
  match Json.parse? source with
  | some document => ofJson document
  | none => .error .unreadable

/-- The text of a type document. -/
def text (type : DataType) : String := type.toJson.text

end DataType

end StoredProc
