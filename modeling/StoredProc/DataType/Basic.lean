import StoredProc.Json.Basic

/-!
# Data types

The type of a value held by a variable, a parameter or a store. Two types take
part in checking only: `any` goes with every type, and `nothing` is the result of
a function that returns nothing. The fields of an object type form a map; they
are listed by increasing name, each name once.
-/

namespace StoredProc

inductive Primitive where
  | string
  | int
  | double
  | bool
  deriving DecidableEq, Inhabited, Repr

inductive DataType where
  | prim (primitive : Primitive)
  | object (fields : List (String × DataType))
  | array (elem : DataType)
  | optional (inner : DataType)
  | ref (store : String)
  | any
  | nothing
  deriving Inhabited, Repr

namespace Primitive

def name : Primitive → String
  | string => "string"
  | int => "int"
  | double => "double"
  | bool => "bool"

def isNumeric : Primitive → Bool
  | int | double => true
  | string | bool => false

end Primitive

namespace DataType

abbrev string : DataType := .prim .string
abbrev int : DataType := .prim .int
abbrev double : DataType := .prim .double
abbrev bool : DataType := .prim .bool

/-- The tag of a type in its document. -/
def kind : DataType → String
  | .prim p => p.name
  | .object _ => "Object"
  | .array _ => "Array"
  | .optional _ => "Optional"
  | .ref _ => "Ref"
  | .any => "Any"
  | .nothing => "none"

def isAny : DataType → Bool
  | .any => true
  | _ => false

def isNothing : DataType → Bool
  | .nothing => true
  | _ => false

/-- The fields of a map of fields: of two with one name the later one counts,
and they are listed by name. -/
def sortFields {α : Type} (fields : List (String × α)) : List (String × α) :=
  (fields.foldr (fun field kept =>
      if kept.any (·.1 == field.1) then kept else field :: kept) []).mergeSort
    fun a b => a.1 ≤ b.1

/-- The object type with these fields. -/
def ofFields (fields : List (String × DataType)) : DataType := .object (sortFields fields)

/-- The type of a field of an object. -/
def field? (fields : List (String × DataType)) (name : String) : Option DataType :=
  fields.lookup name

mutual

/-- The form of a type in messages. -/
def describe : DataType → String
  | .prim p => p.name
  | .object fields => "\x7b" ++ ", ".intercalate (describeFields fields) ++ "\x7d"
  | .array elem => "Array<" ++ elem.describe ++ ">"
  | .optional inner => "Optional<" ++ inner.describe ++ ">"
  | .ref store => "Ref<" ++ store ++ ">"
  | .any => "any"
  | .nothing => "none"

def describeFields : List (String × DataType) → List String
  | [] => []
  | (name, type) :: rest => (name ++ ": " ++ type.describe) :: describeFields rest

end

mutual

/-- Whether a value of one type may stand where the other is expected. `any`
goes with every type, at any depth; nothing else is converted. -/
def compatible : DataType → DataType → Bool
  | .any, _ => true
  | .prim _, .any => true
  | .prim p, .prim q => p == q
  | .object _, .any => true
  | .object fields, .object others =>
    fields.length == others.length && fieldsCompatible fields others
  | .array _, .any => true
  | .array elem, .array other => compatible elem other
  | .optional _, .any => true
  | .optional inner, .optional other => compatible inner other
  | .ref _, .any => true
  | .ref store, .ref other => store == other
  | .nothing, .any => true
  | .nothing, .nothing => true
  | _, _ => false

/-- Every listed field has a compatible field of the same name. -/
def fieldsCompatible : List (String × DataType) → List (String × DataType) → Bool
  | [], _ => true
  | (name, type) :: rest, others =>
    (match field? others name with
      | some other => compatible type other
      | none => false) && fieldsCompatible rest others

end

end DataType

end StoredProc
