import StoredProc.Tree.Codec

/-!
# Function documents

A function declaration is read from an object with a name, at most one
parameter, an optional result type, a body and a location. A parameter without
a type takes any value. The failures are reported in the order parameter,
result, body.
-/

namespace StoredProc.Function

/-- Why a document is not a function declaration. -/
inductive DecodeError where
  | unreadable
  | unnamedParameter (function : String)
  | parameterType (function : String) (cause : DataType.DecodeError)
  | resultType (function : String) (cause : DataType.DecodeError)
  | body (function : String) (cause : NodeError)
  deriving Inhabited, Repr

namespace DecodeError

def message : DecodeError → String
  | .unreadable => "invalid manifest document: " ++ StoredProc.unreadable
  | .unnamedParameter function =>
    "invalid node document: parameter of function " ++ function ++ " has no name"
  | .parameterType function cause =>
    "parameter of function " ++ function ++ ": " ++ cause.message
  | .resultType function cause =>
    "return type of function " ++ function ++ ": " ++ cause.message
  | .body function cause => "body of function " ++ function ++ ": " ++ cause.message

end DecodeError

/-- A parameter as it is written. -/
structure ParameterDocument where
  name : String := ""
  type : Option Json := none

/-- Read the parameter over what earlier members said of it. -/
def readParameter (start : Option ParameterDocument) :
    Json → Option (Option ParameterDocument)
  | .null => some none
  | .obj _ members => do
    guard (Json.soundNames members)
    let start := start.getD {}
    let document ← members.foldlM (fun (document : ParameterDocument) (name, value) =>
      if Json.named "name" name then
        match value with
        | .null => some document
        | value => value.string?.map fun name => { document with name }
      else if Json.named "type" name then some { document with type := some value }
      else some document) start
    return some document
  | _ => none

/-- The plain members of a function document. -/
structure Header where
  name : String
  parameter : Option ParameterDocument
  loc : Location

/-- Read the plain members and check the JSON type of the body. -/
def readHeader (members : List (String × Json)) : Option Header := do
  guard (Json.soundNames members)
  guard (Json.allNamed "body" Json.isListOrNull members)
  return {
    name := ← Json.textMember? "name" members
    parameter := ← members.foldlM (fun found (name, value) =>
      if Json.named "parameter" name then readParameter found value else some found) none
    loc := ← Location.ofMembers members }

/-- A type that may be left out or be `null`. -/
def optionalType : Option Json → Except DataType.DecodeError (Option DataType)
  | none | some .null => .ok none
  | some document => (DataType.ofJson document).map some

/-- Read a function declaration from the members of its document. -/
def ofMembers (members : List (String × Json)) : Except DecodeError Function :=
  match readHeader members with
  | none => .error .unreadable
  | some header => do
    let parameter ← match header.parameter with
      | none => pure none
      | some document =>
        if document.name.isEmpty then .error (.unnamedParameter header.name)
        else
          match optionalType document.type with
          | .error cause => .error (.parameterType header.name cause)
          | .ok type => pure (some { name := document.name, type := type.getD .any : Parameter })
    let result ← (optionalType (Json.last? "returnType" members)).mapError
      (.resultType header.name)
    let body ← (orEmpty (lastBody? members)).mapError (.body header.name)
    return { loc := header.loc, name := header.name, parameter, result, body }

/-- Read a function declaration. -/
def ofJson : Json → Except DecodeError Function
  | .null => ofMembers []
  | .obj _ members => ofMembers members
  | _ => .error .unreadable

/-- The function declaration that a text describes. -/
def parse (source : String) : Except DecodeError Function :=
  match Json.parse? source with
  | some document => ofJson document
  | none => .error .unreadable

end StoredProc.Function
