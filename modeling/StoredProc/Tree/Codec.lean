import StoredProc.DataType.Codec
import StoredProc.Number.Power
import StoredProc.Tree.Basic

/-!
# Node documents

A node is read from an object whose `kind` says which node it is. All members
that a node document may have must have the right JSON type, also those that
the kind does not use; other members are ignored. Names of members match in
any case, and the last of several members of one name counts. Reading follows
the document, so it ends when the document does.
-/

namespace StoredProc

/-- Why a document is not a node. -/
inductive NodeError where
  | unreadable
  | missing (kind field : String)
  | notStatement (kind : String)
  | notAssignable (kind : String)
  | notDot (kind : String)
  | stringExpected
  | badType (cause : DataType.DecodeError)
  deriving Inhabited, Repr

namespace NodeError

def message : NodeError → String
  | .unreadable => "invalid node document: " ++ StoredProc.unreadable
  | .missing kind field => "invalid node document: " ++ kind ++ " node has no " ++ field
  | .notStatement kind =>
    "invalid node document: " ++ Text.quoted kind ++ " is not a statement kind"
  | .notAssignable kind =>
    "invalid node document: " ++ Text.quoted kind ++ " is not an assignable kind"
  | .notDot kind =>
    "invalid node document: " ++ Text.quoted kind ++ " is not a dot statement kind"
  | .stringExpected => "invalid node document: the value of a string literal should be a string"
  | .badType cause => cause.message

end NodeError

namespace Json

/-- The value of a written integer in 64 bits: no fraction and no exponent. -/
def int64? : Json → Option Int
  | .num text => do
    let (negative, digits) := match text.toList with
      | '-' :: digits => (true, digits)
      | digits => (false, digits)
    guard (!digits.isEmpty && digits.all Char.isDigit)
    let size := digits.foldl (fun n d => n * 10 + (d.toNat - '0'.toNat)) 0
    if negative then
      if size ≤ int64Limit then some (-(size : Int)) else none
    else if size < int64Limit then some size else none
  | _ => none

/-- Every member called `name` satisfies `accepts`. -/
def allNamed (name : String) (accepts : Json → Bool) (members : List (String × Json)) : Bool :=
  members.all fun member => !named name member.1 || accepts member.2

/-- A list of anything, or nothing. -/
def isListOrNull : Json → Bool
  | .null | .arr .. => true
  | _ => false

/-- The last member called `name`, unless it is `null`. -/
def present? (name : String) (members : List (String × Json)) : Option Json :=
  match last? name members with
  | some .null => none
  | found => found

end Json

namespace Location

/-- Read the members of a location over what is known of it so far. -/
def readMembers (start : Location) (members : List (String × Json)) : Option Location :=
  members.foldlM (fun loc (name, value) =>
    match value with
    | .null => some loc
    | value =>
      if Json.named "file" name then value.string?.map fun file => { loc with file }
      else if Json.named "line" name then value.int64?.map fun line => { loc with line }
      else if Json.named "column" name then value.int64?.map fun column => { loc with column }
      else some loc) start

/-- The location among the members of a node document. -/
def ofMembers (members : List (String × Json)) : Option Location :=
  members.foldlM (fun loc (name, value) =>
    if Json.named "loc" name then
      match value with
      | .null => some loc
      | .obj _ parts => if Json.soundNames parts then loc.readMembers parts else none
      | _ => none
    else some loc) {}

end Location

/-- The plain members of a node document. -/
structure NodeHeader where
  kind : String
  name : String
  row : String
  loc : Location

namespace NodeHeader

/-- Whether a value is a list of object fields: objects with a text as name. -/
def isFieldList : Json → Bool
  | .null => true
  | .arr _ items => items.all fun
    | .null => true
    | .obj _ members =>
      Json.soundNames members && (Json.textMember? "name" members).isSome
    | _ => false
  | _ => false

/-- Read the plain members and check the JSON types of all the others. -/
def read (members : List (String × Json)) : Option NodeHeader := do
  guard (Json.soundNames members)
  guard (["body", "dots", "args", "elements"].all fun name =>
    Json.allNamed name Json.isListOrNull members)
  guard (Json.allNamed "fields" isFieldList members)
  return {
    kind := ← Json.textMember? "kind" members
    name := ← Json.textMember? "name" members
    row := ← Json.textMember? "rowVar" members
    loc := ← Location.ofMembers members }

end NodeHeader

/-- The text of a number literal: the text of its value without quotes around
it, nothing if there is none. -/
def numberText? (members : List (String × Json)) : Option String :=
  let isQuote (c : Char) := c == '"'
  let raw := ((Json.last? "value" members).map Json.text).getD ""
  let text := String.ofList ((raw.toList.dropWhile isQuote).reverse.dropWhile isQuote).reverse
  if text = "" ∨ text = "null" then none else some text

/-- The value of a string literal. -/
def stringValue? (members : List (String × Json)) : Option String :=
  match Json.last? "value" members with
  | some .null => some ""
  | some value => value.string?
  | none => none

/-- What was read of a list member; an absent list is empty. -/
def orEmpty {α : Type} (found : Option (Except NodeError (List α))) :
    Except NodeError (List α) :=
  found.getD (.ok [])

/-- What was read of a member that must be there and must not be `null`. -/
def required {α : Type} (kind field : String) (members : List (String × Json))
    (found : Option (Except NodeError α)) : Except NodeError α :=
  match Json.present? field members, found with
  | some _, some found => found
  | _, _ => .error (.missing kind field)

mutual

/-- Read a statement. -/
def Statement.ofJson : Json → Except NodeError Statement
  | .null => .error (.notStatement "")
  | .obj _ members =>
    match NodeHeader.read members with
    | none => .error .unreadable
    | some header =>
      match header.kind with
      | "VariableReference" =>
        if header.name.isEmpty then .error (.missing header.kind "name")
        else do
          let dots ← orEmpty (lastDots? members)
          return .reference header.loc header.name dots
      | "VariableCreation" =>
        if header.name.isEmpty then .error (.missing header.kind "name")
        else
          match Json.present? "type" members with
          | none => .error (.missing header.kind "type")
          | some document =>
            match DataType.ofJson document with
            | .error cause => .error (.badType cause)
            | .ok type => do
              let value ← required header.kind "value" members (lastExpr? "value" members)
              return .create header.loc header.name type value
      | "ReturnStatement" =>
        match Json.present? "value" members with
        | none => .ok (.ret header.loc none)
        | some _ => do
          let value ← required header.kind "value" members (lastExpr? "value" members)
          return .ret header.loc (some value)
      | "If" => do
        let condition ← required header.kind "condition" members (lastExpr? "condition" members)
        let body ← orEmpty (lastBody? members)
        return .ifThen header.loc condition body
      | "ForIn" => do
        let iterable ← required header.kind "iterable" members (lastExpr? "iterable" members)
        let body ← orEmpty (lastBody? members)
        return .forIn header.loc header.row iterable body
      | kind => .error (.notStatement kind)
  | _ => .error .unreadable

/-- Read an expression. -/
def Expr.ofJson : Json → Except NodeError Expr
  | .null => .error (.notAssignable "")
  | .obj _ members =>
    match NodeHeader.read members with
    | none => .error .unreadable
    | some header =>
      match header.kind with
      | "VariableReference" =>
        if header.name.isEmpty then .error (.missing header.kind "name")
        else do
          let dots ← orEmpty (lastDots? members)
          return .reference header.loc header.name dots
      | "StringLiteral" =>
        match stringValue? members with
        | none => .error .stringExpected
        | some value => .ok (.string header.loc value)
      | "NumberLiteral" =>
        match numberText? members with
        | none => .error (.missing header.kind "value")
        | some text => .ok (.number header.loc text)
      | "ArrayLiteral" => do
        let elements ← orEmpty (lastExprs? "elements" members)
        return .array header.loc elements
      | "ObjectLiteral" => do
        let fields ← orEmpty (lastFields? members)
        return .object header.loc fields
      | "AnonFunction" =>
        if header.row.isEmpty then .error (.missing header.kind "rowVar")
        else do
          let body ← orEmpty (lastBody? members)
          return .lambda header.loc header.row body
      | kind => .error (.notAssignable kind)
  | _ => .error .unreadable

/-- Read one link of a chain. The name is asked for before the kind. -/
def Dot.ofJson : Json → Except NodeError Dot
  | .null => .error (.missing "" "name")
  | .obj _ members =>
    match NodeHeader.read members with
    | none => .error .unreadable
    | some header =>
      if header.name.isEmpty then .error (.missing header.kind "name")
      else
        match header.kind with
        | "FieldAccess" => .ok (.field header.loc header.name)
        | "MethodInvocation" => do
          let args ← orEmpty (lastExprs? "args" members)
          return .method header.loc header.name args
        | kind => .error (.notDot kind)
  | _ => .error .unreadable

/-- The expression of the last member called `field`. -/
def lastExpr? (field : String) : List (String × Json) → Option (Except NodeError Expr)
  | [] => none
  | (name, value) :: rest =>
    match lastExpr? field rest with
    | some found => some found
    | none => if Json.named field name then some (Expr.ofJson value) else none

/-- The statements of the last `body`. -/
def lastBody? : List (String × Json) → Option (Except NodeError (List Statement))
  | [] => none
  | (name, value) :: rest =>
    match lastBody? rest with
    | some found => some found
    | none => if Json.named "body" name then some (statementsOf value) else none

def statementsOf : Json → Except NodeError (List Statement)
  | .arr _ items => readStatements items
  | _ => .ok []

def readStatements : List Json → Except NodeError (List Statement)
  | [] => .ok []
  | item :: rest => do
    let statement ← Statement.ofJson item
    let statements ← readStatements rest
    return statement :: statements

/-- The expressions of the last list called `field`. -/
def lastExprs? (field : String) : List (String × Json) → Option (Except NodeError (List Expr))
  | [] => none
  | (name, value) :: rest =>
    match lastExprs? field rest with
    | some found => some found
    | none => if Json.named field name then some (exprsOf value) else none

def exprsOf : Json → Except NodeError (List Expr)
  | .arr _ items => readExprs items
  | _ => .ok []

def readExprs : List Json → Except NodeError (List Expr)
  | [] => .ok []
  | item :: rest => do
    let expr ← Expr.ofJson item
    let exprs ← readExprs rest
    return expr :: exprs

/-- The chain of the last `dots`. -/
def lastDots? : List (String × Json) → Option (Except NodeError (List Dot))
  | [] => none
  | (name, value) :: rest =>
    match lastDots? rest with
    | some found => some found
    | none => if Json.named "dots" name then some (dotsOf value) else none

def dotsOf : Json → Except NodeError (List Dot)
  | .arr _ items => readDots items
  | _ => .ok []

def readDots : List Json → Except NodeError (List Dot)
  | [] => .ok []
  | item :: rest => do
    let dot ← Dot.ofJson item
    let dots ← readDots rest
    return dot :: dots

/-- The fields of the last `fields`. -/
def lastFields? : List (String × Json) → Option (Except NodeError (List (String × Expr)))
  | [] => none
  | (name, value) :: rest =>
    match lastFields? rest with
    | some found => some found
    | none => if Json.named "fields" name then some (fieldsOf value) else none

def fieldsOf : Json → Except NodeError (List (String × Expr))
  | .arr _ items => readFieldLiterals items
  | _ => .ok []

def readFieldLiterals : List Json → Except NodeError (List (String × Expr))
  | [] => .ok []
  | item :: rest => do
    let field ← readFieldLiteral item
    let fields ← readFieldLiterals rest
    return field :: fields

def readFieldLiteral : Json → Except NodeError (String × Expr)
  | .obj _ members => do
    let name := (Json.textMember? "name" members).getD ""
    let found := lastExpr? "value" members
    let value ← match Json.present? "value" members, found with
      | some _, some found => found
      | _, _ => .error (.missing "ObjectLiteral" ("fields." ++ name))
    return (name, value)
  | _ => .error (.missing "ObjectLiteral" "fields.")

end

/-- The statement that a text describes. -/
def Statement.parse (source : String) : Except NodeError Statement :=
  match Json.parse? source with
  | some document => Statement.ofJson document
  | none => .error .unreadable

/-- The expression that a text describes. -/
def Expr.parse (source : String) : Except NodeError Expr :=
  match Json.parse? source with
  | some document => Expr.ofJson document
  | none => .error .unreadable

end StoredProc
