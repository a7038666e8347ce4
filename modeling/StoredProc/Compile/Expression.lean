import StoredProc.Compile.Fault
import StoredProc.Compile.Scope
import StoredProc.Machine.Instruction
import StoredProc.Manifest.Basic
import StoredProc.Number.Reader

/-!
# Code of expressions

The code of an expression leaves one value on the stack. It is chosen by the
type that is expected, the target; the type of the value goes with the code. A
name is a variable if one is in scope, and else a store. Two kinds of anonymous
functions have a meaning: the argument of `select`, which returns the row or a
pointer to it, and the argument of `deref`, which appends to an array in the
row.
-/

namespace StoredProc

/-- Code, and the type of the value it leaves. -/
abbrev TypedCode := Code × DataType

namespace Expr

/-- The code of a value that has a type on its own. -/
def checked (loc : Location) (target : DataType) (code : Code) (type : DataType) :
    Except LocatedFault TypedCode :=
  if target.compatible type then .ok (code, type)
  else faultAt loc (.typesNotEqual target type)

/-- The code of a string. -/
def stringCode (target : DataType) (loc : Location) (value : String) :
    Except LocatedFault TypedCode :=
  match target with
  | .prim .string | .any => .ok ([.text value], .string)
  | _ => faultAt loc (.notAssignable .string target)

/-- The code of an integer. -/
def intCode (loc : Location) (text : String) : Except LocatedFault TypedCode :=
  match readInt64? text with
  | some value => .ok ([.int value], .int)
  | none => faultAt loc (.badNumber text .int)

/-- The code of a double, which must be finite. -/
def doubleCode (loc : Location) (text : String) : Except LocatedFault TypedCode :=
  match Double.read? text with
  | some value =>
    if value.isFinite then .ok ([.double value], .double)
    else faultAt loc (.badNumber text .double)
  | none => faultAt loc (.badNumber text .double)

/-- The code of a number. Where any value may stand it is an integer if it can
be read as one. -/
def numberCode (target : DataType) (loc : Location) (text : String) :
    Except LocatedFault TypedCode :=
  match target with
  | .prim .int => intCode loc text
  | .prim .double => doubleCode loc text
  | .any => if (readInt64? text).isSome then intCode loc text else doubleCode loc text
  | _ => faultAt loc (.notAssignable .number target)

/-- The type of the elements of an array literal. -/
def elementType (target : DataType) (loc : Location) : Except LocatedFault DataType :=
  match target with
  | .array elem => .ok elem
  | .any => .ok .any
  | _ => faultAt loc (.notAssignable .array target)

/-- The fields an object literal must have; any fields if there is no saying. -/
def objectFields (target : DataType) (loc : Location) : Except LocatedFault (Option Fields) :=
  match target with
  | .object fields => .ok (some fields)
  | .any => .ok none
  | _ => faultAt loc (.notAssignable .object target)

/-- Whether a field is expected in an object literal. -/
def expectsField (expected : Option Fields) (name : String) : Bool :=
  match expected with
  | some fields => (DataType.field? fields name).isSome
  | none => true

/-- The type that is expected of a field. -/
def fieldTarget (expected : Option Fields) (name : String) : DataType :=
  match expected with
  | some fields => (DataType.field? fields name).getD .any
  | none => .any

/-- Each name of an object literal is expected, and stands there once. -/
def checkNames (expected : Option Fields) (loc : Location) (seen : List String) :
    List String → Except LocatedFault Unit
  | [] => .ok ()
  | name :: rest =>
    if seen.contains name then faultAt loc (.duplicateField name)
    else if expectsField expected name then checkNames expected loc (name :: seen) rest
    else faultAt loc (.unexpectedField name)

/-- No expected field is left out of an object literal. -/
def checkMissing (expected : Option Fields) (loc : Location) (names : List String) :
    Except LocatedFault Unit :=
  match ((expected.getD []).map Prod.fst).find? fun name => !names.contains name with
  | some name => faultAt loc (.missingField name)
  | none => .ok ()

/-- The type of an object literal. -/
def objectType (expected : Option Fields) (produced : Fields) : DataType :=
  match expected with
  | some fields => .object fields
  | none => .ofFields produced

/-! ## Stores -/

/-- The code that fetches all records of a store. -/
def allCode (target : DataType) (loc : Location) (store : String) (schema : Fields) :
    Except LocatedFault TypedCode :=
  if target.isNothing then faultAt loc .storeNotNothing
  else if target.compatible (.array (.object schema)) then
    .ok ([.getAll store], .array (.object schema))
  else faultAt loc (.storeOfOtherType store (.object schema) target)

/-- What a `select` is asked for. -/
inductive Selection where
  | rows
  | pointers
  deriving DecidableEq, Inhabited, Repr

/-- The selection that a chain on the row variable makes. -/
def selectionOfDots : List Dot → Except LocatedFault Selection
  | [] => .ok .rows
  | .field loc _ :: _ => faultAt loc .selectRowOrPointer
  | .method loc name args :: _ =>
    if name ≠ "ref" then faultAt loc (.noRowMethod name)
    else if args.isEmpty then .ok .pointers
    else faultAt loc .refArguments

/-- The selection that the body of an anonymous function makes. -/
def selectionOfBody (loc : Location) (row : String) :
    List Statement → Except LocatedFault Selection
  | [.ret _ (some (.reference loc name dots))] =>
    if name = row && dots.length ≤ 1 then selectionOfDots dots
    else faultAt loc .selectRowOrPointer
  | [.ret _ (some value)] => faultAt value.loc .selectRowOrPointer
  | [statement] => faultAt statement.loc .selectMustReturn
  | _ => faultAt loc .selectOneStatement

/-- The selection that the arguments of `select` make. -/
def selection (target : DataType) (loc : Location) :
    List Expr → Except LocatedFault Selection
  | [arg] =>
    if target.isNothing then faultAt loc .selectMustYield
    else
      match arg with
      | .lambda loc row body => selectionOfBody loc row body
      | other => faultAt other.loc .selectNeedsLambda
  | _ => faultAt loc .selectArguments

/-- The code of a `select`. Of the records that are pointed to all fields are
hidden. -/
def selectCode (target : DataType) (loc : Location) (store : String) (schema : Fields)
    (args : List Expr) : Except LocatedFault TypedCode := do
  match ← selection target loc args with
  | .rows => checked loc target [.getAll store] (.array (.object schema))
  | .pointers =>
    checked loc target [.query store (schema.map Prod.fst)] (.array (.ref store))

/-- Whether a statement returns the row variable itself. -/
def returnsRow (row : String) : Statement → Bool
  | .ret _ (some (.reference _ name [])) => name == row
  | _ => false

/-- The last link of a chain appends one value. -/
def checkAppend (loc : Location) (dots : List Dot) : Except LocatedFault Unit :=
  match dots.getLast? with
  | some (.method loc name args) =>
    if name = "append" && args.length = 1 then .ok () else faultAt loc .derefMustAppend
  | some (.field loc _) => faultAt loc .derefMustAppend
  | none => faultAt loc .derefMustAppend

/-! ## Expressions -/

/-- The code that reads a field of the object on the stack. -/
def fieldCode (current : DataType) (loc : Location) (name : String) :
    Except LocatedFault TypedCode :=
  match current with
  | .object fields =>
    match DataType.field? fields name with
    | some type => .ok ([.text name, .getField 1], type)
    | none => faultAt loc (.noField name current)
  | _ => faultAt loc (.cannotAccessField name current)

mutual

/-- The code of an expression against a target. -/
def code (m : Manifest) (scope : Scope) (target : DataType) :
    Expr → Except LocatedFault TypedCode
  | .reference loc name dots =>
    match scope.get? name with
    | some held =>
      if target.isNothing then faultAt loc .returnsValue
      else do
        let (chain, type) ← chainCode m scope held.type dots
        checked loc target (.copyFromHeap held.slot :: chain) type
    | none =>
      match m.store? name with
      | some schema => storeCode m scope target loc name schema dots
      | none => faultAt loc (.unresolved name)
  | .string loc value => stringCode target loc value
  | .number loc text => numberCode target loc text
  | .array loc elements => do
    let elem ← elementType target loc
    let pushes ← elementsCode m scope elem elements
    return (.newArray :: pushes, .array elem)
  | .object loc fields => do
    let expected ← objectFields target loc
    checkNames expected loc [] (fields.map Prod.fst)
    checkMissing expected loc (fields.map Prod.fst)
    let (sets, produced) ← fieldsCode m scope expected fields
    return (.newObject :: sets, objectType expected produced)
  | .lambda loc _ _ => faultAt loc .unexpectedLambda

/-- The code that pushes elements to the array on the stack. -/
def elementsCode (m : Manifest) (scope : Scope) (elem : DataType) :
    List Expr → Except LocatedFault Code
  | [] => .ok []
  | expr :: rest => do
    let (value, _) ← expr.code m scope elem
    let more ← elementsCode m scope elem rest
    return value ++ .arrayPush :: more

/-- The code that sets fields of the object on the stack. -/
def fieldsCode (m : Manifest) (scope : Scope) (expected : Option Fields) :
    List (String × Expr) → Except LocatedFault (Code × Fields)
  | [] => .ok ([], [])
  | (name, expr) :: rest => do
    let (value, type) ← expr.code m scope (fieldTarget expected name)
    let (more, types) ← fieldsCode m scope expected rest
    return (.text name :: value ++ .setField 1 :: more, (name, type) :: types)

/-- The code that inserts values in a store. -/
def insertsCode (m : Manifest) (scope : Scope) (store : String) (schema : Fields) :
    List Expr → Except LocatedFault Code
  | [] => .ok []
  | expr :: rest => do
    let (value, _) ← expr.code m scope (.object schema)
    let more ← insertsCode m scope store schema rest
    return value ++ .insert store :: more

/-- The code of a store: its name alone, or one method called on it. -/
def storeCode (m : Manifest) (scope : Scope) (target : DataType) (loc : Location)
    (store : String) (schema : Fields) : List Dot → Except LocatedFault TypedCode
  | [] => allCode target loc store schema
  | [.field loc _] => faultAt loc .fieldOfStore
  | [.method loc name args] =>
    if name = "append" then
      if target.isAny then do
        let inserts ← insertsCode m scope store schema args
        return (inserts, .array (.ref store))
      else faultAt loc .appendGivesNothing
    else if name = "len" then
      if args.isEmpty then checked loc target [.storeLen store] .int
      else faultAt loc .lenArguments
    else if name = "select" then selectCode target loc store schema args
    else faultAt loc (.noStoreMethod name)
  | _ :: second :: _ => faultAt second.loc .chainedStoreMethods

/-- The code of a chain on the value on the stack, and the type it ends with. -/
def chainCode (m : Manifest) (scope : Scope) (current : DataType) :
    List Dot → Except LocatedFault TypedCode
  | [] => .ok ([], current)
  | dot :: rest => do
    let (first, next) ← dotCode m scope current dot
    let (more, type) ← chainCode m scope next rest
    return (first ++ more, type)

/-- The code of one link of a chain. -/
def dotCode (m : Manifest) (scope : Scope) (current : DataType) :
    Dot → Except LocatedFault TypedCode
  | .field loc name => fieldCode current loc name
  | .method loc name args =>
    match current with
    | .ref store =>
      match m.store? store with
      | none => faultAt loc (.noStoreOfReference store)
      | some schema =>
        if name = "delete" then
          if args.isEmpty then .ok ([.deleteOne store], .bool)
          else faultAt loc .deleteArguments
        else if name = "deref" then
          match args with
          | [] => .ok ([.findOne store [Instruction.idField]], .optional (.object schema))
          | [.lambda loc row body] => do
            let (path, value) ← mutationCode m scope loc row schema body
            return (.newPush :: value ++ [.pushAt path, .updateOne store],
              .optional (.object schema))
          | [other] => faultAt other.loc .derefNeedsLambda
          | _ => faultAt loc .derefArguments
        else faultAt loc .onlyDerefAndDelete
    | .array _ =>
      if name = "len" then
        if args.isEmpty then .ok ([.arrayLen], .int) else faultAt loc .lenArguments
      else faultAt loc (.noMethod name current)
    | _ => faultAt loc (.noMethod name current)

/-- The value that the body of a mutating function appends, and the path of the
array it is appended to. -/
def mutationCode (m : Manifest) (scope : Scope) (loc : Location) (row : String)
    (schema : Fields) : List Statement → Except LocatedFault (List String × Code)
  | [first, last] =>
    if returnsRow row last then
      match first with
      | .reference loc name dots =>
        if name = row && 2 ≤ dots.length then do
          checkAppend loc dots
          appendCode m scope (.object schema) loc dots
        else faultAt loc .derefMustAppend
      | other => faultAt other.loc .derefMustAppend
    else faultAt last.loc .derefMustReturnRow
  | _ => faultAt loc .derefTwoStatements

/-- The path of a chain of field accesses that ends in appending a value, and
the code of the value. -/
def appendCode (m : Manifest) (scope : Scope) (current : DataType) (loc : Location) :
    List Dot → Except LocatedFault (List String × Code)
  | [] => faultAt loc .derefMustAppend
  | [.method loc _ [value]] =>
    match current with
    | .array elem => do
      let (appended, _) ← value.code m scope elem
      return ([], appended)
    | _ => faultAt loc .appendNeedsArray
  | .method loc _ _ :: _ => faultAt loc .derefMustAppend
  | .field loc name :: rest => do
    let (_, type) ← fieldCode current loc name
    let (path, appended) ← appendCode m scope type loc rest
    return (name :: path, appended)

end

end Expr

end StoredProc
