import StoredProc.Tree.Basic

/-!
# Faults

What can be wrong with a function. Every fault is of one of five kinds, has a
message, and is found at a place.
-/

namespace StoredProc

inductive FaultKind where
  | unresolvedSymbol
  | duplicateSymbol
  | typeMismatch
  | unsupportedConstruct
  | controlFlow
  deriving DecidableEq, Inhabited, Repr

/-- The name of a kind in diagnostics. -/
def FaultKind.label : FaultKind → String
  | unresolvedSymbol => "unresolved-symbol"
  | duplicateSymbol => "duplicate-symbol"
  | typeMismatch => "type-mismatch"
  | unsupportedConstruct => "unsupported-construct"
  | controlFlow => "control-flow"

inductive Literal where
  | string
  | number
  | array
  | object
  deriving DecidableEq, Inhabited, Repr

def Literal.name : Literal → String
  | string => "string"
  | number => "number"
  | array => "array"
  | object => "object"

inductive Fault where
  | unresolved (name : String)
  | noParameterSchema (function : String)
  | noStoreOfReference (store : String)
  | alreadyDeclared (name : String)
  | unreachable (returned : Location)
  | missingReturn
  | forInLoop
  | unexpectedLambda
  | returnsNothing
  | returnsValue
  | typesNotEqual (expected actual : DataType)
  | notAssignable (literal : Literal) (target : DataType)
  | badNumber (text : String) (target : DataType)
  | missingField (name : String)
  | unexpectedField (name : String)
  | duplicateField (name : String)
  | cannotAccessField (name : String) (type : DataType)
  | noField (name : String) (type : DataType)
  | noMethod (name : String) (type : DataType)
  | lenArguments
  | storeOfOtherType (store : String) (record target : DataType)
  | storeNotNothing
  | fieldOfStore
  | chainedStoreMethods
  | noStoreMethod (name : String)
  | appendGivesNothing
  | selectArguments
  | selectMustYield
  | selectNeedsLambda
  | selectOneStatement
  | selectMustReturn
  | selectRowOrPointer
  | noRowMethod (name : String)
  | refArguments
  | deleteArguments
  | derefArguments
  | derefNeedsLambda
  | derefTwoStatements
  | derefMustAppend
  | derefMustReturnRow
  | onlyDerefAndDelete
  | appendNeedsArray
  deriving Inhabited, Repr

namespace Fault

def kind : Fault → FaultKind
  | unresolved _ | noParameterSchema _ | noStoreOfReference _ => .unresolvedSymbol
  | alreadyDeclared _ => .duplicateSymbol
  | unreachable _ | missingReturn => .controlFlow
  | forInLoop | unexpectedLambda | chainedStoreMethods | selectArguments | selectNeedsLambda
  | selectOneStatement | selectMustReturn | selectRowOrPointer | noRowMethod _ | refArguments
  | derefNeedsLambda | derefTwoStatements | derefMustAppend | derefMustReturnRow =>
    .unsupportedConstruct
  | _ => .typeMismatch

def message : Fault → String
  | unresolved name => name ++ " is neither a variable nor a store"
  | noParameterSchema function =>
    "no parameter schema is registered for function " ++ function
  | noStoreOfReference store => "the store " ++ store ++ " of the reference does not exist"
  | alreadyDeclared name => "variable " ++ name ++ " is already declared"
  | unreachable returned => "unreachable code after the return statement at " ++ returned.describe
  | missingReturn => "function fails to return a value on all paths"
  | forInLoop => "for in loops are not supported"
  | unexpectedLambda =>
    "anonymous functions are only supported as arguments of select and deref"
  | returnsNothing => "returning nothing when a value is expected"
  | returnsValue => "returning a value from a function that returns nothing"
  | typesNotEqual expected actual =>
    "types are not equal: expected " ++ expected.describe ++ " but got " ++ actual.describe
  | notAssignable literal target =>
    "a(n) " ++ literal.name ++ " literal is not assignable to " ++ target.describe
  | badNumber text target => text ++ " is not a valid " ++ target.describe ++ " literal"
  | missingField name => "missing field " ++ name ++ " in object literal"
  | unexpectedField name => "unexpected field in object literal: " ++ name
  | duplicateField name => "field " ++ name ++ " appears twice in object literal"
  | cannotAccessField name type =>
    "attempting to access field " ++ name ++ " on a(n) " ++ type.describe
  | noField name type =>
    "attempting to access " ++ name ++ " but it doesn't exist on type " ++ type.describe
  | noMethod name type => name ++ " does not exist on " ++ type.describe
  | lenArguments => "len takes no arguments"
  | storeOfOtherType store record target =>
    "referencing " ++ store ++ " returns an Array<" ++ record.describe ++ ">, not "
      ++ target.describe
  | storeNotNothing => "a store reference returns data, not nothing"
  | fieldOfStore => "accessing a field on a store does not make sense"
  | chainedStoreMethods => "invoking methods on the result of a store method is not supported"
  | noStoreMethod name => "method " ++ name ++ " doesn't exist on stores"
  | appendGivesNothing => "appending to a store does not return any data"
  | selectArguments => "select may only be called with one argument"
  | selectMustYield => "select must yield some result"
  | selectNeedsLambda => "select must be invoked with an anonymous function"
  | selectOneStatement => "select functions only support one statement"
  | selectMustReturn =>
    "it only makes sense to select from a store if you are going to return results"
  | selectRowOrPointer => "select functions may only return the row variable or a pointer to it"
  | noRowMethod name => "unknown method " ++ name ++ " called on row variable"
  | refArguments => "ref should not be called with any arguments"
  | deleteArguments => "deleting a pointer takes no arguments"
  | derefArguments => "deref takes at most one argument"
  | derefNeedsLambda => "deref must be invoked with an anonymous function"
  | derefTwoStatements =>
    "deref functions should contain exactly two statements: an append to a nested array of the row "
      ++ "and a return of the row"
  | derefMustAppend =>
    "the first statement of a deref function should append a single value to a nested array field "
      ++ "of the row"
  | derefMustReturnRow => "the last statement of a deref function should return the row variable"
  | onlyDerefAndDelete => "references only support the deref and delete methods"
  | appendNeedsArray => "append can only be called on an array field"

end Fault

/-- A fault and where it was found. -/
structure LocatedFault where
  loc : Location
  fault : Fault
  deriving Inhabited

namespace LocatedFault

def message (f : LocatedFault) : String :=
  if f.loc.isKnown then f.loc.describe ++ ": " ++ f.fault.message else f.fault.message

end LocatedFault

/-- Stop with a fault. -/
def faultAt {α : Type} (loc : Location) (fault : Fault) : Except LocatedFault α :=
  .error ⟨loc, fault⟩

end StoredProc
