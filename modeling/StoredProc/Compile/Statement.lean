import StoredProc.Compile.Block
import StoredProc.Compile.Expression

/-!
# Code of statements

Statements are compiled in order, each in the scope that the ones before it
leave. Nothing may follow a return. A failure keeps how far the work had come.
-/

namespace StoredProc

/-- How far the work on a statement has come: done, failed before any code of
it was known, or stuck in the body of a branch. -/
inductive Progress where
  | done (step : Step)
  | failed (kind : NodeKind)
  | within (test : Code) (body : List Progress)
  deriving Inhabited

/-- A fault in a list of statements, and the work until then. -/
structure BlockFailure where
  fault : LocatedFault
  progress : List Progress
  deriving Inhabited

/-- The code of a list of statements, the scope after it, and where it
returned, if it did. -/
structure Block where
  steps : List Step
  scope : Scope
  returned : Option Location := none
  deriving Inhabited

/-- The code of one statement. -/
structure Compiled where
  step : Step
  scope : Scope
  returned : Option Location := none

namespace Statement

/-- The code of a reference that is there for its effect. -/
def effectCode (m : Manifest) (scope : Scope) (loc : Location) (name : String)
    (dots : List Dot) : Except LocatedFault Code := do
  let (code, _) ← Expr.code m scope .any (.reference loc name dots)
  return code

/-- The code of a declaration. The initial value does not see the new name. -/
def createCode (m : Manifest) (scope : Scope) (loc : Location) (name : String)
    (type : DataType) (value : Expr) : Except LocatedFault (Code × Scope) := do
  let (code, _) ← value.code m scope type
  match scope.add? name type with
  | some (_, scope) => return (code ++ [.moveToHeap], scope)
  | none => faultAt loc (.alreadyDeclared name)

/-- The code of a return. -/
def returnCode (m : Manifest) (target : DataType) (scope : Scope) (loc : Location) :
    Option Expr → Except LocatedFault Code
  | none =>
    if target.isNothing || target.isAny then .ok [] else faultAt loc .returnsNothing
  | some value =>
    if target.isNothing then faultAt loc .returnsValue
    else do
      let (code, _) ← value.code m scope target
      return code ++ [.returnTop]

/-- A fault before any code of a statement is known. -/
def unstarted {α : Type} (kind : NodeKind) (result : Except LocatedFault α) :
    Except (LocatedFault × Progress) α :=
  result.mapError fun fault => (fault, .failed kind)

mutual

/-- The code of a statement of a function that returns the target. -/
def compile (m : Manifest) (target : DataType) (scope : Scope) :
    Statement → Except (LocatedFault × Progress) Compiled
  | .reference loc name dots => unstarted .variableReference do
    let code ← effectCode m scope loc name dots
    return { step := .plain .variableReference code, scope }
  | .create loc name type value => unstarted .variableCreation do
    let (code, scope) ← createCode m scope loc name type value
    return { step := .plain .variableCreation code, scope }
  | .ret loc value => unstarted .returnStatement do
    let code ← returnCode m target scope loc value
    return { step := .plain .returnStatement code, scope, returned := some loc }
  | .ifThen _ condition body => do
    let (test, _) ← unstarted .ifStatement (condition.code m scope .bool)
    match compileAll m target scope.start none body with
    | .error failure => .error (failure.fault, .within test failure.progress)
    | .ok block =>
      let (fresh, scope) := block.scope.stop
      return { step := .branch test block.steps fresh, scope }
  | .forIn loc _ _ _ => unstarted .forIn (faultAt loc .forInLoop)

/-- The code of statements, after a return or not. -/
def compileAll (m : Manifest) (target : DataType) (scope : Scope)
    (returned : Option Location) : List Statement → Except BlockFailure Block
  | [] => .ok { steps := [], scope, returned }
  | statement :: rest =>
    match returned with
    | some loc => .error ⟨⟨statement.loc, .unreachable loc⟩, []⟩
    | none =>
      match statement.compile m target scope with
      | .error (fault, progress) => .error ⟨fault, [progress]⟩
      | .ok first =>
        match compileAll m target first.scope first.returned rest with
        | .error failure => .error { failure with progress := .done first.step :: failure.progress }
        | .ok block => .ok { block with steps := first.step :: block.steps }

end

end Statement

end StoredProc
