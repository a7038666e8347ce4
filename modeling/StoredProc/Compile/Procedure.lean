import StoredProc.Compile.Trace
import StoredProc.Machine.Verify
import StoredProc.Registry

/-!
# Procedures

A function becomes a procedure. A parameter is checked against its schema and
lies in the first slot. A function with a result must return on its way to the
end of its body. What comes out is verified.
-/

namespace StoredProc

/-- The compiled form of a function: its code, the highest slot that was
assigned, and the number of slots. -/
structure Procedure where
  name : String
  code : Code
  highest : Nat
  frameSize : Nat
  deriving Inhabited

namespace Procedure

/-- The operations of a procedure. -/
def ops (p : Procedure) : List Op := p.code.map Instruction.toOp

end Procedure

/-- Why a function has no procedure. -/
inductive FunctionFault where
  | located (fault : LocatedFault)
  | invalid (cause : Op.VerifyError)
  deriving Inhabited

def FunctionFault.message : FunctionFault → String
  | .located fault => fault.message
  | .invalid cause => "invalid procedure: " ++ cause.message

/-- A function that failed to compile. -/
structure FunctionError where
  function : String
  fault : FunctionFault
  deriving Inhabited

/-- How the failure of a function is reported. -/
def FunctionError.describe (function message : String) : String :=
  "while compiling function `" ++ function ++ "`: " ++ message

def FunctionError.message (e : FunctionError) : String := describe e.function e.fault.message

/-- The work on a function: the code before its body, how far the body came, and
the procedure. -/
structure Compilation where
  prologue : Code := []
  progress : List Progress := []
  result : Except FunctionFault Procedure

namespace Function

/-- The slot of a parameter. -/
def parameterSlot : Nat := 0

/-- The type of the values that a function returns. -/
def target (f : Function) : DataType := f.result.getD .nothing

/-- The code before the body, and the scope of the body. -/
def entry (r : Registry) (f : Function) : Except LocatedFault (Code × Scope) :=
  match f.parameter with
  | none => .ok ([], {})
  | some parameter =>
    match r.parameterIndex? f.name with
    | none => faultAt f.loc (.noParameterSchema f.name)
    | some index =>
      .ok ([.enforceSchema parameterSlot index],
        ((({} : Scope).add? parameter.name parameter.type).map Prod.snd).getD {})

/-- The procedure of a function whose body is compiled. -/
def finish (f : Function) (prologue : Code) (body : Block) : Except FunctionFault Procedure :=
  if body.returned.isNone && !f.target.isNothing then
    .error (.located ⟨f.loc, .missingReturn⟩)
  else
    let procedure : Procedure :=
      { name := f.name
        code := prologue ++ Step.assembleAll prologue.length body.steps
        highest := body.scope.highest
        frameSize := body.scope.count }
    match Op.verify procedure.ops with
    | .error cause => .error (.invalid cause)
    | .ok () => .ok procedure

/-- Compile a function of a manifest with its registry. -/
def compilation (m : Manifest) (r : Registry) (f : Function) : Compilation :=
  match entry r f with
  | .error fault => { result := .error (.located fault) }
  | .ok (prologue, scope) =>
    match Statement.compileAll m f.target scope none f.body with
    | .error failure =>
      { prologue, progress := failure.progress, result := .error (.located failure.fault) }
    | .ok body =>
      { prologue, progress := body.steps.map .done, result := finish f prologue body }

/-- The procedure of a function. -/
def compile (m : Manifest) (r : Registry) (f : Function) : Except FunctionError Procedure :=
  (compilation m r f).result.mapError (⟨f.name, ·⟩)

/-- The events of the trace of a function. -/
def traceEvents (m : Manifest) (r : Registry) (f : Function) : List TraceEvent :=
  let work := compilation m r f
  TraceEvent.block ("function " ++ f.name)
    (TraceEvent.emitAll 0 work.prologue ++ TraceEvent.ofAll work.prologue.length work.progress)

/-- The trace of a function. -/
def trace (m : Manifest) (r : Registry) (f : Function) : String :=
  TraceEvent.text (traceEvents m r f)

end Function

end StoredProc
