import StoredProc.Compile.Statement

/-!
# Traces

A trace shows the code of a function as it is made, statement by statement, each
in a block of its own. The jump of a branch is shown after the body, when its
target is known.
-/

namespace StoredProc

inductive TraceEvent where
  | enter (label : String)
  | emit (address : Nat) (instruction : Instruction)
  | leave
  deriving DecidableEq, Inhabited, Repr

namespace TraceEvent

/-- Instructions that stand one after the other. -/
def emitAll (base : Nat) : Code → List TraceEvent
  | [] => []
  | instruction :: rest => .emit base instruction :: emitAll (base + 1) rest

/-- A block with a label. -/
def block (label : String) (events : List TraceEvent) : List TraceEvent :=
  .enter ("(" ++ label ++ ")") :: events ++ [.leave]

mutual

/-- The trace of a statement that is done. -/
def ofStep (base : Nat) : Step → List TraceEvent
  | .plain kind code => block kind.name (emitAll base code)
  | .branch test body fresh =>
    block NodeKind.ifStatement.name
      (emitAll base (test ++ [.negate])
        ++ ofSteps (Step.jumpAddress base test + 1) body
        ++ [.emit (Step.jumpAddress base test) (.jumpIf (Step.endAddress base test body)),
          .emit (Step.endAddress base test body) (Step.cleanup fresh)])

def ofSteps (base : Nat) : List Step → List TraceEvent
  | [] => []
  | step :: rest => ofStep base step ++ ofSteps (base + step.size) rest

end

mutual

/-- The trace of a statement that may have failed. -/
def ofProgress (base : Nat) : Progress → List TraceEvent
  | .done step => ofStep base step
  | .failed kind => block kind.name []
  | .within test body =>
    block NodeKind.ifStatement.name
      (emitAll base (test ++ [.negate]) ++ ofAll (Step.jumpAddress base test + 1) body)

/-- The trace of statements. Only the last of them may have failed. -/
def ofAll (base : Nat) : List Progress → List TraceEvent
  | [] => []
  | .done step :: rest => ofStep base step ++ ofAll (base + step.size) rest
  | progress :: rest => ofProgress base progress ++ ofAll base rest

end

/-- A line of a trace with a mark for every open block. -/
def line (depth : Nat) (text : String) : String :=
  String.join (List.replicate depth ". ") ++ text ++ "\n"

/-- The text of a trace inside a number of open blocks. -/
def textFrom (depth : Nat) : List TraceEvent → String
  | [] => ""
  | .enter label :: rest => line depth (label ++ " \x7b") ++ textFrom (depth + 1) rest
  | .emit address instruction :: rest =>
    line depth (Op.line address instruction.toOp) ++ textFrom depth rest
  | .leave :: rest => line (depth - 1) "\x7d" ++ textFrom (depth - 1) rest

/-- The text of a trace. -/
def text (events : List TraceEvent) : String := textFrom 0 events

end TraceEvent

end StoredProc
