import StoredProc.Proofs.Compile.SourceMap

/-! # Code in one pass

The code of a function can be written down while its statements are read: the address
of an instruction is then the number of instructions in front of it. Only the jump of a
branch has to wait until the body is done, so the body is written apart, with its
addresses counted on from those of the branch. A trace can be written along the way; it
has a counter of its own for the blocks that are open.

What is written in one pass is what comes out when the statements are compiled to blocks
and these are laid out behind the code that is there already, and the trace is the one
that is made up from the blocks.
-/

namespace StoredProc

/-! ## Writing a trace -/

/-- The text of a trace so far, and the number of open blocks. -/
structure TraceWriter where
  text : String := ""
  indent : Int := 0
  deriving Inhabited

namespace TraceWriter

/-- Write a line with a mark for every open block. -/
def print (line : String) (w : TraceWriter) : TraceWriter :=
  { w with text := w.text ++ TraceEvent.line w.indent.toNat line }

/-- Open a block. -/
def enter (label : String) (w : TraceWriter) : TraceWriter :=
  { w.print (label ++ " \x7b") with indent := w.indent + 1 }

/-- Close a block. -/
def leave (w : TraceWriter) : TraceWriter :=
  ({ w with indent := w.indent - 1 } : TraceWriter).print "\x7d"

/-- Write instructions that stand one after the other. -/
def printAll (first : Nat) : Code → TraceWriter → TraceWriter
  | [], w => w
  | instruction :: rest, w =>
    printAll (first + 1) rest (w.print (Op.line first instruction.toOp))

/-- Write an event. -/
def put (w : TraceWriter) : TraceEvent → TraceWriter
  | .enter label => w.enter label
  | .emit address instruction => w.print (Op.line address instruction.toOp)
  | .leave => w.leave

/-- Write events one after the other. -/
def write (events : List TraceEvent) (w : TraceWriter) : TraceWriter := events.foldl put w

theorem write_append (first second : List TraceEvent) (w : TraceWriter) :
    w.write (first ++ second) = (w.write first).write second :=
  List.foldl_append

theorem write_emitAll (base : Nat) (code : Code) (w : TraceWriter) :
    w.write (TraceEvent.emitAll base code) = w.printAll base code := by
  induction code generalizing base w with
  | nil => rfl
  | cons instruction rest ih => exact ih (base + 1) _

theorem write_printAll (base : Nat) (code : Code) (events : List TraceEvent) (w : TraceWriter) :
    (w.printAll base code).write events = w.write (TraceEvent.emitAll base code ++ events) := by
  rw [write_append, write_emitAll]

theorem write_block (label : String) (events : List TraceEvent) (w : TraceWriter) :
    w.write (TraceEvent.block label events) =
      ((w.enter ("(" ++ label ++ ")")).write events).leave := by
  rw [TraceEvent.block, write_append]
  rfl

end TraceWriter

/-! ## Writing code -/

/-- What is written down of a list of statements: the code so far, the scope behind it,
and where it returned, if it did. -/
structure Draft where
  scope : Scope
  code : Code := []
  returned : Option Location := none
  deriving Inhabited

namespace Statement

mutual

/-- Write the code of a statement behind a draft. The first instruction of the draft
lies at the base. -/
def emit (m : Manifest) (target : DataType) (base : Nat) (draft : Draft)
    (trace : Option TraceWriter) : Statement → Except LocatedFault Draft × Option TraceWriter
  | .reference loc name dots =>
    ((effectCode m draft.scope loc name dots).map fun code =>
      { draft with code := draft.code ++ code }, trace)
  | .create loc name type value =>
    ((createCode m draft.scope loc name type value).map fun (code, scope) =>
      { draft with code := draft.code ++ code, scope }, trace)
  | .ret loc value =>
    ((returnCode m target draft.scope loc value).map fun code =>
      { draft with code := draft.code ++ code, returned := some loc }, trace)
  | .ifThen _ condition body =>
    match condition.code m draft.scope .bool with
    | .error fault => (.error fault, trace)
    | .ok (test, _) =>
      let code := draft.code ++ (test ++ [.negate])
      let trace := trace.map (·.printAll (base + draft.code.length) (code.drop draft.code.length))
      let jumpAddress := base + code.length
      match emitAll m target (jumpAddress + 1) { scope := draft.scope.start } trace body with
      | (.error fault, trace) => (.error fault, trace)
      | (.ok inner, trace) =>
        let (fresh, scope) := inner.scope.stop
        let jump := .jumpIf (jumpAddress + inner.code.length + 1)
        let last := Step.cleanup fresh
        (.ok { draft with code := code ++ jump :: inner.code ++ [last], scope },
          trace.map fun writer => (writer.printAll jumpAddress [jump]).printAll
            (jumpAddress + inner.code.length + 1) [last])
  | .forIn loc _ _ _ => (faultAt loc .forInLoop, trace)

/-- Write the code of statements behind a draft, each in a block of the trace. The code
of a branch is in the trace already when the branch is done. -/
def emitAll (m : Manifest) (target : DataType) (base : Nat) (draft : Draft)
    (trace : Option TraceWriter) : List Statement → Except LocatedFault Draft × Option TraceWriter
  | [] => (.ok draft, trace)
  | statement :: rest =>
    match draft.returned with
    | some loc => (.error ⟨statement.loc, .unreachable loc⟩, trace)
    | none =>
      match emit m target base draft
        (trace.map (·.enter ("(" ++ statement.kind.name ++ ")"))) statement with
      | (.error fault, trace) => (.error fault, trace.map TraceWriter.leave)
      | (.ok next, trace) =>
        let shown := if statement.isBranch then [] else next.code.drop draft.code.length
        emitAll m target base next
          (trace.map fun writer => (writer.printAll (base + draft.code.length) shown).leave) rest

end

end Statement

/-! ## Blocks laid out behind a draft -/

/-- What the trace of a branch shows besides its block. -/
def Step.announced (base : Nat) : Step → List TraceEvent
  | .plain .. => []
  | .branch test body fresh =>
    TraceEvent.emitAll base (test ++ [.negate])
      ++ TraceEvent.ofSteps (jumpAddress base test + 1) body
      ++ [.emit (jumpAddress base test) (.jumpIf (endAddress base test body)),
        .emit (endAddress base test body) (cleanup fresh)]

/-- The trace of a branch shows its condition and its body, and only then the jump and the end. -/
theorem TraceWriter.write_branch (base : Nat) (test : Code) (body : List Step) (fresh : Nat)
    (w : TraceWriter) :
    w.write ((Step.branch test body fresh).announced base) =
      (((w.printAll base (test ++ [.negate])).write
          (TraceEvent.ofSteps (Step.jumpAddress base test + 1) body)).printAll
        (Step.jumpAddress base test) [.jumpIf (Step.endAddress base test body)]).printAll
          (Step.endAddress base test body) [Step.cleanup fresh] := by
  rw [Step.announced, write_append, write_append, write_emitAll]
  rfl

/-- What the trace of a statement that failed shows besides its block. -/
def Progress.announced (base : Nat) : Progress → List TraceEvent
  | .done step => step.announced base
  | .failed _ => []
  | .within test body =>
    TraceEvent.emitAll base (test ++ [.negate])
      ++ TraceEvent.ofAll (Step.jumpAddress base test + 1) body

namespace Draft

/-- A draft with the code of one statement laid out behind it. -/
def add (base : Nat) (draft : Draft) (trace : Option TraceWriter) :
    Except (LocatedFault × Progress) Compiled → Except LocatedFault Draft × Option TraceWriter
  | .ok compiled =>
    (.ok ⟨compiled.scope, draft.code ++ compiled.step.assemble (base + draft.code.length),
        compiled.returned⟩,
      trace.map (·.write (compiled.step.announced (base + draft.code.length))))
  | .error (fault, progress) =>
    (.error fault, trace.map (·.write (progress.announced (base + draft.code.length))))

/-- A draft with the code of a block laid out behind it. -/
def addAll (base : Nat) (draft : Draft) (trace : Option TraceWriter) :
    Except BlockFailure Block → Except LocatedFault Draft × Option TraceWriter
  | .ok block =>
    (.ok ⟨block.scope, draft.code ++ Step.assembleAll (base + draft.code.length) block.steps,
        block.returned⟩,
      trace.map (·.write (TraceEvent.ofSteps (base + draft.code.length) block.steps)))
  | .error failure =>
    (.error failure.fault,
      trace.map (·.write (TraceEvent.ofAll (base + draft.code.length) failure.progress)))

end Draft

theorem TraceWriter.map_write_nil (trace : Option TraceWriter) :
    trace.map (·.write []) = trace := by
  cases trace <;> rfl

namespace Statement

variable {m : Manifest} {target : DataType} {base : Nat} {draft : Draft}
  {trace : Option TraceWriter}

/-- A statement without a body is laid out behind the draft. -/
theorem emit_eq_of_not_branch {statement : Statement} (h : draft.returned = none)
    (hbranch : statement.isBranch = false) :
    emit m target base draft trace statement =
      draft.add base trace (statement.compile m target draft.scope) := by
  have hsilent := (TraceWriter.map_write_nil trace).symm
  obtain ⟨scope, code, returned⟩ := draft
  cases h
  cases statement with
  | reference loc name dots =>
      rw [emit, compile]
      cases effectCode m scope loc name dots <;> exact Prod.ext rfl hsilent
  | create loc name type value =>
      rw [emit, compile]
      cases createCode m scope loc name type value <;> exact Prod.ext rfl hsilent
  | ret loc value =>
      rw [emit, compile]
      cases returnCode m target scope loc value <;> exact Prod.ext rfl hsilent
  | ifThen => cases hbranch
  | forIn loc row iterable body =>
      rw [emit, compile]
      exact Prod.ext rfl hsilent

/-- A branch is laid out behind the draft if its body is. -/
theorem emit_ifThen_eq {loc : Location} {condition : Expr} {body : List Statement}
    (h : draft.returned = none)
    (hbody : ∀ base trace, emitAll m target base { scope := draft.scope.start } trace body =
      Draft.addAll base { scope := draft.scope.start } trace
        (compileAll m target draft.scope.start none body)) :
    emit m target base draft trace (.ifThen loc condition body) =
      draft.add base trace
        ((Statement.ifThen loc condition body).compile m target draft.scope) := by
  obtain ⟨scope, code, returned⟩ := draft
  cases h
  rw [emit, compile]
  cases condition.code m scope .bool with
  | error fault => exact Prod.ext rfl (TraceWriter.map_write_nil trace).symm
  | ok found =>
      obtain ⟨test, type⟩ := found
      have hjump : base + (code ++ (test ++ [Instruction.negate])).length =
          Step.jumpAddress (base + code.length) test := by
        simp only [List.length_append, List.length_singleton, Step.jumpAddress]
        omega
      have hshown : (code ++ (test ++ [Instruction.negate])).drop code.length = test ++ [.negate] :=
        List.drop_left
      simp only [hbody, hjump, hshown]
      cases compileAll m target scope.start none body with
      | error failure =>
          refine Prod.ext rfl ?_
          cases trace with
          | none => rfl
          | some writer => exact congrArg some (TraceWriter.write_printAll _ _ _ writer)
      | ok block =>
          have hend : Step.jumpAddress (base + code.length) test +
              (Step.assembleAll (Step.jumpAddress (base + code.length) test + 1)
                block.steps).length + 1 =
              Step.endAddress (base + code.length) test block.steps := by
            rw [Step.length_assembleAll, Step.endAddress]
          simp only [Draft.addAll, List.length_nil, Nat.add_zero, List.nil_append, hend]
          refine Prod.ext (congrArg Except.ok ?_) ?_
          · simp [Step.assemble]
          · cases trace with
            | none => rfl
            | some writer =>
                exact congrArg some (TraceWriter.write_branch _ _ _ _ writer).symm

/-- The trace of a statement that failed is a block with what it announced. -/
theorem ofAll_of_compile_eq_error {statement : Statement} {scope : Scope} {fault : LocatedFault}
    {progress : Progress} (h : statement.compile m target scope = .error (fault, progress))
    (base : Nat) :
    TraceEvent.ofAll base [progress] =
      TraceEvent.block statement.kind.name (progress.announced base) := by
  have hunstarted : ∀ {α : Type} {kind : NodeKind} {result : Except LocatedFault α},
      unstarted kind result = .error (fault, progress) →
        TraceEvent.ofAll base [progress] =
          TraceEvent.block kind.name (progress.announced base) := by
    rintro α kind (found | value) herror
    · cases herror
      simp [TraceEvent.ofAll, TraceEvent.ofProgress, Progress.announced]
    · cases herror
  cases statement with
  | ifThen loc condition body =>
      rw [compile] at h
      cases htest : condition.code m scope .bool with
      | error found =>
          rw [htest] at h
          cases h
          simp [TraceEvent.ofAll, TraceEvent.ofProgress, Progress.announced, kind]
      | ok test =>
          rw [htest] at h
          cases hbody : compileAll m target scope.start none body with
          | error failure =>
              rw [hbody] at h
              cases h
              simp [TraceEvent.ofAll, TraceEvent.ofProgress, Progress.announced, kind]
          | ok block =>
              rw [hbody] at h
              cases h
  | reference | create | ret | forIn =>
      rw [compile] at h
      exact hunstarted h

/-- The trace of a statement that is done is a block with what it announced, and its code
if that was not announced. -/
theorem ofStep_of_compile_eq_ok {statement : Statement} {scope : Scope} {compiled : Compiled}
    (h : statement.compile m target scope = .ok compiled) (base : Nat) :
    TraceEvent.ofStep base compiled.step =
      TraceEvent.block statement.kind.name (compiled.step.announced base ++
        TraceEvent.emitAll base
          (if statement.isBranch then [] else compiled.step.assemble base)) := by
  rcases compile_cases h with ⟨code, hstep, hplain, _⟩ |
    ⟨loc, condition, body, test, type, block, rfl, _, _, rfl⟩
  · have hbranch : statement.isBranch = false := by cases hplain <;> rfl
    rw [hstep, hbranch]
    simp [TraceEvent.ofStep, Step.announced, Step.assemble]
  · simp [TraceEvent.ofStep, Step.announced, isBranch, kind, TraceEvent.emitAll]

/-- The first statement of a list is written in a block of its own. -/
theorem emitAll_cons_eq {statement : Statement} {rest : List Statement}
    (hfirst : ∀ trace, emit m target base ⟨draft.scope, draft.code, none⟩ trace statement =
      Draft.add base ⟨draft.scope, draft.code, none⟩ trace (statement.compile m target draft.scope))
    (hrest : ∀ draft trace, emitAll m target base draft trace rest =
      draft.addAll base trace (compileAll m target draft.scope draft.returned rest)) :
    emitAll m target base draft trace (statement :: rest) =
      draft.addAll base trace
        (compileAll m target draft.scope draft.returned (statement :: rest)) := by
  obtain ⟨scope, code, returned⟩ := draft
  cases returned with
  | some loc =>
      rw [emitAll, compileAll]
      exact Prod.ext rfl (TraceWriter.map_write_nil trace).symm
  | none =>
      rw [emitAll, compileAll]
      simp only [hfirst, hrest]
      cases hcompile : statement.compile m target scope with
      | error failure =>
          obtain ⟨fault, progress⟩ := failure
          refine Prod.ext rfl ?_
          cases trace with
          | none => rfl
          | some writer =>
              refine congrArg some ?_
              rw [ofAll_of_compile_eq_error hcompile]
              exact (TraceWriter.write_block _ _ writer).symm
      | ok first =>
          -- What is written of the first statement is its step.
          have hwrite : ∀ writer : TraceWriter, (((writer.enter
              ("(" ++ statement.kind.name ++ ")")).write
                (first.step.announced (base + code.length))).printAll (base + code.length)
                  (if statement.isBranch then []
                    else first.step.assemble (base + code.length))).leave =
              writer.write (TraceEvent.ofStep (base + code.length) first.step) := by
            intro writer
            rw [ofStep_of_compile_eq_ok hcompile, TraceWriter.write_block, TraceWriter.write_append,
              TraceWriter.write_emitAll]
          have hlength : base + (code ++ first.step.assemble (base + code.length)).length =
              base + code.length + first.step.size := by
            rw [List.length_append, Step.length_assemble, Nat.add_assoc]
          simp only [Draft.add, List.drop_left]
          cases compileAll m target first.scope first.returned rest with
          | error failure =>
              refine Prod.ext rfl ?_
              cases trace with
              | none => rfl
              | some writer =>
                  simp only [Draft.addAll, Option.map_some, hwrite, hlength]
                  rw [TraceEvent.ofAll, TraceWriter.write_append]
          | ok block =>
              refine Prod.ext (congrArg Except.ok ?_) ?_
              · simp only [hlength, Step.assembleAll, List.append_assoc]
              · cases trace with
                | none => rfl
                | some writer =>
                    simp only [Draft.addAll, Option.map_some, hwrite, hlength]
                    rw [TraceEvent.ofSteps, TraceWriter.write_append]

variable (m target)

mutual

/-- Writing a statement lays out its code behind the draft. -/
theorem emit_eq (base : Nat) (draft : Draft) (trace : Option TraceWriter) (statement : Statement)
    (h : draft.returned = none) :
    emit m target base draft trace statement =
      draft.add base trace (statement.compile m target draft.scope) := by
  cases statement with
  | ifThen loc condition body =>
      exact emit_ifThen_eq h fun base trace => emitAll_eq base _ trace body
  | reference | create | ret | forIn => exact emit_eq_of_not_branch h rfl
termination_by sizeOf statement

/-- Writing statements lays out their block behind the draft. -/
theorem emitAll_eq (base : Nat) (draft : Draft) (trace : Option TraceWriter)
    (statements : List Statement) :
    emitAll m target base draft trace statements =
      draft.addAll base trace (compileAll m target draft.scope draft.returned statements) := by
  cases statements with
  | nil =>
      rw [emitAll, compileAll]
      refine Prod.ext ?_ (TraceWriter.map_write_nil trace).symm
      simp [Draft.addAll, Step.assembleAll]
  | cons statement rest =>
      exact emitAll_cons_eq (fun trace => emit_eq base _ trace statement rfl)
        fun draft trace => emitAll_eq base draft trace rest
termination_by sizeOf statements

end

end Statement

/-! ## Functions -/

theorem TraceEvent.ofAll_map_done (base : Nat) (steps : List Step) :
    ofAll base (steps.map .done) = ofSteps base steps := by
  induction steps generalizing base with
  | nil => simp [ofAll, ofSteps]
  | cons step rest ih => rw [List.map_cons, ofAll, ofSteps, ih]

namespace Function

/-- The procedure of a function whose body is written. -/
def finishDraft (f : Function) (draft : Draft) : Except FunctionFault Procedure :=
  if draft.returned.isNone && !f.target.isNothing then
    .error (.located ⟨f.loc, .missingReturn⟩)
  else
    let procedure : Procedure :=
      { name := f.name
        code := draft.code
        highest := draft.scope.highest
        frameSize := draft.scope.count }
    match Op.verify procedure.ops with
    | .error cause => .error (.invalid cause)
    | .ok () => .ok procedure

/-- Write the code of a function, the check of its parameter first. -/
def emit (m : Manifest) (r : Registry) (f : Function) (trace : Option TraceWriter) :
    Except FunctionFault Procedure × Option TraceWriter :=
  match f.entry r with
  | .error fault => (.error (.located fault), trace)
  | .ok (prologue, scope) =>
    match Statement.emitAll m f.target 0 { scope, code := prologue }
      (trace.map (·.printAll 0 prologue)) f.body with
    | (.error fault, trace) => (.error (.located fault), trace)
    | (.ok draft, trace) => (f.finishDraft draft, trace)

/-- Compile a function in one pass. If there is a writer, it gets the trace. -/
def compileTraced (m : Manifest) (r : Registry) (f : Function) (trace : Option TraceWriter) :
    Except FunctionError Procedure × Option TraceWriter :=
  match f.emit m r (trace.map (·.enter ("(" ++ ("function " ++ f.name) ++ ")"))) with
  | (result, trace) => (result.mapError (⟨f.name, ·⟩), trace.map TraceWriter.leave)

/-- The code that is written is that of the blocks, behind the check of the parameter. -/
theorem emit_eq (m : Manifest) (r : Registry) (f : Function) (trace : Option TraceWriter) :
    f.emit m r trace = ((f.compilation m r).result, trace.map (·.write
      (TraceEvent.emitAll 0 (f.compilation m r).prologue ++
        TraceEvent.ofAll (f.compilation m r).prologue.length (f.compilation m r).progress))) := by
  rw [emit, compilation]
  cases f.entry r with
  | error fault => exact Prod.ext rfl (TraceWriter.map_write_nil trace).symm
  | ok entry =>
      obtain ⟨prologue, scope⟩ := entry
      simp only [Statement.emitAll_eq]
      cases Statement.compileAll m f.target scope none f.body with
      | error failure =>
          refine Prod.ext rfl ?_
          cases trace with
          | none => rfl
          | some writer =>
              simp only [Draft.addAll, Option.map_some, Nat.zero_add, TraceWriter.write_printAll]
      | ok block =>
          simp only [Draft.addAll, Nat.zero_add, TraceEvent.ofAll_map_done]
          refine Prod.ext rfl ?_
          cases trace with
          | none => rfl
          | some writer => simp only [Option.map_some, TraceWriter.write_printAll]

/-- One pass gives the procedure, and the writer gets the events of the trace. -/
theorem compileTraced_eq (m : Manifest) (r : Registry) (f : Function)
    (trace : Option TraceWriter) :
    f.compileTraced m r trace =
      (f.compile m r, trace.map (·.write (f.traceEvents m r))) := by
  rw [compileTraced, emit_eq]
  refine Prod.ext rfl ?_
  cases trace with
  | none => rfl
  | some writer => exact congrArg some (TraceWriter.write_block _ _ writer).symm

end Function

end StoredProc
