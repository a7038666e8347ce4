import StoredProc.Proofs.Compile.Emission
import StoredProc.Proofs.Compile.JumpSkeleton
import StoredProc.Proofs.Machine.ListingLines

/-! # Traces line by line

A trace does not change what a function is compiled to. Whatever comes of the function,
every block of its trace is closed, so the writer ends at the depth where it started. If
there is a procedure, its listing is in the trace: every address stands on one line, and
without the marks of the open blocks that line is the one of the listing.

The jump of a branch is shown behind the body, so the lines are not in the order of the
listing.
-/

namespace StoredProc

namespace TraceEvent

/-! ## Closed blocks -/

/-- Events in which every block is closed. All labels of blocks have a property. -/
inductive Balanced (IsLabel : String → Prop) : List TraceEvent → Prop
  | nil : Balanced IsLabel []
  | emit (address : Nat) (instruction : Instruction) {rest : List TraceEvent}
      (hrest : Balanced IsLabel rest) : Balanced IsLabel (.emit address instruction :: rest)
  | block {label : String} (hlabel : IsLabel label) {events rest : List TraceEvent}
      (hevents : Balanced IsLabel events) (hrest : Balanced IsLabel rest) :
      Balanced IsLabel (TraceEvent.block label events ++ rest)

theorem block_append (label : String) (events rest : List TraceEvent) :
    block label events ++ rest = .enter ("(" ++ label ++ ")") :: (events ++ .leave :: rest) := by
  simp [block]

namespace Balanced

variable {IsLabel : String → Prop} {events first second : List TraceEvent}

theorem append (hfirst : Balanced IsLabel first) (hsecond : Balanced IsLabel second) :
    Balanced IsLabel (first ++ second) := by
  induction hfirst with
  | nil => exact hsecond
  | emit address instruction _ ih => exact .emit address instruction ih
  | block hlabel hevents _ _ ih =>
      rw [List.append_assoc]
      exact .block hlabel hevents ih

theorem of_block {label : String} (hlabel : IsLabel label) (h : Balanced IsLabel events) :
    Balanced IsLabel (TraceEvent.block label events) := by
  rw [← List.append_nil (TraceEvent.block label events)]
  exact .block hlabel h .nil

theorem emitAll (base : Nat) (code : Code) : Balanced IsLabel (TraceEvent.emitAll base code) := by
  induction code generalizing base with
  | nil => exact .nil
  | cons instruction rest ih => exact .emit base instruction (ih (base + 1))

end Balanced

mutual

/-- The block of a statement is closed, and so are those in its body. -/
theorem balanced_ofStep {IsLabel : String → Prop} (hkinds : ∀ kind : NodeKind, IsLabel kind.name)
    (base : Nat) (step : Step) : Balanced IsLabel (ofStep base step) := by
  cases step with
  | plain kind code =>
      rw [ofStep]
      exact .of_block (hkinds kind) (.emitAll base code)
  | branch test body fresh =>
      rw [ofStep]
      have hbody := balanced_ofSteps hkinds (Step.jumpAddress base test + 1) body
      exact .of_block (hkinds _)
        (((Balanced.emitAll base _).append hbody).append (.emit _ _ (.emit _ _ .nil)))
termination_by sizeOf step

/-- The blocks of statements are closed one after the other. -/
theorem balanced_ofSteps {IsLabel : String → Prop} (hkinds : ∀ kind : NodeKind, IsLabel kind.name)
    (base : Nat) (steps : List Step) : Balanced IsLabel (ofSteps base steps) := by
  cases steps with
  | nil =>
      rw [ofSteps]
      exact .nil
  | cons step rest =>
      rw [ofSteps]
      exact (balanced_ofStep hkinds base step).append (balanced_ofSteps hkinds _ rest)
termination_by sizeOf steps

end

mutual

/-- The block of a statement that failed is closed all the same. -/
theorem balanced_ofProgress {IsLabel : String → Prop}
    (hkinds : ∀ kind : NodeKind, IsLabel kind.name) (base : Nat) (progress : Progress) :
    Balanced IsLabel (ofProgress base progress) := by
  cases progress with
  | done step =>
      rw [ofProgress]
      exact balanced_ofStep hkinds base step
  | failed kind =>
      rw [ofProgress]
      exact .of_block (hkinds kind) .nil
  | within test body =>
      rw [ofProgress]
      have hbody := balanced_ofAll hkinds (Step.jumpAddress base test + 1) body
      exact .of_block (hkinds _) ((Balanced.emitAll base _).append hbody)
termination_by sizeOf progress

/-- Every block is closed, also those in which a statement failed. -/
theorem balanced_ofAll {IsLabel : String → Prop} (hkinds : ∀ kind : NodeKind, IsLabel kind.name)
    (base : Nat) (progress : List Progress) : Balanced IsLabel (ofAll base progress) := by
  cases progress with
  | nil =>
      rw [ofAll]
      exact .nil
  | cons first rest =>
      have hfirst := balanced_ofProgress hkinds base first
      cases first with
      | done step =>
          rw [ofAll]
          exact (balanced_ofStep hkinds base step).append (balanced_ofAll hkinds _ rest)
      | failed | within =>
          rw [ofAll]
          · exact hfirst.append (balanced_ofAll hkinds base rest)
          · intro step hstep
            cases hstep
termination_by sizeOf progress

end

/-! ## Lines -/

/-- What a line of a trace shows behind its marks. -/
def shown : TraceEvent → String
  | .enter label => label ++ " \x7b"
  | .emit address instruction => Op.line address instruction.toOp
  | .leave => "\x7d"

/-- A text behind a mark for every open block. -/
def marked (depth : Nat) (text : String) : String :=
  String.join (List.replicate depth ". ") ++ text

/-- The lines of a trace inside a number of open blocks. -/
def linesFrom (depth : Nat) : List TraceEvent → List String
  | [] => []
  | .enter label :: rest => marked depth (enter label).shown :: linesFrom (depth + 1) rest
  | .emit address instruction :: rest =>
    marked depth (emit address instruction).shown :: linesFrom depth rest
  | .leave :: rest => marked (depth - 1) leave.shown :: linesFrom (depth - 1) rest

theorem textFrom_eq_join (depth : Nat) (events : List TraceEvent) :
    textFrom depth events = String.join ((linesFrom depth events).map (· ++ "\n")) := by
  induction events generalizing depth with
  | nil => rfl
  | cons event rest ih =>
      cases event <;> rw [textFrom, linesFrom, List.map_cons, String.join_cons, ih] <;> rfl

end TraceEvent

namespace TraceWriter

variable (depth : Nat) (text : String)

theorem enter_eq (label : String) :
    enter label { text, indent := depth } =
      { text := text ++ (TraceEvent.marked depth (TraceEvent.enter label).shown ++ "\n"),
        indent := (depth + 1 : Nat) } := rfl

theorem leave_eq :
    leave { text, indent := (depth + 1 : Nat) } =
      { text := text ++ (TraceEvent.marked depth TraceEvent.leave.shown ++ "\n"),
        indent := depth } := by
  rw [leave, print, Int.natCast_succ, Int.add_sub_cancel]
  rfl

end TraceWriter

namespace TraceEvent

variable {IsLabel : String → Prop} {events : List TraceEvent}

namespace Balanced

/-- Behind closed blocks the depth is as before them. -/
theorem linesFrom_append (h : Balanced IsLabel events) (depth : Nat) (more : List TraceEvent) :
    linesFrom depth (events ++ more) = linesFrom depth events ++ linesFrom depth more := by
  induction h generalizing depth more with
  | nil => rfl
  | emit address instruction _ ih => exact congrArg (_ :: ·) (ih depth more)
  | block hlabel _ _ hevents hrest =>
      simp only [List.append_assoc, block_append, linesFrom, hevents, hrest, List.cons_append,
        Nat.add_sub_cancel]

/-- The lines of a block stand between its label and its end, one mark further in. -/
theorem linesFrom_block (h : Balanced IsLabel events) (depth : Nat) (label : String)
    (rest : List TraceEvent) :
    linesFrom depth (TraceEvent.block label events ++ rest) =
      marked depth (enter ("(" ++ label ++ ")")).shown :: linesFrom (depth + 1) events ++
        marked depth leave.shown :: linesFrom depth rest := by
  rw [block_append, linesFrom, h.linesFrom_append, linesFrom, Nat.add_sub_cancel,
    List.cons_append]

/-- A writer writes the lines of closed blocks and ends at the depth where it started. -/
theorem write_eq (h : Balanced IsLabel events) (depth : Nat) (text : String) :
    TraceWriter.write events { text, indent := depth } =
      { text := text ++ String.join ((linesFrom depth events).map (· ++ "\n")),
        indent := depth } := by
  induction h generalizing depth text with
  | nil => simp [TraceWriter.write, linesFrom]
  | emit address instruction _ ih =>
      rw [linesFrom, List.map_cons, String.join_cons, ← String.append_assoc]
      exact ih depth _
  | block hlabel hbalanced _ hevents hrest =>
      rw [TraceWriter.write_append, TraceWriter.write_block, TraceWriter.enter_eq, hevents,
        TraceWriter.leave_eq, hrest, hbalanced.linesFrom_block]
      simp [String.append_assoc]

end Balanced

/-! ## Marks -/

def dropMarks : List Char → List Char
  | '.' :: ' ' :: rest => dropMarks rest
  | text => text

/-- A line without its marks. -/
def unmarked (line : String) : String := String.ofList (dropMarks line.toList)

theorem dropMarks_marked (depth : Nat) (text : String) :
    dropMarks (marked depth text).toList = dropMarks text.toList := by
  induction depth with
  | zero => simp [marked]
  | succ depth ih =>
      have hmark : (marked (depth + 1) text).toList = '.' :: ' ' :: (marked depth text).toList := by
        simp [marked, List.replicate_succ]
      rw [hmark, dropMarks, ih]

/-- A text that does not start with a dot is what is left without the marks. -/
theorem unmarked_marked {text : String} {first : Char} {rest : List Char}
    (h : text.toList = first :: rest) (hfirst : first ≠ '.') (depth : Nat) :
    unmarked (marked depth text) = text := by
  have hkept : dropMarks (first :: rest) = first :: rest := by
    rw [dropMarks]
    rintro more heq
    exact hfirst (List.cons.inj heq).1
  rw [unmarked, dropMarks_marked, h, hkept, ← h, String.ofList_toList]

theorem shown_enter (label : String) :
    (enter ("(" ++ label ++ ")")).shown.toList = '(' :: (label ++ ") \x7b").toList := by
  simp [shown]

/-- Without the marks, the lines are what the events show. -/
theorem Balanced.map_unmarked (h : Balanced IsLabel events) (depth : Nat) :
    (linesFrom depth events).map unmarked = events.map shown := by
  induction h generalizing depth with
  | nil => rfl
  | emit address instruction _ ih =>
      obtain ⟨first, rest, hline, hdigit⟩ := Op.exists_toList_line address instruction.toOp
      have hfirst : first ≠ '.' := by
        rintro rfl
        cases hdigit
      have hshown : (TraceEvent.emit address instruction).shown.toList = first :: rest := hline
      rw [linesFrom, List.map_cons, List.map_cons, ih, unmarked_marked hshown hfirst]
  | @block label _ events rest hbalanced _ hevents hrest =>
      rw [hbalanced.linesFrom_block, List.map_append, List.map_cons, List.map_cons, hevents, hrest,
        unmarked_marked (shown_enter label) (by decide), unmarked_marked rfl (by decide),
        block_append, List.map_cons, List.map_append, List.map_cons, List.cons_append]

/-! ## Instructions in a trace -/

/-- The instruction that an event shows, with its address. -/
def emission? : TraceEvent → Option (Instruction × Nat)
  | .emit address instruction => some (instruction, address)
  | _ => none

theorem emission?_emitAll (base : Nat) (code : Code) :
    (emitAll base code).filterMap emission? = code.zipIdx base := by
  induction code generalizing base with
  | nil => rfl
  | cons instruction rest ih => exact congrArg (_ :: ·) (ih (base + 1))

theorem emission?_block (label : String) (events : List TraceEvent) :
    (block label events).filterMap emission? = events.filterMap emission? := by
  simp [block, List.filterMap_cons, emission?]

/-- The addresses in the code of a branch. -/
theorem zipIdx_assemble_branch (base : Nat) (test : Code) (body : List Step) (fresh : Nat) :
    (Step.assemble base (.branch test body fresh)).zipIdx base =
      (test ++ [Instruction.negate]).zipIdx base ++
        (.jumpIf (Step.endAddress base test body), Step.jumpAddress base test) ::
          ((Step.assembleAll (Step.jumpAddress base test + 1) body).zipIdx
              (Step.jumpAddress base test + 1) ++
            [(Step.cleanup fresh, Step.endAddress base test body)]) := by
  have hjump : base + (test ++ [Instruction.negate]).length = Step.jumpAddress base test := by
    simp [Step.jumpAddress, Nat.add_assoc]
  have hend : Step.jumpAddress base test + 1 + Step.sizes body =
      Step.endAddress base test body := by
    rw [Step.endAddress, Nat.add_right_comm]
  have hcode : Step.assemble base (.branch test body fresh) = test ++ [Instruction.negate] ++
      .jumpIf (Step.endAddress base test body) ::
        (Step.assembleAll (Step.jumpAddress base test + 1) body ++ [Step.cleanup fresh]) := by
    simp [Step.assemble]
  have hbody : (Step.assembleAll (Step.jumpAddress base test + 1) body ++
      [Step.cleanup fresh]).zipIdx (Step.jumpAddress base test + 1) =
      (Step.assembleAll (Step.jumpAddress base test + 1) body).zipIdx
          (Step.jumpAddress base test + 1) ++
        [(Step.cleanup fresh, Step.endAddress base test body)] := by
    rw [List.zipIdx_append, Step.length_assembleAll, hend, List.zipIdx_singleton]
  rw [hcode, List.zipIdx_append, hjump, List.zipIdx_cons, hbody]

/-- The jump of a branch is shown behind the body. -/
theorem emission?_branch (base : Nat) (test : Code) (body : List Step) (fresh : Nat) :
    (ofStep base (.branch test body fresh)).filterMap emission? =
      (test ++ [Instruction.negate]).zipIdx base ++
        ((ofSteps (Step.jumpAddress base test + 1) body).filterMap emission? ++
          [(.jumpIf (Step.endAddress base test body), Step.jumpAddress base test),
            (Step.cleanup fresh, Step.endAddress base test body)]) := by
  rw [ofStep, emission?_block, List.filterMap_append, List.filterMap_append, emission?_emitAll,
    List.append_assoc]
  rfl

mutual

/-- The trace of a statement shows its code, though not in the order of the addresses. -/
theorem emissions_ofStep (base : Nat) (step : Step) :
    ((ofStep base step).filterMap emission?).Perm ((step.assemble base).zipIdx base) := by
  cases step with
  | plain kind code => rw [ofStep, emission?_block, emission?_emitAll, Step.assemble]
  | branch test body fresh =>
      have hbody := emissions_ofSteps (Step.jumpAddress base test + 1) body
      rw [emission?_branch, zipIdx_assemble_branch]
      exact ((hbody.append_right _).trans List.perm_middle).append_left _
termination_by sizeOf step

/-- The trace of statements shows their code, but not in its order. -/
theorem emissions_ofSteps (base : Nat) (steps : List Step) :
    ((ofSteps base steps).filterMap emission?).Perm
      ((Step.assembleAll base steps).zipIdx base) := by
  cases steps with
  | nil =>
      rw [ofSteps, Step.assembleAll]
      exact .nil
  | cons step rest =>
      have hrest := emissions_ofSteps (base + step.size) rest
      rw [ofSteps, Step.assembleAll, List.filterMap_append, List.zipIdx_append,
        Step.length_assemble]
      exact (emissions_ofStep base step).append hrest
termination_by sizeOf steps

end

/-- Only the lines of instructions have addresses. -/
theorem Balanced.filter_isAt (h : Balanced IsLabel events) (address : Nat) :
    (events.map shown).filter (Op.isAt address) =
      ((events.filterMap emission?).map fun entry => Op.line entry.2 entry.1.toOp).filter
        (Op.isAt address) := by
  induction h with
  | nil => rfl
  | emit other instruction _ ih =>
      simp only [List.map_cons, List.filterMap_cons, emission?, shown, List.filter_cons, ih]
  | @block label _ events rest _ _ hevents hrest =>
      have henter : Op.isAt address (TraceEvent.enter ("(" ++ label ++ ")")).shown = false :=
        Op.isAt_eq_false (shown_enter label) (by decide)
      have hleave : Op.isAt address TraceEvent.leave.shown = false :=
        Op.isAt_eq_false rfl (by decide)
      have hshown : ((TraceEvent.block label events ++ rest).map shown).filter (Op.isAt address) =
          (events.map shown).filter (Op.isAt address) ++
            (rest.map shown).filter (Op.isAt address) := by
        rw [block_append, List.map_cons, List.map_append, List.map_cons,
          List.filter_cons_of_neg (by simp [henter]), List.filter_append,
          List.filter_cons_of_neg (by simp [hleave])]
      rw [hshown, List.filterMap_append, emission?_block, List.map_append, List.filter_append,
        hevents, hrest]

theorem oneLine_marked {text : String} (h : OneLine text) (depth : Nat) :
    OneLine (marked depth text) := by
  refine oneLine_append.mpr ⟨?_, h⟩
  induction depth with
  | zero => decide
  | succ depth ih =>
      rw [List.replicate_succ, String.join_cons]
      exact oneLine_append.mpr ⟨by decide, ih⟩

/-- Closed blocks with labels of one line have only lines of one line. -/
theorem Balanced.oneLine (h : Balanced IsLabel events)
    (hlabels : ∀ label, IsLabel label → OneLine label) (depth : Nat) :
    ∀ line ∈ linesFrom depth events, OneLine line := by
  induction h generalizing depth with
  | nil => simp [linesFrom]
  | emit address instruction _ ih =>
      rw [linesFrom, List.forall_mem_cons]
      exact ⟨oneLine_marked (Op.oneLine_line address instruction) depth, ih depth⟩
  | block hlabel hbalanced _ hevents hrest =>
      rw [hbalanced.linesFrom_block, List.cons_append, List.forall_mem_cons,
        List.forall_mem_append, List.forall_mem_cons]
      refine ⟨oneLine_marked ?_ depth, hevents _, oneLine_marked (by decide) depth, hrest depth⟩
      simp only [shown, oneLine_append]
      exact ⟨⟨⟨by decide, hlabels _ hlabel⟩, by decide⟩, by decide⟩

end TraceEvent

/-! ## Traces of functions -/

namespace Function

/-- The labels in the trace of a function. -/
def IsTraceLabel (f : Function) (label : String) : Prop :=
  label = "function " ++ f.name ∨ ∃ kind : NodeKind, label = kind.name

/-- The lines of the trace of a function. -/
def traceLines (m : Manifest) (r : Registry) (f : Function) : List String :=
  TraceEvent.linesFrom 0 (f.traceEvents m r)

/-- The trace of every function closes its blocks, whether it compiles or not. -/
theorem balanced_traceEvents (m : Manifest) (r : Registry) (f : Function) :
    TraceEvent.Balanced f.IsTraceLabel (f.traceEvents m r) := by
  have hkinds : ∀ kind : NodeKind, f.IsTraceLabel kind.name := fun kind => .inr ⟨kind, rfl⟩
  have hbody := TraceEvent.balanced_ofAll hkinds (f.compilation m r).prologue.length
    (f.compilation m r).progress
  exact .of_block (.inl rfl) ((TraceEvent.Balanced.emitAll 0 _).append hbody)

theorem oneLine_of_isTraceLabel {f : Function} (hname : OneLine f.name) (label : String)
    (h : f.IsTraceLabel label) : OneLine label := by
  rcases h with rfl | ⟨kind, rfl⟩
  · exact oneLine_append.mpr ⟨by decide, hname⟩
  · cases kind <;> decide

/-- The trace of an accepted function shows the code of its procedure. -/
theorem emissions_traceEvents {m : Manifest} {r : Registry} {f : Function} {p : Procedure}
    (h : f.compile m r = .ok p) :
    ((f.traceEvents m r).filterMap TraceEvent.emission?).Perm p.code.zipIdx := by
  obtain ⟨prologue, scope, block, haccepted⟩ := exists_accepted h
  have hwork : (f.compilation m r).prologue = prologue ∧
      (f.compilation m r).progress = block.steps.map .done := by
    simp [compilation, haccepted.entry_eq, haccepted.body_compile]
  rw [traceEvents, hwork.1, hwork.2, TraceEvent.ofAll_map_done, TraceEvent.emission?_block,
    List.filterMap_append, TraceEvent.emission?_emitAll, haccepted.code_eq, List.zipIdx_append,
    Nat.zero_add]
  exact (TraceEvent.emissions_ofSteps prologue.length block.steps).append_left _

/-- The lines with an address are the line of the listing with this address. -/
theorem filter_isAt_traceLines {m : Manifest} {r : Registry} {f : Function} {p : Procedure}
    (h : f.compile m r = .ok p) (address : Nat) :
    ((f.traceLines m r).map TraceEvent.unmarked).filter (Op.isAt address) =
      (Op.lines p.ops)[address]?.toList := by
  have hbalanced := balanced_traceEvents m r f
  have hlines : (p.code.zipIdx.map fun entry => Op.line entry.2 entry.1.toOp) = Op.lines p.ops := by
    rw [Op.lines, Procedure.ops, List.zipIdx_map, List.map_map]
    rfl
  have hperm := ((emissions_traceEvents h).map fun entry =>
    Op.line entry.2 entry.1.toOp).filter (Op.isAt address)
  rw [hlines, Op.filter_isAt_lines, ← hbalanced.filter_isAt, ← hbalanced.map_unmarked 0] at hperm
  cases hline : (Op.lines p.ops)[address]? with
  | none =>
      rw [hline] at hperm
      exact hperm.eq_nil
  | some line =>
      rw [hline] at hperm
      exact hperm.eq_singleton

/-- A trace leaves the result of a function as it is. Whatever the result, every block of
the trace is closed and the writer ends without open blocks. The trace consists of lines;
those of instructions, without their marks, are the lines of the listing, each of them
once. A line is one line of the text unless the name of the function is not. -/
theorem trace_faithful (m : Manifest) (r : Registry) (f : Function) :
    (∀ trace, (f.compileTraced m r trace).1 = f.compile m r) ∧
      (f.compileTraced m r (some {})).2 = some { text := f.trace m r, indent := 0 } ∧
      TraceEvent.Balanced f.IsTraceLabel (f.traceEvents m r) ∧
      f.trace m r = String.join ((f.traceLines m r).map (· ++ "\n")) ∧
      (OneLine f.name → ∀ line ∈ f.traceLines m r, OneLine line) ∧
      ∀ p, f.compile m r = .ok p →
        Op.listing p.ops = String.join ((Op.lines p.ops).map (· ++ "\n")) ∧
        ∀ address, ((f.traceLines m r).map TraceEvent.unmarked).filter (Op.isAt address) =
          (Op.lines p.ops)[address]?.toList := by
  have hbalanced := balanced_traceEvents m r f
  have htext : f.trace m r = String.join ((f.traceLines m r).map (· ++ "\n")) :=
    TraceEvent.textFrom_eq_join 0 _
  refine ⟨fun trace => by rw [compileTraced_eq], ?_, hbalanced, htext, ?_, ?_⟩
  · rw [compileTraced_eq, htext]
    have hwrite := hbalanced.write_eq 0 ""
    rw [String.empty_append] at hwrite
    exact congrArg some hwrite
  · exact fun hname => hbalanced.oneLine (oneLine_of_isTraceLabel hname) 0
  · exact fun p hp => ⟨Op.listing_eq_join p.ops, filter_isAt_traceLines hp⟩

/-- The jump of the outer branch is shown once, with the address behind its body. -/
theorem trace_faithful_nestedBranches :
    OneLine nestedBranches.name ∧ (∀ line ∈ nestedBranches.traceLines {} .ofFlag, OneLine line) ∧
      ∃ p, nestedBranches.compile {} .ofFlag = .ok p ∧
        ((nestedBranches.traceLines {} .ofFlag).map TraceEvent.unmarked).filter (Op.isAt 3) =
          ["0003 conditionalGoto 12"] := by
  have hline : ((nestedBranches.compile {} .ofFlag).toOption.bind fun p => (Op.lines p.ops)[3]?) =
      some "0003 conditionalGoto 12" := by
    decide +kernel
  have hname : OneLine nestedBranches.name := by decide
  obtain ⟨-, -, -, -, hlines, hlisting⟩ := trace_faithful {} .ofFlag nestedBranches
  refine ⟨hname, hlines hname, ?_⟩
  cases hcompile : nestedBranches.compile {} .ofFlag with
  | error fault =>
      rw [hcompile] at hline
      cases hline
  | ok p =>
      rw [hcompile] at hline
      refine ⟨p, rfl, ?_⟩
      rw [(hlisting p hcompile).2 3]
      exact congrArg Option.toList hline

end Function

end StoredProc
