import StoredProc.Proofs.Compile.Emission
import StoredProc.Proofs.Compile.JumpSkeleton

/-! # Code that can be moved

Where code lies matters to its jumps only. Statements that are written behind some code
give the code they give at address zero, with every jump moved by the number of
instructions in front. It makes no difference whether these are counted by the base or
are there in the draft. Statements can also be written in parts, each behind what the
parts in front of it gave.
-/

namespace StoredProc

/-! ## Jumps that move -/

section Moving

variable {m : Manifest} {target : DataType} {scope after : Scope} {code : Code}

@[simp] theorem Instruction.shift_negate (offset : Nat) : negate.shift offset = negate := rfl

@[simp] theorem Instruction.shift_jumpIf (address offset : Nat) :
    (jumpIf address).shift offset = jumpIf (address + offset) := rfl

/-- Only jumps depend on where they lie. -/
theorem Instruction.shift_of_computes {instruction : Instruction}
    (h : instruction.Computes scope) (offset : Nat) :
    instruction.shift offset = instruction := by
  cases instruction with
  | jumpIf address => exact h.elim
  | _ => rfl

/-- The code of an expression is the same everywhere. -/
theorem Code.Computes.map_shift (h : code.Computes scope) (offset : Nat) :
    code.map (Instruction.shift offset) = code := by
  induction code with
  | nil => rfl
  | cons instruction rest ih =>
      obtain ⟨hfirst, hrest⟩ := Code.Computes.cons.mp h
      rw [List.map_cons, Instruction.shift_of_computes hfirst, ih hrest]

/-- The code of a statement without a body is the same everywhere. -/
theorem Plain.map_shift {statement : Statement}
    (h : Plain m target scope statement code after) (offset : Nat) :
    code.map (Instruction.shift offset) = code := by
  cases h with
  | effect hcode => exact (Expr.code_computes hcode).map_shift offset
  | create hcode hadd =>
      rw [List.map_append, (Expr.code_computes hcode).map_shift]
      rfl
  | bareReturn => rfl
  | valueReturn htarget hcode =>
      rw [List.map_append, (Expr.code_computes hcode).map_shift]
      rfl

theorem Step.shift_cleanup (fresh offset : Nat) :
    (Step.cleanup fresh).shift offset = Step.cleanup fresh := by
  cases fresh <;> rfl

theorem Step.jumpAddress_add (base offset : Nat) (test : Code) :
    jumpAddress (base + offset) test = jumpAddress base test + offset := by
  unfold jumpAddress
  omega

theorem Step.endAddress_add (base offset : Nat) (test : Code) (body : List Step) :
    endAddress (base + offset) test body = endAddress base test body + offset := by
  unfold endAddress
  rw [jumpAddress_add]
  omega

/-- Accepted statements that lie further back have the same code, with their jumps
moved. -/
theorem Lowering.assembleAll_add {final : Scope} {statements : List Statement}
    {steps : List Step} (h : Lowering m target scope statements steps final)
    (base offset : Nat) :
    Step.assembleAll (base + offset) steps =
      (Step.assembleAll base steps).map (Instruction.shift offset) := by
  induction h generalizing base with
  | done => rfl
  | plain _ hplain _ _ ih =>
      simp only [Step.assembleAll, Step.assemble, List.map_append, hplain.map_shift,
        Nat.add_right_comm base offset, ih]
  | @branch _ _ _ _ _ _ test _ _ _ _ htest _ _ _ hinner hrest =>
      -- The body starts behind the jump, so it moves by as much as the branch does.
      have hbody := hinner (Step.jumpAddress base test + 1)
      rw [Nat.add_right_comm] at hbody
      simp only [Step.assembleAll, Step.assemble, List.map_append, List.map_cons, List.map_nil,
        Step.jumpAddress_add, Step.endAddress_add, Nat.add_right_comm base offset, hbody, hrest,
        (Expr.code_computes htest).map_shift, Step.shift_cleanup,
        Instruction.shift_negate, Instruction.shift_jumpIf]

end Moving

/-! ## Writing in parts -/

/-- A draft from address zero, put behind other code with a base of its own. -/
def Draft.relocate (base : Nat) (code : Code) (draft : Draft) : Draft :=
  { draft with code := code ++ draft.code.map (Instruction.shift (base + code.length)) }

namespace Statement

variable {m : Manifest} {target : DataType}

/-- The code that is written is that of the block, laid out behind the code that is there
already. -/
theorem emitAll_fst (base : Nat) (scope : Scope) (code : Code) (trace : Option TraceWriter)
    (statements : List Statement) :
    (emitAll m target base { scope, code } trace statements).1 =
      ((compileAll m target scope none statements).mapError BlockFailure.fault).map
        fun block => ⟨block.scope, code ++ Step.assembleAll (base + code.length) block.steps,
          block.returned⟩ := by
  rw [emitAll_eq]
  cases compileAll m target scope none statements <;> rfl

/-- A block behind other code is the block at address zero, relocated. -/
theorem relocate_assembleAll {scope : Scope} {statements : List Statement} {block : Block}
    (h : compileAll m target scope none statements = .ok block) (base : Nat) (code : Code) :
    Draft.relocate base code ⟨block.scope, Step.assembleAll 0 block.steps, block.returned⟩ =
      ⟨block.scope, code ++ Step.assembleAll (base + code.length) block.steps,
        block.returned⟩ := by
  have hmoved := (lowering_of_compileAll h).assembleAll_add 0 (base + code.length)
  rw [Nat.zero_add] at hmoved
  rw [hmoved, Draft.relocate]

/-- Statements are written one part after the other. -/
theorem emitAll_append (base : Nat) (draft : Draft) (trace : Option TraceWriter)
    (first second : List Statement) :
    emitAll m target base draft trace (first ++ second) =
      match emitAll m target base draft trace first with
      | (.error fault, trace) => (.error fault, trace)
      | (.ok next, trace) => emitAll m target base next trace second := by
  induction first generalizing draft trace with
  | nil => rw [List.nil_append, emitAll.eq_1]
  | cons statement rest ih =>
      obtain ⟨scope, code, returned⟩ := draft
      cases returned with
      | some loc => rw [List.cons_append, emitAll, emitAll]
      | none =>
          rw [List.cons_append, emitAll, emitAll]
          simp only [ih]
          -- Both sides now go on from what the first statement gave.
          generalize emit m target base ⟨scope, code, none⟩ _ statement = written
          obtain ⟨_ | next, trace⟩ := written <;> rfl

/-- The code of statements can be written anywhere: it is that of their block, laid out
behind the code that is there. It comes out as at address zero, with the same scope and
the same return or the same fault, and only its jumps are moved. If the statements do not
return, others can be written behind what they gave. -/
theorem emitAll_relocatable (m : Manifest) (target : DataType) (scope : Scope) (base : Nat)
    (code : Code) (trace : Option TraceWriter) (statements more : List Statement) :
    (emitAll m target base { scope, code } trace statements).1 =
        ((compileAll m target scope none statements).mapError BlockFailure.fault).map
          (fun block => ⟨block.scope, code ++ Step.assembleAll (base + code.length) block.steps,
            block.returned⟩) ∧
      (emitAll m target base { scope, code } trace statements).1 =
        (emitAll m target 0 { scope } none statements).1.map (Draft.relocate base code) ∧
      ∀ draft, (emitAll m target base { scope, code } trace statements).1 = .ok draft →
        draft.returned = none →
          emitAll m target base { scope, code } trace (statements ++ more) =
            emitAll m target base { scope := draft.scope, code := draft.code }
              (emitAll m target base { scope, code } trace statements).2 more := by
  refine ⟨emitAll_fst base scope code trace statements, ?_, ?_⟩
  · rw [emitAll_fst, emitAll_fst]
    cases hblock : compileAll m target scope none statements with
    | error failure => rfl
    | ok block => exact congrArg Except.ok (relocate_assembleAll hblock base code).symm
  · rintro ⟨after, written, returned⟩ hdraft hreturned
    cases hreturned
    rw [emitAll_append, ← Prod.eta (emitAll m target base { scope, code } trace statements),
      hdraft]

end Statement

/-- The scope at the start of a function of a flag. -/
def Scope.ofFlag : Scope where
  bindings := [("flag", ⟨0, .bool⟩)]
  level := ["flag"]
  count := 1

namespace Statement

/-- A branch within a branch, behind a variable. -/
def nestedBranch : List Statement :=
  [.create {} "a" .int (.number {} "1"),
    .ifThen {} .flag [.ifThen {} .flag [.create {} "b" .int (.number {} "2")]]]

/-- What is written of them from address seven on, behind two instructions. -/
def nestedBranchDraft : Except LocatedFault Draft × Option TraceWriter :=
  emitAll {} .int 5 { scope := .ofFlag, code := [.noop, .noop] } (some {}) nestedBranch

/-- Both jumps are written for where they lie in the end. -/
theorem emitAll_relocatable_nestedBranch :
    ∃ draft, nestedBranchDraft.1 = .ok draft ∧ draft.returned = none ∧
      draft.code = [.noop, .noop, .int 1, .moveToHeap, .copyFromHeap 0, .negate, .jumpIf 18,
        .copyFromHeap 0, .negate, .jumpIf 17, .int 2, .moveToHeap, .truncateHeap 1, .noop] ∧
      emitAll {} .int 5 { scope := .ofFlag, code := [.noop, .noop] } (some {})
          (nestedBranch ++ [.ret {} (some (.reference {} "a" []))]) =
        emitAll {} .int 5 { scope := draft.scope, code := draft.code } nestedBranchDraft.2
          [.ret {} (some (.reference {} "a" []))] := by
  have hwritten : nestedBranchDraft.1.toOption.map (fun draft => (draft.returned, draft.code)) =
      some (none, [.noop, .noop, .int 1, .moveToHeap, .copyFromHeap 0, .negate, .jumpIf 18,
        .copyFromHeap 0, .negate, .jumpIf 17, .int 2, .moveToHeap, .truncateHeap 1, .noop]) := by
    decide +kernel
  cases hdraft : nestedBranchDraft.1 with
  | error fault =>
      rw [hdraft] at hwritten
      cases hwritten
  | ok draft =>
      rw [hdraft] at hwritten
      obtain ⟨hreturned, hcode⟩ := Prod.mk.inj (Option.some.inj hwritten)
      exact ⟨draft, rfl, hreturned, hcode,
        (emitAll_relocatable {} .int .ofFlag 5 [.noop, .noop] (some {}) nestedBranch _).2.2 draft
          hdraft hreturned⟩

end Statement

end StoredProc
