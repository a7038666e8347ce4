import StoredProc.Proofs.Compile.JumpSkeleton
import StoredProc.Proofs.Machine.Flow

/-! # Control through compiled statements

Control goes through the code of a procedure from front to back. It can leave the
code of a list of statements only at its end, so a way across a branch either
jumps over the body or runs through all of it. Expressions are straight-line code
that leaves the heap alone.
-/

namespace StoredProc

/-! ## Straight-line code -/

/-- What an expression is compiled to neither jumps nor touches the heap. -/
theorem Instruction.Computes.isStraight {scope : Scope} {instruction : Instruction}
    (h : instruction.Computes scope) : instruction.isStraight = true := by
  cases instruction with
  | returnTop | jumpIf | moveToHeap | truncateHeap => exact h.elim
  | _ => rfl

/-- A jump over a body that declares variables. -/
def Transit.Drops (code : Code) (t : Transit) : Prop :=
  t.jumped = true ∧ ∃ goal count, code[t.address]? = some (.jumpIf goal) ∧
    code[goal]? = some (.truncateHeap count)

/-- A way on which such a jump is taken. -/
def Code.Loses (code : Code) (transits : List Transit) : Prop := ∃ t ∈ transits, t.Drops code

/-- Code that control runs through, and that leaves the heap alone. -/
def Code.Straight (part : Code) : Prop := ∀ instruction ∈ part, instruction.isStraight = true

namespace Code

variable {code part : Code} {base : Nat}

@[simp]
theorem loses_nil : ¬ code.Loses [] := by simp [Loses]

@[simp]
theorem loses_cons {t : Transit} {transits : List Transit} :
    code.Loses (t :: transits) ↔ t.Drops code ∨ code.Loses transits := by
  simp [Loses]

@[simp]
theorem loses_append {first second : List Transit} :
    code.Loses (first ++ second) ↔ code.Loses first ∨ code.Loses second := by
  simp [Loses, or_and_right, exists_or]

theorem not_loses_of_entering {transits : List Transit} (h : Entering transits) :
    ¬ code.Loses transits := by
  rintro ⟨t, ht, hjumped, _⟩
  rw [h t ht] at hjumped
  cases hjumped

theorem Computes.straight {scope : Scope} (h : part.Computes scope) : part.Straight :=
  fun instruction hmem => (h instruction hmem).isStraight

/-- Control leaves straight code at its end only. -/
theorem Lies.closed (h : code.Lies base part) (hstraight : part.Straight) :
    code.Closed base (base + part.length) := by
  intro address next instruction jumped hle hlt hinstruction hnext
  obtain ⟨found, hmem, hfound⟩ := h.exists_mem hle hlt
  rw [hinstruction, Option.some.injEq] at hfound
  subst hfound
  rw [Instruction.next?_of_isStraight (hstraight _ hmem)] at hnext
  cases jumped with
  | true => simp at hnext
  | false =>
      simp only [Bool.false_eq_true, if_false, Option.some.injEq] at hnext
      omega

/-- Control can run through straight-line code. -/
theorem Lies.exists_flow (h : code.Lies base part) (hstraight : part.Straight) :
    ∃ transits, Flow code base transits (base + part.length) := by
  induction part generalizing base with
  | nil => exact ⟨[], .stay _⟩
  | cons instruction rest ih =>
      obtain ⟨hfirst, hrest⟩ := List.forall_mem_cons.mp hstraight
      obtain ⟨transits, hflow⟩ := ih h.2 hrest
      have hnext : instruction.next? base false = some (base + 1) := by
        rw [Instruction.next?_of_isStraight hfirst]
        rfl
      rw [List.length_cons, Nat.add_comm rest.length, ← Nat.add_assoc]
      exact ⟨_, .step h.1 hnext hflow⟩

/-- A way through straight-line code and one more instruction. -/
theorem Lies.split_last {last : Instruction} (h : code.Lies base (part ++ [last]))
    (hstraight : part.Straight) (hforward : code.Forward) {transits : List Transit}
    (hflow : Flow code base transits (base + (part ++ [last]).length)) :
    ∃ before jumped, transits = before ++ [⟨base + part.length, jumped⟩] ∧
      Flow code base before (base + part.length) ∧
      last.next? (base + part.length) jumped = some (base + part.length + 1) := by
  rw [Lies.append] at h
  rw [List.length_append, List.length_singleton, ← Nat.add_assoc] at hflow
  obtain ⟨before, after, rfl, hbefore, hafter, _⟩ :=
    hflow.split (h.1.closed hstraight) (Nat.le_refl _) (Nat.le_add_right _ _) (Nat.le_succ _)
  obtain ⟨instruction, jumped, rfl, hinstruction, hnext⟩ := hafter.eq_singleton hforward
  rw [h.2.1, Option.some.injEq] at hinstruction
  exact ⟨before, jumped, rfl, hbefore, hinstruction ▸ hnext⟩

/-- Executing straight-line code changes nothing in the heap. -/
theorem Lies.heapAfter_eq {α : Type} (h : code.Lies base part) (hstraight : part.Straight)
    {transits : List Transit}
    (hinside : ∀ t ∈ transits, base ≤ t.address ∧ t.address < base + part.length)
    (top : Nat → α) (heap : List α) : code.heapAfter top transits heap = heap := by
  apply heapAfter_eq_self
  intro t ht
  obtain ⟨found, hmem, hfound⟩ := h.exists_mem (hinside t ht).1 (hinside t ht).2
  rw [Transit.heapAfter, hfound]
  exact Instruction.onHeap_of_isStraight (hstraight _ hmem) _ _

/-- Running through straight-line code changes nothing in the heap. -/
theorem Lies.heapAfter_of_flow {α : Type} (h : code.Lies base part) (hstraight : part.Straight)
    (hforward : code.Forward) {transits : List Transit}
    (hflow : Flow code base transits (base + part.length)) (top : Nat → α) (heap : List α) :
    code.heapAfter top transits heap = heap :=
  h.heapAfter_eq hstraight (hflow.bounds hforward) top heap

/-- There is no jump in straight code that could skip a body. -/
theorem Lies.not_loses (h : code.Lies base part) (hstraight : part.Straight)
    {transits : List Transit}
    (hinside : ∀ t ∈ transits, base ≤ t.address ∧ t.address < base + part.length) :
    ¬ code.Loses transits := by
  rintro ⟨t, ht, _, goal, _, hjump, _⟩
  obtain ⟨found, hmem, hfound⟩ := h.exists_mem (hinside t ht).1 (hinside t ht).2
  rw [hjump, Option.some.injEq] at hfound
  subst hfound
  have := hstraight _ hmem
  simp [Instruction.isStraight] at this

end Code

/-! ## Statements -/

theorem Step.next?_cleanup (fresh address : Nat) (jumped : Bool) :
    (cleanup fresh).next? address jumped = if jumped then none else some (address + 1) := by
  unfold cleanup
  split <;> rfl

/-- From an instruction that a statement emits, control goes to the next one, or
from the jump of a branch to its last instruction. -/
theorem Site.Emits.next_cases {s : Site} {address next : Nat} {instruction : Instruction}
    {jumped : Bool} (h : s.Emits address instruction)
    (hnext : instruction.next? address jumped = some next) :
    next = address + 1 ∨ s.isBranch = true ∧ address = s.jump ∧ next = s.finish := by
  cases h with
  | compute _ _ _ hcomputes =>
      rw [Instruction.next?_of_isStraight hcomputes.isStraight] at hnext
      cases jumped with
      | true => simp at hnext
      | false => exact Or.inl (Option.some.inj hnext).symm
  | leave => simp [Instruction.next?] at hnext
  | jump hbranch =>
      cases jumped with
      | true => exact Or.inr ⟨hbranch, rfl, (Option.some.inj hnext).symm⟩
      | false => exact Or.inl (Option.some.inj hnext).symm
  | store | negate =>
      cases jumped with
      | true => simp [Instruction.next?] at hnext
      | false => exact Or.inl (Option.some.inj hnext).symm
  | cleanup =>
      rw [Step.next?_cleanup] at hnext
      cases jumped with
      | true => simp at hnext
      | false => exact Or.inl (Option.some.inj hnext).symm

variable {m : Manifest} {target : DataType}

namespace Plain

variable {scope after : Scope} {statement : Statement} {part code : Code} {base : Nat}

/-- Control leaves the code of a statement without a body at its end, or returns. -/
theorem closed (h : Plain m target scope statement part after) (hcode : code.Lies base part) :
    code.Closed base (base + part.length) := by
  intro address next instruction jumped hle hlt hinstruction hnext
  obtain ⟨found, hfound, hemits⟩ := h.exists_emits hcode hle hlt 0
  rw [hinstruction, Option.some.injEq] at hfound
  subst hfound
  rcases hemits.next_cases hnext with rfl | ⟨hbranch, _⟩
  · omega
  · exact Bool.noConfusion (h.isBranch_eq_false.symm.trans hbranch)

theorem not_loses (h : Plain m target scope statement part after) (hcode : code.Lies base part)
    {transits : List Transit}
    (hinside : ∀ t ∈ transits, base ≤ t.address ∧ t.address < base + part.length) :
    ¬ code.Loses transits := by
  rintro ⟨t, ht, _, goal, _, hjump, _⟩
  obtain ⟨found, hfound, hemits⟩ := h.exists_emits hcode (hinside t ht).1 (hinside t ht).2 0
  rw [hjump, Option.some.injEq] at hfound
  subst hfound
  exact Bool.noConfusion (h.isBranch_eq_false.symm.trans hemits.of_jumpIf.1)

/-- Control can run through a statement that is not a return with a value. -/
theorem exists_flow (h : Plain m target scope statement part after) (hcode : code.Lies base part)
    (hvalue : ∀ loc value, statement ≠ .ret loc (some value)) :
    ∃ transits, Flow code base transits (base + part.length) := by
  cases h with
  | effect hcompiled => exact hcode.exists_flow (Expr.code_computes hcompiled).straight
  | create hcompiled _ =>
      rw [Code.Lies.append] at hcode
      obtain ⟨transits, hflow⟩ := hcode.1.exists_flow (Expr.code_computes hcompiled).straight
      rw [List.length_append, ← Nat.add_assoc]
      exact ⟨_, hflow.append (.single false hcode.2.1 rfl)⟩
  | bareReturn => exact ⟨[], .stay _⟩
  | valueReturn => exact absurd rfl (hvalue _ _)

/-- Control does not run through a return with a value. -/
theorem not_flow {loc : Location} {value : Expr}
    (h : Plain m target scope (.ret loc (some value)) part after) (hcode : code.Lies base part)
    (hforward : code.Forward) {transits : List Transit} :
    ¬ Flow code base transits (base + part.length) := by
  intro hflow
  cases h with
  | valueReturn _ hcompiled =>
      obtain ⟨_, _, _, _, hnext⟩ :=
        hcode.split_last (Expr.code_computes hcompiled).straight hforward hflow
      simp [Instruction.next?] at hnext

end Plain

namespace Lowering

variable {scope final : Scope} {statements : List Statement} {steps : List Step} {code : Code}
  {base : Nat}

/-- Control leaves the code of statements only at its end. -/
theorem closed (h : Lowering m target scope statements steps final)
    (hcode : code.Lies base (Step.assembleAll base steps)) :
    code.Closed base (base + Step.sizes steps) := by
  intro address next instruction jumped hle hlt hinstruction hnext
  obtain ⟨s, hs, found, hfound, hemits⟩ := h.exists_emits hcode hle hlt 0
  rw [hinstruction, Option.some.injEq] at hfound
  subst hfound
  rcases hemits.next_cases hnext with rfl | ⟨hbranch, rfl, rfl⟩
  · omega
  · obtain ⟨_, _, _, hstatement⟩ := Site.exists_ifThen_of_isBranch hbranch
    obtain ⟨_, _, hparts⟩ := h.exists_branch hcode hs hstatement
    have horder := hparts.order
    have hbounds := h.bounds_of_mem_sites hs
    omega

end Lowering

namespace Site.Branch

variable {code test : Code} {s : Site} {body : List Statement} {block : Block}

theorem lowering (h : s.Branch m target code body test block) :
    Lowering m target s.scope.start body block.steps block.scope :=
  Statement.lowering_of_compileAll h.body_compile

theorem finish_eq' (h : s.Branch m target code body test block) :
    s.finish = s.jump + 1 + Step.sizes block.steps := by
  have := h.finish_eq
  omega

/-- The test and its negation are straight-line code in front of the jump. -/
theorem test_negate (h : s.Branch m target code body test block) :
    code.Lies s.base (test ++ [.negate]) ∧ Code.Straight (test ++ [.negate]) ∧
      s.base + (test ++ [Instruction.negate]).length = s.jump := by
  have hjump := h.jump_eq
  have hnegate := h.negate
  rw [hjump, Nat.add_sub_cancel] at hnegate
  refine ⟨Code.Lies.append.mpr ⟨h.test_lies, hnegate, trivial⟩, ?_, by simp [hjump]; rfl⟩
  intro instruction hmem
  rcases List.mem_append.mp hmem with hmem | hmem
  · exact h.test_computes.straight instruction hmem
  · rw [List.mem_singleton.mp hmem]
    rfl

theorem closed_test (h : s.Branch m target code body test block) :
    code.Closed s.base s.jump := by
  obtain ⟨hlies, hstraight, hlength⟩ := h.test_negate
  exact hlength ▸ hlies.closed hstraight

theorem exists_flow_test (h : s.Branch m target code body test block) :
    ∃ transits, Flow code s.base transits s.jump := by
  obtain ⟨hlies, hstraight, hlength⟩ := h.test_negate
  exact hlength ▸ hlies.exists_flow hstraight

theorem closed_body (h : s.Branch m target code body test block) :
    code.Closed (s.jump + 1) s.finish := by
  rw [h.finish_eq']
  exact h.lowering.closed h.body_lies

/-- Control leaves a branch only at its end. -/
theorem closed (h : s.Branch m target code body test block) : code.Closed s.base s.stop := by
  intro address next instruction jumped hle hlt hinstruction hnext
  have horder := h.order
  have hstop := h.stop_eq
  rcases Nat.lt_trichotomy address s.jump with hbefore | rfl | hbehind
  · have := h.closed_test hle hbefore hinstruction hnext
    omega
  · rw [h.jump, Option.some.injEq] at hinstruction
    subst hinstruction
    rw [← Option.some.inj hnext]
    split <;> omega
  · rcases Nat.lt_or_ge address s.finish with hwithin | hlast
    · have := h.closed_body hbehind hwithin hinstruction hnext
      omega
    · obtain rfl : address = s.finish := by omega
      rw [h.cleanup, Option.some.injEq] at hinstruction
      subst hinstruction
      rw [Step.next?_cleanup] at hnext
      split at hnext
      next => cases hnext
      next =>
        have := Option.some.inj hnext
        omega

/-- From its jump control goes to the end of a branch or into the body. -/
theorem flow_jump (h : s.Branch m target code body test block) {transits : List Transit}
    {stop : Nat} (hflow : Flow code s.jump transits stop) (hstop : s.jump < stop) :
    (∃ rest, transits = ⟨s.jump, true⟩ :: rest ∧ Flow code s.finish rest stop) ∨
      ∃ rest, transits = ⟨s.jump, false⟩ :: rest ∧ Flow code (s.jump + 1) rest stop := by
  cases hflow with
  | stay => omega
  | @step _ _ _ _ jumped _ hinstruction hnext hrest =>
      rw [h.jump, Option.some.injEq] at hinstruction
      subst hinstruction
      cases jumped with
      | true =>
          obtain rfl : s.finish = _ := Option.some.inj hnext
          exact Or.inl ⟨_, rfl, hrest⟩
      | false =>
          obtain rfl : s.jump + 1 = _ := Option.some.inj hnext
          exact Or.inr ⟨_, rfl, hrest⟩

/-- From its last instruction control goes behind a branch. -/
theorem flow_behind (h : s.Branch m target code body test block) {transits : List Transit}
    {stop : Nat} (hflow : Flow code s.finish transits stop) (hstop : s.stop ≤ stop) :
    ∃ after, transits = ⟨s.finish, false⟩ :: after ∧ Flow code s.stop after stop := by
  have hend := h.stop_eq
  cases hflow with
  | stay => omega
  | @step _ _ _ _ jumped _ hinstruction hnext hafter =>
      rw [h.cleanup, Option.some.injEq] at hinstruction
      subst hinstruction
      rw [Step.next?_cleanup] at hnext
      cases jumped with
      | true => simp at hnext
      | false =>
          obtain rfl := Option.some.inj hnext
          exact ⟨_, rfl, hend ▸ hafter⟩

/-- A way across a branch jumps over the body or runs through it. -/
theorem flow_cases (h : s.Branch m target code body test block) {transits : List Transit}
    {stop : Nat} (hflow : Flow code s.base transits stop) (hstop : s.stop ≤ stop) :
    ∃ before after, Flow code s.base before s.jump ∧
      (∀ t ∈ before, s.base ≤ t.address ∧ t.address < s.jump) ∧ Flow code s.stop after stop ∧
      (transits = before ++ ⟨s.jump, true⟩ :: ⟨s.finish, false⟩ :: after ∨
        ∃ inner, transits = before ++ ⟨s.jump, false⟩ :: (inner ++ ⟨s.finish, false⟩ :: after) ∧
          Flow code (s.jump + 1) inner s.finish ∧
          ∀ t ∈ inner, s.jump + 1 ≤ t.address ∧ t.address < s.finish) := by
  have horder := h.order
  obtain ⟨before, rest, rfl, hbefore, hrest, hinside⟩ :=
    hflow.split h.closed_test (Nat.le_refl _) (by omega) (by omega)
  refine ⟨before, ?_⟩
  rcases h.flow_jump hrest (by omega) with ⟨rest, rfl, hskip⟩ | ⟨rest, rfl, henter⟩
  · obtain ⟨after, rfl, hafter⟩ := h.flow_behind hskip hstop
    exact ⟨after, hbefore, hinside, hafter, Or.inl rfl⟩
  · -- The body is left at its end only, which is the last instruction of the branch.
    obtain ⟨inner, rest, rfl, hinner, hend, hwithin⟩ :=
      henter.split h.closed_body (Nat.le_refl _) (by omega) (by omega)
    obtain ⟨after, rfl, hafter⟩ := h.flow_behind hend hstop
    exact ⟨after, hbefore, hinside, hafter, Or.inr ⟨inner, rfl, hinner, hwithin⟩⟩

/-- A way to an address of the body enters the body. It could only jump if the
address is the end of the body. -/
theorem flow_into (h : s.Branch m target code body test block) (hforward : code.Forward)
    {transits : List Transit} {address : Nat} (hflow : Flow code s.base transits address)
    (hlow : s.jump < address) (hhigh : ⟨s.jump, true⟩ ∈ transits → address < s.finish) :
    ∃ before inner, transits = before ++ ⟨s.jump, false⟩ :: inner ∧
      (∀ t ∈ before, s.base ≤ t.address ∧ t.address < s.jump) ∧
      Flow code s.base (before ++ [⟨s.jump, false⟩]) (s.jump + 1) ∧
      Flow code (s.jump + 1) inner address := by
  have horder := h.order
  obtain ⟨before, rest, rfl, hbefore, hrest, hinside⟩ :=
    hflow.split h.closed_test (Nat.le_refl _) (by omega) (by omega)
  rcases h.flow_jump hrest hlow with ⟨rest, rfl, hskip⟩ | ⟨rest, rfl, henter⟩
  · have hle := hskip.le hforward
    have hlt := hhigh (by simp)
    omega
  · exact ⟨before, rest, rfl, hinside, hbefore.append (.single false h.jump rfl), henter⟩

/-- Control can enter the body. -/
theorem exists_enter (h : s.Branch m target code body test block) :
    ∃ transits, Flow code s.base transits (s.jump + 1) ∧ ⟨s.jump, false⟩ ∈ transits := by
  obtain ⟨before, hbefore⟩ := h.exists_flow_test
  exact ⟨_, hbefore.append (.single false h.jump rfl), by simp⟩

/-- Control leaves a branch by its last instruction. -/
theorem flow_finish (h : s.Branch m target code body test block) :
    Flow code s.finish [⟨s.finish, false⟩] s.stop := by
  refine .single false h.cleanup ?_
  rw [Step.next?_cleanup, h.stop_eq]
  rfl

/-- Control can jump over the body. -/
theorem exists_skip (h : s.Branch m target code body test block) (hforward : code.Forward) :
    ∃ before, Flow code s.base (before ++ [⟨s.jump, true⟩, ⟨s.finish, false⟩]) s.stop ∧
      ∀ t ∈ before, s.base ≤ t.address ∧ t.address < s.jump := by
  obtain ⟨before, hbefore⟩ := h.exists_flow_test
  exact ⟨before, hbefore.append (.step h.jump rfl h.flow_finish), hbefore.bounds hforward⟩

end Site.Branch

/-- Control can get to every statement, at any depth. -/
theorem Lowering.exists_flow_to {scope final : Scope} {statements : List Statement}
    {steps : List Step} {code : Code} {base index : Nat}
    (h : Lowering m target scope statements steps final)
    (hcode : code.Lies base (Step.assembleAll base steps)) (hforward : code.Forward) {s : Site}
    (hs : s ∈ Statement.sites m target scope base index statements) :
    ∃ transits, Flow code base transits s.base := by
  induction h generalizing base index s with
  | done => simp [Statement.sites] at hs
  | @plain _ _ _ statement _ _ _ _ hcompile hplain hlast _ ih =>
      rw [Step.lies_assembleAll_cons] at hcode
      rcases (Statement.mem_sites_plain hcompile hplain).mp hs with rfl | hlater
      · exact ⟨[], .stay _⟩
      · have hvalue : ∀ loc value, statement ≠ .ret loc (some value) := by
          rintro loc value rfl
          rw [hlast rfl, Statement.sites] at hlater
          cases hlater
        obtain ⟨before, hbefore⟩ := hplain.exists_flow hcode.1 hvalue
        obtain ⟨after, hafter⟩ := ih hcode.2 hlater
        exact ⟨_, hbefore.append hafter⟩
  | @branch _ _ loc _ _ _ _ _ _ _ hcompile htest hbody _ _ hinner hrest =>
      rw [Step.lies_assembleAll_cons] at hcode
      have hparts := branch_first htest hbody hcode.1 index loc
      rcases (Statement.mem_sites_branch hcompile).mp hs with rfl | ⟨within, hwithin, rfl⟩ | hs
      · exact ⟨[], .stay _⟩
      · obtain ⟨before, hbefore, _⟩ := hparts.exists_enter
        obtain ⟨after, hafter⟩ := hinner hparts.body_lies hwithin
        exact ⟨_, hbefore.append hafter⟩
      · obtain ⟨before, hbefore, _⟩ := hparts.exists_skip hforward
        obtain ⟨after, hafter⟩ := hrest hcode.2 hs
        exact ⟨_, hbefore.append hafter⟩

namespace Function.Accepted

variable {r : Registry} {f : Function} {p : Procedure} {prologue : Code} {scope : Scope}
  {block : Block}

/-- All control in a procedure goes forward. -/
theorem forward (h : f.Accepted m r p prologue scope block) : p.code.Forward := by
  intro address next instruction jumped hinstruction hnext
  rcases Nat.lt_or_ge address prologue.length with hbefore | hle
  · obtain ⟨slot, schema, rfl⟩ := h.eq_enforceSchema hinstruction hbefore
    rw [Instruction.next?_of_isStraight rfl] at hnext
    cases jumped with
    | true => simp at hnext
    | false => exact Nat.lt_of_succ_le (Nat.le_of_eq (Option.some.inj hnext))
  · have hlt := (List.getElem?_eq_some_iff.mp hinstruction).1
    obtain ⟨s, hs, found, hfound, hemits⟩ := h.exists_emits hle hlt
    rw [hinstruction, Option.some.injEq] at hfound
    subst hfound
    rcases hemits.next_cases hnext with rfl | ⟨hbranch, rfl, rfl⟩
    · omega
    · obtain ⟨_, _, _, hparts⟩ := h.branch_of_isBranch hs hbranch
      exact hparts.order.2.1

theorem prologue_straight (h : f.Accepted m r p prologue scope block) : prologue.Straight := by
  intro instruction hmem
  rcases entry_cases h.entry_eq with ⟨_, rfl, _⟩ | ⟨_, _, _, rfl, _⟩
  · cases hmem
  · rw [List.mem_singleton.mp hmem]
    rfl

theorem prologue_lies (h : f.Accepted m r p prologue scope block) : p.code.Lies 0 prologue := by
  rw [h.code_eq]
  exact Code.Lies.start _ _

/-- A way into the body runs through the prologue, which leaves the heap alone. -/
theorem split_prologue (h : f.Accepted m r p prologue scope block) {transits : List Transit}
    {address : Nat} (hflow : Flow p.code 0 transits address) (hle : prologue.length ≤ address) :
    ∃ first second, transits = first ++ second ∧ Flow p.code 0 first prologue.length ∧
      Flow p.code prologue.length second address ∧
      ∀ {α : Type} (top : Nat → α) (heap : List α), p.code.heapAfter top first heap = heap := by
  have hclosed := h.prologue_lies.closed h.prologue_straight
  rw [Nat.zero_add] at hclosed
  obtain ⟨first, second, heq, hfirst, hsecond, hinside⟩ :=
    hflow.split hclosed (Nat.le_refl _) (Nat.zero_le _) hle
  refine ⟨first, second, heq, hfirst, hsecond, ?_⟩
  intro α top heap
  exact h.prologue_lies.heapAfter_eq h.prologue_straight (by simpa using hinside) top heap

/-- Control can get to every statement of a function. -/
theorem exists_flow_to (h : f.Accepted m r p prologue scope block) {s : Site}
    (hs : s ∈ f.sites m r) : ∃ transits, Flow p.code 0 transits s.base := by
  obtain ⟨first, hfirst⟩ := h.prologue_lies.exists_flow h.prologue_straight
  rw [Nat.zero_add] at hfirst
  rw [h.sites_eq] at hs
  obtain ⟨second, hsecond⟩ := h.lowering.exists_flow_to h.lies h.forward hs
  exact ⟨_, hfirst.append hsecond⟩

end Function.Accepted

end StoredProc
