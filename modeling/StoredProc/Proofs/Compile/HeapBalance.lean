import StoredProc.Proofs.Compile.BranchFlow

/-! # The heap across branches

The body of a branch leaves the variables it declares on the heap, and the last
instruction of the branch removes as many values. A way that jumps over the body
meets the same instruction, with nothing of the body to remove. So a branch gives
back the heap it found exactly if no body with variables of its own is skipped
on the way, be it the body of the branch or one inside of it.
-/

namespace StoredProc

/-- How a heap changes across statements that declare some variables: if no body
with variables is skipped they are appended, and otherwise something is lost, so
far as there was something. -/
structure HeapChange {α : Type} (before after : List α) (declared : Nat) (skipped : Prop) :
    Prop where
  length_le : after.length ≤ before.length + declared
  kept : ¬ skipped → ∃ new, after = before ++ new ∧ new.length = declared
  lost : skipped → before ≠ [] → after.length < before.length + declared

namespace HeapChange

variable {α : Type} {first second third : List α} {declared more : Nat} {skipped later : Prop}

theorem append (heap new : List α) (h : ¬ skipped) :
    HeapChange heap (heap ++ new) new.length skipped where
  length_le := Nat.le_of_eq List.length_append
  kept := fun _ => ⟨new, rfl, rfl⟩
  lost := fun hskipped => absurd hskipped h

theorem refl (heap : List α) (h : ¬ skipped) : HeapChange heap heap 0 skipped := by
  simpa using append heap [] h

/-- What was lost in the first part does not come back in the second. -/
theorem trans (h₁ : HeapChange first second declared skipped)
    (h₂ : HeapChange second third more later) :
    HeapChange first third (declared + more) (skipped ∨ later) where
  length_le := by
    have hle := h₁.length_le
    have hle' := h₂.length_le
    omega
  kept := by
    intro h
    obtain ⟨new, rfl, rfl⟩ := h₁.kept fun hskipped => h (Or.inl hskipped)
    obtain ⟨new', rfl, rfl⟩ := h₂.kept fun hlater => h (Or.inr hlater)
    exact ⟨new ++ new', List.append_assoc .., List.length_append⟩
  lost := by
    intro h hne
    have hle := h₂.length_le
    by_cases hskipped : skipped
    · have hlt := h₁.lost hskipped hne
      omega
    · obtain ⟨new, rfl, rfl⟩ := h₁.kept hskipped
      have hlt := h₂.lost (h.resolve_left hskipped) (by simp [hne])
      rw [List.length_append] at hlt
      omega

/-- The end of a body that was run through. -/
theorem truncate (h : HeapChange first second declared skipped) :
    HeapChange first (second.take (second.length - declared)) 0 skipped where
  length_le := by
    have hle := h.length_le
    rw [List.length_take]
    omega
  kept := by
    intro hkept
    obtain ⟨new, rfl, rfl⟩ := h.kept hkept
    exact ⟨[], by simp, rfl⟩
  lost := by
    intro hskipped hne
    have hlt := h.lost hskipped hne
    have hpos := List.length_pos_iff.mpr hne
    rw [List.length_take]
    omega

/-- The end of a body that was skipped. -/
theorem skip (heap : List α) (declared : Nat) :
    HeapChange heap (heap.take (heap.length - declared)) 0 (declared ≠ 0) where
  length_le := by
    rw [List.length_take]
    omega
  kept := by
    intro h
    have hzero : declared = 0 := by omega
    exact ⟨[], by simp [hzero], rfl⟩
  lost := by
    intro h hne
    have hpos := List.length_pos_iff.mpr hne
    rw [List.length_take]
    omega

theorem congr (h : HeapChange first second declared skipped) (hiff : skipped ↔ later) :
    HeapChange first second declared later :=
  propext hiff ▸ h

/-- When a heap is given back. -/
theorem eq_iff (h : HeapChange first second 0 skipped) :
    second = first ↔ first = [] ∨ ¬ skipped := by
  constructor
  · rintro rfl
    by_cases hskipped : skipped
    · left
      by_cases hne : second = []
      · exact hne
      · exact absurd (h.lost hskipped hne) (Nat.lt_irrefl _)
    · exact Or.inr hskipped
  · rintro (rfl | hkept)
    · exact List.eq_nil_of_length_eq_zero (Nat.le_zero.mp h.length_le)
    · obtain ⟨new, rfl, hnew⟩ := h.kept hkept
      rw [List.eq_nil_of_length_eq_zero hnew, List.append_nil]

end HeapChange

/-- The end of a branch drops the values that its body has left. -/
theorem Step.onHeap_cleanup {α : Type} (fresh : Nat) (top : α) (heap : List α) :
    (cleanup fresh).onHeap top heap = heap.take (heap.length - fresh) := by
  unfold cleanup
  split
  next hzero => simp [Instruction.onHeap, hzero]
  next => rfl

/-! ## Statements -/

variable {m : Manifest} {target : DataType} {code : Code} {α : Type}

namespace Plain

variable {scope after : Scope} {statement : Statement} {part : Code} {base : Nat}

/-- A statement without a body appends the value of what it declares, which is on
top of the stack at its last instruction. -/
theorem heapAfter_eq (h : Plain m target scope statement part after)
    (hcode : code.Lies base part) (hforward : code.Forward) {transits : List Transit}
    (hflow : Flow code base transits (base + part.length)) (top : Nat → α) (heap : List α) :
    code.heapAfter top transits heap =
      heap ++ List.replicate (Statement.declared [statement]) (top (base + part.length - 1)) := by
  cases h with
  | effect hcompiled =>
      rw [hcode.heapAfter_of_flow (Expr.code_computes hcompiled).straight hforward hflow]
      exact (List.append_nil heap).symm
  | bareReturn =>
      rw [hflow.eq_nil hforward]
      exact (List.append_nil heap).symm
  | @valueReturn loc _ _ _ htarget hcompiled =>
      have hreturn := @Plain.valueReturn m target scope loc _ _ _ htarget hcompiled
      exact absurd hflow (hreturn.not_flow hcode hforward)
  | create hcompiled _ =>
      have hstraight := (Expr.code_computes hcompiled).straight
      obtain ⟨before, jumped, rfl, hbefore, _⟩ := hcode.split_last hstraight hforward hflow
      rw [Code.Lies.append] at hcode
      rw [Code.heapAfter_append, hcode.1.heapAfter_of_flow hstraight hforward hbefore,
        Code.heapAfter_cons, Code.heapAfter_nil, Transit.heapAfter, hcode.2.1,
        List.length_append, List.length_singleton, ← Nat.add_assoc, Nat.add_sub_cancel]
      rfl

/-- A statement without a body leaves a value for each variable that it declares, and nothing
else. -/
theorem heapChange (h : Plain m target scope statement part after) (hcode : code.Lies base part)
    (hforward : code.Forward) {transits : List Transit}
    (hflow : Flow code base transits (base + part.length)) (top : Nat → α) (heap : List α) :
    HeapChange heap (code.heapAfter top transits heap) (Statement.declared [statement])
      (code.Loses transits) := by
  have hinside := hflow.bounds hforward
  have hchange := HeapChange.append heap
    (List.replicate (Statement.declared [statement]) (top (base + part.length - 1)))
    (h.not_loses hcode hinside)
  rw [List.length_replicate] at hchange
  rw [h.heapAfter_eq hcode hforward hflow]
  exact hchange

end Plain

namespace Site.Branch

variable {s : Site} {body : List Statement} {test : Code} {block : Block}

/-- The jump of a branch loses something if the body has variables. -/
theorem drops_jump_iff (h : s.Branch m target code body test block) :
    Transit.Drops code ⟨s.jump, true⟩ ↔ Statement.declared body ≠ 0 := by
  have hcleanup := h.cleanup
  constructor
  · rintro ⟨_, goal, count, hjump, hgoal⟩ hzero
    rw [h.jump] at hjump
    cases hjump
    rw [hcleanup, hzero] at hgoal
    cases hgoal
  · intro hne
    rw [Step.cleanup, if_neg hne] at hcleanup
    exact ⟨rfl, s.finish, _, h.jump, hcleanup⟩

theorem not_drops_finish (h : s.Branch m target code body test block) (jumped : Bool) :
    ¬ Transit.Drops code ⟨s.finish, jumped⟩ := by
  rintro ⟨_, goal, _, hjump, _⟩
  rw [h.cleanup] at hjump
  rcases Step.cleanup_cases (Statement.declared body) with heq | ⟨_, heq⟩
  · simp [heq] at hjump
  · simp [heq] at hjump

/-- What the test does to the heap, and what the last instruction does. -/
theorem heapAfter_jump (h : s.Branch m target code body test block) {before after : List Transit}
    (hbefore : ∀ t ∈ before, s.base ≤ t.address ∧ t.address < s.jump) (jumped : Bool)
    (top : Nat → α) (heap : List α) :
    code.heapAfter top (before ++ ⟨s.jump, jumped⟩ :: after) heap =
      code.heapAfter top after heap := by
  obtain ⟨hlies, hstraight, hlength⟩ := h.test_negate
  rw [← hlength] at hbefore
  rw [Code.heapAfter_append, hlies.heapAfter_eq hstraight hbefore, Code.heapAfter_cons,
    Transit.heapAfter, h.jump]
  rfl

theorem not_loses_test (h : s.Branch m target code body test block) {before : List Transit}
    (hbefore : ∀ t ∈ before, s.base ≤ t.address ∧ t.address < s.jump) : ¬ code.Loses before := by
  obtain ⟨hlies, hstraight, hlength⟩ := h.test_negate
  rw [← hlength] at hbefore
  exact hlies.not_loses hstraight hbefore

/-- Entering the body loses nothing. -/
theorem loses_jump (h : s.Branch m target code body test block) {before after : List Transit}
    (hbefore : ∀ t ∈ before, s.base ≤ t.address ∧ t.address < s.jump) :
    code.Loses (before ++ ⟨s.jump, false⟩ :: after) ↔ code.Loses after := by
  have htest := h.not_loses_test hbefore
  have hstay : ¬ Transit.Drops code ⟨s.jump, false⟩ := fun hdrops => nomatch hdrops.1
  simp [htest, hstay]

theorem heapAfter_finish (h : s.Branch m target code body test block) (jumped : Bool)
    (top : Nat → α) (heap : List α) :
    Transit.heapAfter code top heap ⟨s.finish, jumped⟩ =
      heap.take (heap.length - Statement.declared body) := by
  rw [Transit.heapAfter, h.cleanup]
  exact Step.onHeap_cleanup _ _ _

/-- A branch removes what its body appends. -/
theorem heapChange_of_body (h : s.Branch m target code body test block) (hforward : code.Forward)
    {top : Nat → α}
    (hinner : ∀ {inner : List Transit}, Flow code (s.jump + 1) inner s.finish →
      ∀ heap : List α, HeapChange heap (code.heapAfter top inner heap) (Statement.declared body)
        (code.Loses inner))
    {transits : List Transit} (hflow : Flow code s.base transits s.stop) (heap : List α) :
    HeapChange heap (code.heapAfter top transits heap) 0 (code.Loses transits) := by
  obtain ⟨before, after, _, hbefore, hafter, hcases⟩ := h.flow_cases hflow (Nat.le_refl _)
  obtain rfl := hafter.eq_nil hforward
  have htest := h.not_loses_test hbefore
  have hfinish := h.not_drops_finish false
  rcases hcases with rfl | ⟨inner, rfl, hflow, _⟩
  · rw [h.heapAfter_jump hbefore, Code.heapAfter_cons, Code.heapAfter_nil, h.heapAfter_finish]
    refine (HeapChange.skip heap _).congr ?_
    rw [← h.drops_jump_iff]
    simp [htest, hfinish]
  · rw [h.heapAfter_jump hbefore, Code.heapAfter_append, Code.heapAfter_cons, Code.heapAfter_nil,
      h.heapAfter_finish]
    refine (hinner hflow heap).truncate.congr ?_
    rw [h.loses_jump hbefore]
    simp [hfinish]

end Site.Branch

/-- Statements append what they declare, or lose something. -/
theorem Lowering.heapChange {scope final : Scope} {statements : List Statement} {steps : List Step}
    (h : Lowering m target scope statements steps final) {base : Nat}
    (hcode : code.Lies base (Step.assembleAll base steps)) (hforward : code.Forward)
    {transits : List Transit} (hflow : Flow code base transits (base + Step.sizes steps))
    (top : Nat → α) (heap : List α) :
    HeapChange heap (code.heapAfter top transits heap) (Statement.declared statements)
      (code.Loses transits) := by
  induction h generalizing base transits heap with
  | done =>
      rw [hflow.eq_nil hforward]
      exact .refl heap Code.loses_nil
  | @plain scope after _ statement _ part _ steps hcompile hplain _ _ ih =>
      rw [Step.lies_assembleAll_cons] at hcode
      obtain ⟨first, second, rfl, hfirst, hsecond, _⟩ :=
        hflow.split (hplain.closed hcode.1) (Nat.le_refl _) (Nat.le_add_right _ _)
          (by simp only [Step.sizes, Step.size]; omega)
      rw [Step.sizes, ← Nat.add_assoc] at hsecond
      have hchange := (hplain.heapChange hcode.1 hforward hfirst top heap).trans
        (ih hcode.2 hsecond _)
      rw [Code.heapAfter_append, ← List.singleton_append, Statement.declared_append]
      exact hchange.congr Code.loses_append.symm
  | @branch scope _ loc condition body _ test _ block steps hcompile htest hbody _ _ hinner hrest =>
      rw [Step.lies_assembleAll_cons] at hcode
      have hparts := branch_first htest hbody hcode.1 0 loc
      obtain ⟨first, second, rfl, hfirst, hsecond, _⟩ :=
        hflow.split hparts.closed (Nat.le_refl _) (Nat.le_add_right _ _)
          (by simp only [Step.sizes, Site.stop, Site.first]; omega)
      rw [Step.sizes, ← Nat.add_assoc] at hsecond
      have hfirst := hparts.heapChange_of_body hforward
        (fun hflow heap => hinner hparts.body_lies (hparts.finish_eq' ▸ hflow) heap) hfirst heap
      have hchange := hfirst.trans (hrest hcode.2 hsecond _)
      rw [Code.heapAfter_append, ← List.singleton_append, Statement.declared_append]
      exact hchange.congr Code.loses_append.symm

/-- A branch gives back the heap, or loses something. -/
theorem Site.Branch.heapChange {s : Site} {body : List Statement} {test : Code} {block : Block}
    (h : s.Branch m target code body test block) (hforward : code.Forward)
    {transits : List Transit} (hflow : Flow code s.base transits s.stop) (top : Nat → α)
    (heap : List α) :
    HeapChange heap (code.heapAfter top transits heap) 0 (code.Loses transits) := by
  refine h.heapChange_of_body hforward ?_ hflow heap
  intro inner hinner heap
  rw [h.finish_eq'] at hinner
  exact h.lowering.heapChange h.body_lies hforward hinner top heap

/-! ## Branches that give back the heap -/

/-- A branch gives back the heap that it finds, on every way from a start. -/
def Site.Restores (code : Code) (start : Nat) (top : Nat → α) (heap : List α) (s : Site) : Prop :=
  ∀ ⦃before across : List Transit⦄, Flow code start before s.base →
    Flow code s.base across s.stop →
      code.heapAfter top across (code.heapAfter top before heap) = code.heapAfter top before heap

/-- A branch that restores the heap from a start does so from anywhere on the way. -/
theorem Site.Restores.shift {start middle : Nat} {top : Nat → α} {heap : List α} {s : Site}
    (h : s.Restores code start top heap) {first : List Transit} (hfirst : Flow code start first middle) :
    s.Restores code middle top (code.heapAfter top first heap) := by
  intro before across hbefore hacross
  have hall := h (hfirst.append hbefore) hacross
  rw [Code.heapAfter_append] at hall
  exact hall

/-- If all branches give back the heap, then it has as many values at a statement
as there are variables that are visible. -/
theorem Lowering.length_of_restores {scope final : Scope} {statements : List Statement}
    {steps : List Step} {base index : Nat} (h : Lowering m target scope statements steps final)
    (hcode : code.Lies base (Step.assembleAll base steps)) (hforward : code.Forward)
    {top : Nat → α} {heap : List α}
    (hrestores : ∀ s ∈ Statement.sites m target scope base index statements, s.isBranch = true →
      s.Restores code base top heap)
    {s : Site} (hs : s ∈ Statement.sites m target scope base index statements)
    (hsize : s.base < s.stop) {transits : List Transit} (hflow : Flow code base transits s.base) :
    (code.heapAfter top transits heap).length + scope.bindings.length =
      heap.length + s.scope.bindings.length := by
  -- The start moves along the way, and what is assumed of the branches moves with it.
  induction h generalizing base index s transits heap with
  | done => simp [Statement.sites] at hs
  | plain hcompile hplain _ hrest ih =>
      rw [Step.lies_assembleAll_cons] at hcode
      rcases (Statement.mem_sites_plain hcompile hplain).mp hs with rfl | hs
      · rw [hflow.eq_nil hforward]
        rfl
      · obtain ⟨first, second, rfl, hfirst, hsecond, _⟩ :=
          hflow.split (hplain.closed hcode.1) (Nat.le_refl _) (Nat.le_add_right _ _)
            (hrest.bounds_of_mem_sites hs).1
        have hlater := ih hcode.2 (fun s hs hbranch =>
          (hrestores s ((Statement.mem_sites_plain hcompile hplain).mpr (Or.inr hs)) hbranch).shift
            hfirst) hs hsize hsecond
        obtain ⟨added, hadded, hlength⟩ := hplain.exists_extends
        have hheap := hplain.heapAfter_eq hcode.1 hforward hfirst top heap
        rw [hadded.bindings, hheap, List.length_append, List.length_append, List.length_replicate]
          at hlater
        rw [Code.heapAfter_append, hheap]
        omega
  | @branch scope _ loc _ _ _ _ _ _ _ hcompile htest hbody hlowering hrest ihinner ihrest =>
      rw [Step.lies_assembleAll_cons] at hcode
      have hparts := branch_first htest hbody hcode.1 index loc
      rcases (Statement.mem_sites_branch hcompile).mp hs with rfl | ⟨within, hwithin, rfl⟩ | hs
      · rw [hflow.eq_nil hforward]
        rfl
      · have hbounds := hlowering.bounds_of_mem_sites hwithin
        have hlt := Nat.lt_of_lt_of_le hsize hbounds.2
        obtain ⟨before, inner, rfl, hbefore, henter, hflow⟩ :=
          hparts.flow_into hforward hflow hbounds.1 (fun _ => hparts.finish_eq'.symm ▸ hlt)
        rw [hparts.heapAfter_jump hbefore]
        refine ihinner hparts.body_lies ?_ hwithin hsize hflow
        intro s hs hbranch
        have hshift := (hrestores (s.under index) ((Statement.mem_sites_branch hcompile).mpr
          (Or.inr (Or.inl ⟨s, hs, rfl⟩))) hbranch).shift henter
        rw [hparts.heapAfter_jump hbefore] at hshift
        exact hshift
      · obtain ⟨first, second, rfl, hfirst, hsecond, _⟩ :=
          hflow.split hparts.closed (Nat.le_refl _) (Nat.le_add_right _ _)
            (hrest.bounds_of_mem_sites hs).1
        have hlater := ihrest hcode.2 (fun s hs hbranch =>
          (hrestores s ((Statement.mem_sites_branch hcompile).mpr (Or.inr (Or.inr hs)))
            hbranch).shift hfirst) hs hsize hsecond
        have hkept := hrestores _ ((Statement.mem_sites_branch hcompile).mpr (Or.inl rfl)) rfl
          (.stay _) hfirst
        rw [Code.heapAfter_nil] at hkept
        rw [hlowering.stop_eq, hkept] at hlater
        rw [Code.heapAfter_append, hkept]
        exact hlater

namespace Function

variable {r : Registry} {f : Function} {p : Procedure}

/-- Every branch of a function gives back the heap that it finds. The heap holds
the parameter at first. -/
def RestoresHeap (α : Type) (m : Manifest) (r : Registry) (f : Function) (code : Code) : Prop :=
  ∀ s ∈ f.sites m r, s.isBranch = true → ∀ (top : Nat → α) (heap : List α),
    heap.length = f.parameter.toList.length → s.Restores code 0 top heap

namespace Accepted

variable {prologue : Code} {scope : Scope} {block : Block}

/-- At first the heap holds the variables that are visible. -/
theorem length_bindings (h : f.Accepted m r p prologue scope block) :
    scope.bindings.length = f.parameter.toList.length := by
  rcases entry_cases h.entry_eq with ⟨hnone, _, rfl⟩ | ⟨_, _, hsome, _, rfl⟩
  · rw [hnone]
    rfl
  · rw [hsome]
    rfl

/-- Only the jump of a branch with variables loses something. -/
theorem exists_declared_of_loses (h : f.Accepted m r p prologue scope block)
    {transits : List Transit} (hloses : p.code.Loses transits) :
    ∃ o ∈ f.occurrences, ∃ loc condition body, o.statement = .ifThen loc condition body ∧
      Statement.declared body ≠ 0 := by
  obtain ⟨⟨address, jumped⟩, _, hjumped, goal, count, hjump, hgoal⟩ := hloses
  obtain ⟨s, hs, hemits⟩ := h.emits_of_getElem? hjump (by simp)
  obtain ⟨hbranch, rfl⟩ := hemits.of_jumpIf
  obtain ⟨loc, condition, body, hstatement⟩ := Site.exists_ifThen_of_isBranch hbranch
  obtain ⟨_, _, hparts⟩ := h.exists_branch hs hstatement
  have hdeclared := hparts.drops_jump_iff.mp ⟨rfl, goal, count, hjump, hgoal⟩
  exact ⟨s.toOccurrence, h.mem_occurrences hs, loc, condition, body, hstatement, hdeclared⟩

/-- With the heap kept by all branches, something lies on the heap in front of
each of them. -/
theorem heap_ne_nil_of_restores (h : f.Accepted m r p prologue scope block) {top : Nat → α}
    {heap : List α} (hheap : heap.length = f.parameter.toList.length)
    (hrestores : ∀ s ∈ f.sites m r, s.isBranch = true → s.Restores p.code 0 top heap) {s : Site}
    (hs : s ∈ f.sites m r) {body : List Statement} {test : Code} {inner : Block}
    (hparts : s.Branch m f.target p.code body test inner) {transits : List Transit}
    (hflow : Flow p.code 0 transits s.base) : p.code.heapAfter top transits heap ≠ [] := by
  have hlower := h.lowering
  rw [h.sites_eq] at hs hrestores
  obtain ⟨first, second, rfl, hfirst, hsecond, hprologue⟩ :=
    h.split_prologue hflow (hlower.bounds_of_mem_sites hs).1
  have horder := hparts.order
  have hlength := hlower.length_of_restores h.lies h.forward
    (fun s hs hbranch => (hrestores s hs hbranch).shift hfirst) hs (by omega) hsecond
  rw [h.length_bindings, ← hheap, hprologue] at hlength
  rw [Code.heapAfter_append, hprologue]
  intro hempty
  rw [hempty] at hlength
  obtain ⟨_, _, htest⟩ := hparts.test_compile
  have hpos := List.length_pos_iff.mpr (Expr.bindings_ne_nil_of_code_bool htest)
  rw [List.length_nil] at hlength
  omega

/-- Control can get to a branch and jump over its body. The branch then removes
as many values as its body declares variables. -/
theorem exists_skip (h : f.Accepted m r p prologue scope block) {s : Site} (hs : s ∈ f.sites m r)
    {loc : Location} {condition : Expr} {body : List Statement}
    (hstatement : s.statement = .ifThen loc condition body) :
    ∃ before across, Flow p.code 0 before s.base ∧ Flow p.code s.base across s.stop ∧
      ⟨s.jump, true⟩ ∈ across ∧ ∀ (top : Nat → α) (heap : List α),
        p.code.heapAfter top across heap = heap.take (heap.length - Statement.declared body) := by
  obtain ⟨_, _, hparts⟩ := h.exists_branch hs hstatement
  obtain ⟨before, hbefore⟩ := h.exists_flow_to hs
  obtain ⟨test, hacross, htest⟩ := hparts.exists_skip h.forward
  refine ⟨before, _, hbefore, hacross, by simp, ?_⟩
  intro top heap
  rw [hparts.heapAfter_jump htest, Code.heapAfter_cons, Code.heapAfter_nil,
    hparts.heapAfter_finish]

end Accepted

/-- The branches of a function give back the heap on all ways exactly if none of
them declares variables in its body. Otherwise a way that skips such a body
removes values from before the branch in place of the variables. -/
theorem compile_restoresHeap_iff [Inhabited α] (h : f.compile m r = .ok p) :
    (f.RestoresHeap α m r p.code ↔
      ∀ o ∈ f.occurrences, ∀ loc condition body, o.statement = .ifThen loc condition body →
        Statement.declared body = 0) ∧
    ∀ s ∈ f.sites m r, ∀ loc condition body, s.statement = .ifThen loc condition body →
      ∃ before across, Flow p.code 0 before s.base ∧ Flow p.code s.base across s.stop ∧
        ⟨s.jump, true⟩ ∈ across ∧ ∀ (top : Nat → α) (heap : List α),
          p.code.heapAfter top across heap =
            heap.take (heap.length - Statement.declared body) := by
  obtain ⟨prologue, scope, block, haccepted⟩ := exists_accepted h
  have hforward := haccepted.forward
  refine ⟨⟨?_, ?_⟩, fun s hs loc condition body => haccepted.exists_skip hs⟩
  · intro hrestores o ho loc condition body hstatement
    obtain ⟨s, hs, rfl⟩ := haccepted.exists_site ho
    obtain ⟨_, _, hparts⟩ := haccepted.exists_branch hs hstatement
    obtain ⟨before, across, hbefore, hacross, _, hheap⟩ :=
      haccepted.exists_skip hs hstatement
    -- Any values will do, as long as there is one for the parameter.
    have hstart : (List.replicate f.parameter.toList.length (default : α)).length =
      f.parameter.toList.length := List.length_replicate
    have hbranches := fun s hs hbranch => hrestores s hs hbranch (fun _ => default) _ hstart
    have hpos := List.length_pos_iff.mpr
      (haccepted.heap_ne_nil_of_restores hstart hbranches hs hparts hbefore)
    have hkept := hbranches s hs (by rw [Site.isBranch, hstatement]; rfl) hbefore hacross
    rw [hheap] at hkept
    have hlength := congrArg List.length hkept
    rw [List.length_take] at hlength
    omega
  · intro hnone s hs hbranch top heap _ before across _ hacross
    obtain ⟨_, _, _, hparts⟩ := haccepted.branch_of_isBranch hs hbranch
    refine (hparts.heapChange hforward hacross top _).eq_iff.mpr (Or.inr ?_)
    intro hloses
    obtain ⟨o, ho, loc, condition, body, hstatement, hdeclared⟩ :=
      haccepted.exists_declared_of_loses hloses
    exact hdeclared (hnone o ho loc condition body hstatement)

/-- A branch whose body leaves nothing behind. -/
def guardedEffect : Function :=
  ofFlag (some .bool) [.ifThen {} .flag [.reference {} "flag" []], .ret {} (some .flag)]

/-- A branch without variables restores every heap. -/
theorem restoresHeap_guardedEffect :
    ∃ p, guardedEffect.compile {} .ofFlag = .ok p ∧
      guardedEffect.RestoresHeap Nat {} .ofFlag p.code := by
  have hcode : (guardedEffect.compile {} .ofFlag).toOption.map Procedure.code =
      some [.enforceSchema 0 0, .copyFromHeap 0, .negate, .jumpIf 5, .copyFromHeap 0, .noop,
        .copyFromHeap 0, .returnTop] := by
    decide +kernel
  obtain ⟨p, hp, _⟩ := exists_procedure hcode
  refine ⟨p, hp, (compile_restoresHeap_iff hp).1.mpr ?_⟩
  intro o ho loc condition body hstatement
  simp [occurrences, guardedEffect, ofFlag, Statement.occurrences, Statement.inside] at ho
  rcases ho with rfl | rfl | rfl
  · cases hstatement
    rfl
  · cases hstatement
  · cases hstatement

/-- A branch whose body declares a variable. -/
def guardedVariable : Function :=
  ofFlag (some .bool)
    [.ifThen {} .flag [.create {} "v" .int (.number {} "1")], .ret {} (some .flag)]

/-- Skipping the body removes the parameter from the heap. -/
theorem not_restoresHeap_guardedVariable :
    ¬ ∀ (m : Manifest) (r : Registry) (f : Function) (p : Procedure), f.compile m r = .ok p →
      f.RestoresHeap Nat m r p.code := by
  intro hall
  have hcode : (guardedVariable.compile {} .ofFlag).toOption.map Procedure.code =
      some [.enforceSchema 0 0, .copyFromHeap 0, .negate, .jumpIf 6, .int 1, .moveToHeap,
        .truncateHeap 1, .copyFromHeap 0, .returnTop] := by
    decide +kernel
  have hsite : (guardedVariable.sites {} .ofFlag).any
      (fun s => s.isBranch && s.base == 1 && s.stop == 7) = true := by
    decide +kernel
  obtain ⟨p, hp, hcode⟩ := exists_procedure hcode
  obtain ⟨s, hs, hfacts⟩ := List.any_eq_true.mp hsite
  simp only [Bool.and_eq_true, beq_iff_eq] at hfacts
  obtain ⟨⟨hbranch, hbase⟩, hstop⟩ := hfacts
  have hbefore : Flow p.code 0 [⟨0, false⟩] s.base := by
    rw [hcode, hbase]
    exact .single false rfl rfl
  have hacross : Flow p.code s.base [⟨1, false⟩, ⟨2, false⟩, ⟨3, true⟩, ⟨6, false⟩] s.stop := by
    rw [hcode, hbase, hstop]
    exact .step rfl rfl (.step rfl rfl (.step rfl rfl (.single false rfl rfl)))
  have hkept := hall {} .ofFlag guardedVariable p hp s hs hbranch (fun _ => 0) [7] rfl hbefore
    hacross
  rw [hcode] at hkept
  exact absurd hkept (by decide)

end Function

end StoredProc
