import StoredProc.Proofs.Compile.HeapBalance
import StoredProc.Proofs.Compile.SlotOrder

/-! # Where variables lie on the heap

On a way that enters all bodies the heap holds the values of the visible variables
in the order of their declarations, and nothing else. The value of a variable
therefore lies at the index that is the number of variables visible at its
declaration. Its slot is the same number only if no body with variables has ended
in front of the declaration, because slots are not used again.
-/

namespace StoredProc

variable {m : Manifest} {target : DataType} {code : Code} {α : Type}

/-- The values of the visible variables in the order of their declarations, when
every slot has a value. -/
def Scope.values (scope : Scope) (value : Nat → α) : List α :=
  scope.bindings.reverse.map fun entry => value entry.2.slot

theorem Scope.length_values (scope : Scope) (value : Nat → α) :
    (scope.values value).length = scope.bindings.length := by
  simp [values]

/-- The value of a variable lies behind those of the older variables. -/
theorem Scope.getElem?_values {scope : Scope} {more tail : List (String × Variable)}
    {entry : String × Variable} (h : scope.bindings = more ++ entry :: tail) (value : Nat → α) :
    (scope.values value)[tail.length]? = some (value entry.2.slot) := by
  simp [values, h]

/-- A declaration adds its value behind the others, and other statements add none. -/
theorem Plain.values_eq {scope after : Scope} {statement : Statement} {part : Code}
    (h : Plain m target scope statement part after) (value : Nat → α) :
    after.values value =
      scope.values value ++ List.replicate (Statement.declared [statement]) (value scope.count) := by
  cases h with
  | create _ hadd =>
      have hbindings := (Scope.add?_eq_some hadd).2.2.bindings
      simp [Scope.values, hbindings, Statement.declared, Statement.isDeclaration]
  | effect | bareReturn | valueReturn => exact (List.append_nil _).symm

/-- Only the last instruction of a statement without a body does more than
computing. -/
theorem Plain.exists_initial {scope after : Scope} {statement : Statement} {part : Code}
    (h : Plain m target scope statement part after) :
    ∃ initial last : Code, part = initial ++ last ∧ initial.Straight ∧ last.length ≤ 1 := by
  cases h with
  | effect hvalue => exact ⟨part, [], by simp, (Expr.code_computes hvalue).straight, by simp⟩
  | bareReturn => exact ⟨[], [], rfl, by simp [Code.Straight], by simp⟩
  | create hvalue | valueReturn _ hvalue =>
      exact ⟨_, _, rfl, (Expr.code_computes hvalue).straight, by simp⟩

/-! ## The heap at a statement -/

/-- On a way that enters all bodies the heap holds what is visible. -/
theorem Lowering.heapAfter_to {scope final : Scope} {statements : List Statement}
    {steps : List Step} {base index : Nat} (h : Lowering m target scope statements steps final)
    (hcode : code.Lies base (Step.assembleAll base steps)) (hforward : code.Forward)
    {top value : Nat → α}
    (hvalue : ∀ s ∈ Statement.sites m target scope base index statements,
      s.statement.isDeclaration = true → value s.scope.count = top (s.stop - 1))
    {s : Site} (hs : s ∈ Statement.sites m target scope base index statements)
    {transits : List Transit} (hentering : Entering transits)
    (hflow : Flow code base transits s.base) :
    code.heapAfter top transits (scope.values value) = s.scope.values value := by
  induction h generalizing base index s transits with
  | done => simp [Statement.sites] at hs
  | @plain scope _ _ statement _ part _ _ hcompile hplain _ hrest ih =>
      rw [Step.lies_assembleAll_cons] at hcode
      rcases (Statement.mem_sites_plain hcompile hplain).mp hs with rfl | hs
      · rw [hflow.eq_nil hforward]
        rfl
      · obtain ⟨first, second, rfl, hfirst, hsecond, _⟩ :=
          hflow.split (hplain.closed hcode.1) (Nat.le_refl _) (Nat.le_add_right _ _)
            (hrest.bounds_of_mem_sites hs).1
        have hlater := ih hcode.2
          (fun s hs => hvalue s ((Statement.mem_sites_plain hcompile hplain).mpr (Or.inr hs))) hs
          (entering_append.mp hentering).2 hsecond
        have hstored : statement.isDeclaration = true →
            value scope.count = top (base + part.length - 1) :=
          hvalue _ ((Statement.mem_sites_plain hcompile hplain).mpr (Or.inl rfl))
        rw [← hlater, Code.heapAfter_append, hplain.heapAfter_eq hcode.1 hforward hfirst,
          hplain.values_eq value]
        cases hplain with
        | create => rw [hstored rfl]
        | effect | bareReturn | valueReturn => rfl
  | @branch scope _ loc _ _ _ _ _ _ _ hcompile htest hbody hlowering hrest ihinner ihrest =>
      rw [Step.lies_assembleAll_cons] at hcode
      have hparts := branch_first htest hbody hcode.1 index loc
      rcases (Statement.mem_sites_branch hcompile).mp hs with rfl | ⟨within, hwithin, rfl⟩ | hs
      · rw [hflow.eq_nil hforward]
        rfl
      · obtain ⟨before, inner, rfl, hbefore, _, hflow⟩ :=
          hparts.flow_into hforward hflow (hlowering.bounds_of_mem_sites hwithin).1
            (fun hmem => Bool.noConfusion (hentering _ hmem))
        rw [hparts.heapAfter_jump hbefore]
        refine ihinner hparts.body_lies ?_ hwithin ?_ hflow
        · intro s hs
          exact hvalue (s.under index)
            ((Statement.mem_sites_branch hcompile).mpr (Or.inr (Or.inl ⟨s, hs, rfl⟩)))
        · exact fun t ht => hentering t (by simp [ht])
      · obtain ⟨first, second, rfl, hfirst, hsecond, _⟩ :=
          hflow.split hparts.closed (Nat.le_refl _) (Nat.le_add_right _ _)
            (hrest.bounds_of_mem_sites hs).1
        obtain ⟨hentering, hentering'⟩ := entering_append.mp hentering
        have hlater := ihrest hcode.2
          (fun s hs => hvalue s
            ((Statement.mem_sites_branch hcompile).mpr (Or.inr (Or.inr hs)))) hs hentering' hsecond
        -- The body is entered, so the branch takes back what it appends.
        have hkept := (hparts.heapChange hforward hfirst top (scope.values value)).eq_iff.mpr
          (Or.inr (Code.not_loses_of_entering hentering))
        rw [hlowering.stop_eq] at hlater
        rw [Code.heapAfter_append, hkept]
        exact hlater

/-! ## Storing and reading -/

/-- The declaration that is given a slot. -/
def Function.declaration? (m : Manifest) (r : Registry) (f : Function) (slot : Nat) :
    Option Site :=
  (f.sites m r).find? fun s => s.statement.isDeclaration && s.scope.count == slot

/-- What is read belongs to a variable that is visible. -/
theorem Site.Emits.of_copyFromHeap {s : Site} {address slot : Nat}
    (h : s.Emits address (.copyFromHeap slot)) :
    s.base ≤ address ∧ address < s.stop ∧ (s.isBranch = true → address < s.jump) ∧
      ∃ entry ∈ s.scope.bindings, entry.2.slot = slot := by
  generalize hinstruction : Instruction.copyFromHeap slot = instruction at h
  cases h with
  | compute hle hlt houter hcomputes =>
      subst hinstruction
      obtain ⟨name, held, hget, hslot⟩ := hcomputes
      obtain ⟨older, newer, hsplit, _⟩ := List.lookup_eq_some_iff.mp hget
      exact ⟨hle, hlt, houter, (name, held), by simp [hsplit], hslot⟩
  | @cleanup _ _ body _ =>
      rcases Step.cleanup_cases (Statement.declared body) with heq | ⟨_, heq⟩
      · rw [heq] at hinstruction
        cases hinstruction
      · rw [heq] at hinstruction
        cases hinstruction
  | _ => cases hinstruction

namespace Function.Accepted

variable {r : Registry} {f : Function} {p : Procedure} {prologue : Code} {scope : Scope}
  {block : Block}

/-- On a way that enters all bodies the heap holds what is visible at a statement
of a function. -/
theorem heapAfter_to (h : f.Accepted m r p prologue scope block) {top value : Nat → α}
    (hvalue : ∀ s ∈ f.sites m r,
      s.statement.isDeclaration = true → value s.scope.count = top (s.stop - 1))
    {s : Site} (hs : s ∈ f.sites m r) {transits : List Transit} (hentering : Entering transits)
    (hflow : Flow p.code 0 transits s.base) :
    p.code.heapAfter top transits (scope.values value) = s.scope.values value := by
  rw [h.sites_eq] at hs hvalue
  obtain ⟨first, second, rfl, _, hsecond, hprologue⟩ :=
    h.split_prologue hflow (h.lowering.bounds_of_mem_sites hs).1
  rw [Code.heapAfter_append, hprologue]
  exact h.lowering.heapAfter_to h.lies h.forward hvalue hs (entering_append.mp hentering).2 hsecond

/-- In front of an instruction that a statement emits itself the statement leaves
the heap alone. -/
theorem heapAfter_front (h : f.Accepted m r p prologue scope block) {s : Site}
    (hs : s ∈ f.sites m r) {address : Nat} (hlt : address < s.stop)
    (houter : s.isBranch = true → address < s.jump) {transits : List Transit}
    (hflow : Flow p.code s.base transits address) (top : Nat → α) (heap : List α) :
    p.code.heapAfter top transits heap = heap := by
  have hinside := hflow.bounds h.forward
  rcases h.site_cases hs with ⟨part, _, _, hstop, hplain, hlies⟩ |
    ⟨_, _, _, _, _, hstatement, hparts⟩
  · obtain ⟨initial, last, rfl, hstraight, hlast⟩ := hplain.exists_initial
    rw [Code.Lies.append] at hlies
    rw [List.length_append] at hstop
    refine hlies.1.heapAfter_eq hstraight ?_ top heap
    intro t ht
    have := hinside t ht
    omega
  · obtain ⟨hlies, hstraight, hlength⟩ := hparts.test_negate
    have hbefore := houter (by rw [Site.isBranch, hstatement]; rfl)
    refine hlies.heapAfter_eq hstraight ?_ top heap
    intro t ht
    have := hinside t ht
    omega

/-- What a declaration does last. -/
theorem store_of_isDeclaration (h : f.Accepted m r p prologue scope block) {s : Site}
    (hs : s ∈ f.sites m r) (hdeclaration : s.statement.isDeclaration = true) {address : Nat}
    (haddress : address + 1 = s.stop) :
    s.base ≤ address ∧ p.code[address]? = some .moveToHeap := by
  rcases h.site_cases hs with ⟨part, _, _, hstop, hplain, hlies⟩ |
    ⟨_, _, _, _, _, hstatement, _⟩
  · generalize hstatement : s.statement = statement at hplain hdeclaration
    cases hplain with
    | @create _ _ _ _ _ value =>
        rw [Code.Lies.append] at hlies
        rw [List.length_append, List.length_singleton] at hstop
        obtain rfl : address = s.base + value.length := by omega
        exact ⟨Nat.le_add_right _ _, hlies.2.1⟩
    | effect | bareReturn | valueReturn => cases hdeclaration
  · rw [hstatement] at hdeclaration
    cases hdeclaration

/-- The declaration with a slot is the one that is found. -/
theorem declaration?_eq (h : f.Accepted m r p prologue scope block) {s : Site}
    (hs : s ∈ f.sites m r) (hdeclaration : s.statement.isDeclaration = true) :
    f.declaration? m r s.scope.count = some s := by
  cases hfound : f.declaration? m r s.scope.count with
  | none =>
      have hnone := List.find?_eq_none.mp hfound s hs
      simp [hdeclaration] at hnone
  | some found =>
      have hsome := List.find?_some hfound
      simp only [Bool.and_eq_true, beq_iff_eq] at hsome
      rw [h.eq_of_count_eq (List.mem_of_find?_eq_some hfound) hs hsome.1 hdeclaration hsome.2]

/-- No declaration has a slot that was in use from the start. -/
theorem declaration?_eq_none (h : f.Accepted m r p prologue scope block) {slot : Nat}
    (hlt : slot < scope.count) : f.declaration? m r slot = none := by
  rw [declaration?, List.find?_eq_none]
  intro s hs
  rw [h.sites_eq] at hs
  have hle := (h.lowering.count_of_mem_sites hs).1
  have hne : s.scope.count ≠ slot := by omega
  simp [hne]

/-- Values for the slots that fit the parameter and what declarations store. -/
theorem exists_values (h : f.Accepted m r p prologue scope block) (top : Nat → α) {heap : List α}
    (hheap : heap.length = f.parameter.toList.length) :
    ∃ value, heap = scope.values value ∧ ∀ s ∈ f.sites m r,
      s.statement.isDeclaration = true → value s.scope.count = top (s.stop - 1) := by
  refine ⟨fun slot => ((f.declaration? m r slot).map fun s => top (s.stop - 1)).getD
    (heap.headD (top 0)), ?_, ?_⟩
  · rcases entry_cases h.entry_eq with ⟨hnone, _, hscope⟩ | ⟨parameter, _, hsome, _, hscope⟩
    · rw [hnone] at hheap
      rw [List.eq_nil_of_length_eq_zero hheap, hscope]
      rfl
    · rw [hsome] at hheap
      obtain ⟨first, rfl⟩ := List.length_eq_one_iff.mp hheap
      have hparameter : f.declaration? m r parameterSlot = none :=
        h.declaration?_eq_none (by rw [hscope]; exact Nat.zero_lt_one)
      rw [hscope]
      simp [Scope.values, hparameter]
  · intro s hs hdeclaration
    simp [h.declaration?_eq hs hdeclaration]

end Function.Accepted

/-- On ways that enter all bodies the value of a declaration is stored at an index,
and wherever its slot is read later the value lies at that index. -/
def Site.Stored (code : Code) (top : Nat → α) (heap : List α) (slot index : Nat) (s : Site) :
    Prop :=
  ∀ ⦃before : List Transit⦄ ⦃address : Nat⦄, address + 1 = s.stop → Entering before →
    Flow code 0 before address →
      code[address]? = some .moveToHeap ∧ (code.heapAfter top before heap).length = index ∧
        ∀ ⦃after : List Transit⦄ ⦃last : Nat⦄, Entering after → Flow code (address + 1) after last →
          code[last]? = some (.copyFromHeap slot) →
            (code.heapAfter top (before ++ ⟨address, false⟩ :: after) heap)[index]? =
              some (top address)

/-- A way that enters all bodies gets to the end of a statement. -/
def Site.Reached (code : Code) (s : Site) : Prop :=
  ∃ before address, address + 1 = s.stop ∧ Entering before ∧ Flow code 0 before address

namespace Function

variable {r : Registry} {f : Function} {p : Procedure}

/-- Every variable of a function lies at its slot, on ways that enter all bodies.
The heap holds the parameter at first. -/
def StoresAtSlots (α : Type) (m : Manifest) (r : Registry) (f : Function) (code : Code) : Prop :=
  ∀ s ∈ f.sites m r, ∀ slot, s.slot? = some slot → ∀ (top : Nat → α) (heap : List α),
    heap.length = f.parameter.toList.length → s.Stored code top heap slot slot

/-- A variable lies in front of its slot by the number of variables that have gone
before it was declared. -/
theorem Accepted.stored {prologue : Code} {scope : Scope} {block : Block}
    (h : f.Accepted m r p prologue scope block) {s : Site} (hs : s ∈ f.sites m r) {slot : Nat}
    (hslot : s.slot? = some slot) (top : Nat → α) {heap : List α}
    (hheap : heap.length = f.parameter.toList.length) :
    s.Stored p.code top heap slot (slot - f.closedBefore s.position) := by
  obtain ⟨hdeclaration, rfl⟩ := Site.of_slot?_eq_some hslot
  have hindex : s.scope.count - f.closedBefore s.position = s.scope.bindings.length := by
    rw [h.count_eq_add hs, Nat.add_sub_cancel]
  obtain ⟨value, rfl, hvalue⟩ := h.exists_values top hheap
  intro before address haddress hentering hflow
  obtain ⟨hle, hstore⟩ := h.store_of_isDeclaration hs hdeclaration haddress
  refine ⟨hstore, ?_, ?_⟩
  · obtain ⟨first, second, rfl, hfirst, hsecond⟩ :=
      hflow.split_of_entering hentering (Nat.zero_le _) hle
    -- A declaration is not a branch.
    have hplain : s.isBranch = true → address < s.jump := by
      intro hbranch
      obtain ⟨_, _, _, hstatement⟩ := Site.exists_ifThen_of_isBranch hbranch
      rw [hstatement] at hdeclaration
      cases hdeclaration
    rw [Code.heapAfter_append, h.heapAfter_to hvalue hs (entering_append.mp hentering).1 hfirst,
      h.heapAfter_front hs (by omega) hplain hsecond, Scope.length_values, hindex]
  · intro after last hentering' hafter hread
    -- The reading statement sees the variable, with the same variables behind it.
    obtain ⟨reader, hreader, hemits⟩ := h.emits_of_getElem? hread (by simp)
    obtain ⟨hle', hlt, houter, entry, hentry, hslot⟩ := hemits.of_copyFromHeap
    obtain ⟨more, hmore⟩ := h.exists_bindings_eq hreader hs hdeclaration hentry hslot
    have hall : Flow p.code 0 (before ++ ⟨address, false⟩ :: after) last :=
      hflow.append ((Flow.single false hstore rfl).append hafter)
    have hentering : Entering (before ++ ⟨address, false⟩ :: after) := by
      refine entering_append.mpr ⟨hentering, ?_⟩
      exact List.forall_mem_cons.mpr ⟨rfl, hentering'⟩
    obtain ⟨first, second, heq, hfirst, hsecond⟩ :=
      hall.split_of_entering hentering (Nat.zero_le _) hle'
    rw [heq] at hentering ⊢
    rw [Code.heapAfter_append, h.heapAfter_to hvalue hreader (entering_append.mp hentering).1 hfirst,
      h.heapAfter_front hreader hlt houter hsecond, hindex, Scope.getElem?_values hmore, hslot,
      hvalue s hs hdeclaration, ← haddress]
    rfl

/-- The variables of a function lie at their slots exactly if no body with
variables has ended in front of a declaration that is reached. In general a
variable lies in front of its slot by the number of variables that have gone. -/
theorem compile_storesAtSlots_iff [Inhabited α] (h : f.compile m r = .ok p) :
    (f.StoresAtSlots α m r p.code ↔
      ∀ s ∈ f.sites m r, s.slot?.isSome = true → s.Reached p.code →
        f.closedBefore s.position = 0) ∧
    ∀ s ∈ f.sites m r, ∀ slot, s.slot? = some slot →
      f.closedBefore s.position ≤ slot ∧ ∀ (top : Nat → α) (heap : List α),
        heap.length = f.parameter.toList.length →
          s.Stored p.code top heap slot (slot - f.closedBefore s.position) := by
  obtain ⟨prologue, scope, block, haccepted⟩ := exists_accepted h
  have hle : ∀ s ∈ f.sites m r, ∀ slot, s.slot? = some slot → f.closedBefore s.position ≤ slot := by
    intro s hs slot hslot
    obtain ⟨_, rfl⟩ := Site.of_slot?_eq_some hslot
    rw [haccepted.count_eq_add hs]
    exact Nat.le_add_left _ _
  refine ⟨⟨?_, ?_⟩, ?_⟩
  · rintro hstores s hs hsome ⟨before, address, haddress, hentering, hflow⟩
    obtain ⟨slot, hslot⟩ := Option.isSome_iff_exists.mp hsome
    have hstart : (List.replicate f.parameter.toList.length (default : α)).length =
      f.parameter.toList.length := List.length_replicate
    -- The index of the store is the slot, and it is also smaller by what has gone.
    have hindex :=
      (hstores s hs slot hslot (fun _ => default) _ hstart haddress hentering hflow).2.1
    have hindex' :=
      (haccepted.stored hs hslot (fun _ => default) hstart haddress hentering hflow).2.1
    have hgone := hle s hs slot hslot
    omega
  · intro hnone s hs slot hslot top heap hheap before address haddress hentering hflow
    have hgone := hnone s hs (by simp [hslot]) ⟨before, address, haddress, hentering, hflow⟩
    have hstored := haccepted.stored hs hslot top hheap haddress hentering hflow
    rw [hgone, Nat.sub_zero] at hstored
    exact hstored
  · intro s hs slot hslot
    exact ⟨hle s hs slot hslot, fun top heap hheap => haccepted.stored hs hslot top hheap⟩

/-- In a function that declares in one body only, variables lie at their slots. -/
theorem storesAtSlots_guardedVariable :
    ∃ p, guardedVariable.compile {} .ofFlag = .ok p ∧
      guardedVariable.StoresAtSlots Nat {} .ofFlag p.code := by
  have hcode : (guardedVariable.compile {} .ofFlag).toOption.map Procedure.code =
      some [.enforceSchema 0 0, .copyFromHeap 0, .negate, .jumpIf 6, .int 1, .moveToHeap,
        .truncateHeap 1, .copyFromHeap 0, .returnTop] := by
    decide +kernel
  have hnone : (guardedVariable.sites {} .ofFlag).all
      (fun s => s.slot?.isNone || guardedVariable.closedBefore s.position == 0) = true := by
    decide +kernel
  obtain ⟨p, hp, _⟩ := exists_procedure hcode
  refine ⟨p, hp, (compile_storesAtSlots_iff hp).1.mpr ?_⟩
  intro s hs hsome _
  have hfacts := List.all_eq_true.mp hnone s hs
  obtain ⟨slot, hslot⟩ := Option.isSome_iff_exists.mp hsome
  simpa [hslot] using hfacts

/-- A variable behind a body with a variable of its own. -/
def lateVariable : Function :=
  ofFlag (some .int)
    [.ifThen {} .flag [.create {} "a" .int (.number {} "1")],
      .create {} "b" .int (.number {} "3"),
      .ret {} (some (.reference {} "b" []))]

/-- The variable has the third slot, and lies second on the heap. -/
theorem not_storesAtSlots_lateVariable :
    ¬ ∀ (m : Manifest) (r : Registry) (f : Function) (p : Procedure), f.compile m r = .ok p →
      f.StoresAtSlots Nat m r p.code := by
  intro hall
  have hcode : (lateVariable.compile {} .ofFlag).toOption.map Procedure.code =
      some [.enforceSchema 0 0, .copyFromHeap 0, .negate, .jumpIf 6, .int 1, .moveToHeap,
        .truncateHeap 1, .int 3, .moveToHeap, .copyFromHeap 2, .returnTop] := by
    decide +kernel
  have hsite : (lateVariable.sites {} .ofFlag).any
      (fun s => s.slot? == some 2 && s.stop == 9) = true := by
    decide +kernel
  obtain ⟨p, hp, hcode⟩ := exists_procedure hcode
  obtain ⟨s, hs, hfacts⟩ := List.any_eq_true.mp hsite
  simp only [Bool.and_eq_true, beq_iff_eq] at hfacts
  have hflow : Flow p.code 0
      [⟨0, false⟩, ⟨1, false⟩, ⟨2, false⟩, ⟨3, false⟩, ⟨4, false⟩, ⟨5, false⟩, ⟨6, false⟩,
        ⟨7, false⟩] 8 := by
    rw [hcode]
    exact .step rfl rfl (.step rfl rfl (.step rfl rfl (.step rfl rfl (.step rfl rfl
      (.step rfl rfl (.step rfl rfl (.single false rfl rfl)))))))
  have hindex := (hall {} .ofFlag lateVariable p hp s hs 2 hfacts.1 (fun _ => 0) [7] rfl
    hfacts.2.symm (by simp [Entering]) hflow).2.1
  rw [hcode] at hindex
  exact absurd hindex (by decide)

end Function

end StoredProc
