import StoredProc.Proofs.Compile.ReturnFlow

/-! # Returns on all ways

Whether a function returns is decided by its last statement alone. This is enough
for all ways through its code: branches are left at their ends, so every way that
has not returned inside of a branch gets to the last statement, and control goes
forward only, so it gets there in as many steps as there are instructions.
-/

namespace StoredProc

variable {m : Manifest} {target : DataType}

/-! ## Ways that return -/

/-- On every way from an address a return is executed within some number of steps. -/
def Code.ReturnsWithin (code : Code) : Nat → Nat → Prop
  | 0, _ => False
  | steps + 1, address =>
    ∃ instruction, code[address]? = some instruction ∧
      (instruction = .returnTop ∨
        ∀ jumped next, instruction.next? address jumped = some next →
          ReturnsWithin code steps next)

/-- If control goes forward and stays inside of the code, it has to return. -/
theorem Code.returnsWithin_of_forward {code : Code} (hforward : code.Forward) {start steps : Nat}
    (hinside : ∀ ⦃transits : List Transit⦄ ⦃address : Nat⦄, Flow code start transits address →
      address < code.length)
    (hsteps : code.length ≤ steps + start) : code.ReturnsWithin steps start := by
  induction steps generalizing start with
  | zero =>
      have hlt := hinside (.stay start)
      omega
  | succ steps ih =>
      have hinstruction := List.getElem?_eq_getElem (hinside (.stay start))
      refine ⟨_, hinstruction, Or.inr ?_⟩
      intro jumped next hnext
      have hlt := hforward hinstruction hnext
      apply ih
      · intro transits address hflow
        exact hinside (.step hinstruction hnext hflow)
      · omega

/-! ## Statements that return -/

namespace Statement

/-- Nothing stands behind a return of a list. -/
def ReturnsLast (statements : List Statement) : Prop :=
  ∀ before statement after, statements = before ++ statement :: after →
    statement.isReturn = true → after = []

theorem ReturnsLast.cons {statement : Statement} {rest : List Statement}
    (hfirst : statement.isReturn = true → rest = []) (hrest : ReturnsLast rest) :
    ReturnsLast (statement :: rest) := by
  intro before found after heq hreturn
  cases before with
  | nil =>
      obtain ⟨rfl, rfl⟩ := List.cons.inj heq
      exact hfirst hreturn
  | cons first before => exact hrest before found after (List.cons.inj heq).2 hreturn

/-- A list of statements counts as returning if its last statement is a return. -/
theorem exists_last_of_returned {scope : Scope} {block : Block} {statements : List Statement}
    (h : compileAll m target scope none statements = .ok block)
    (hreturned : block.returned ≠ none) :
    ∃ last, statements.getLast? = some last ∧ last.isReturn = true := by
  induction statements generalizing scope block with
  | nil =>
      unfold compileAll at h
      cases h
      exact absurd rfl hreturned
  | cons statement rest ih =>
      obtain ⟨first, tail, hfirst, htail, rfl⟩ := exists_of_compileAll_cons h
      cases hfound : first.returned with
      | none =>
          rw [hfound] at htail
          obtain ⟨last, hlast, hreturn⟩ := ih htail hreturned
          exact ⟨last, by rw [List.getLast?_cons, hlast]; rfl, hreturn⟩
      | some loc =>
          rw [hfound] at htail
          obtain ⟨rfl, -⟩ := eq_nil_of_compileAll_some htail
          rcases compile_cases hfirst with ⟨_, _, _, hreturn⟩ | ⟨_, _, _, _, _, _, _, _, _, rfl⟩
          · exact ⟨statement, rfl, hreturn.mpr (by simp [hfound])⟩
          · cases hfound

end Statement

/-- A return that is accepted has a value exactly if one is expected. -/
theorem Plain.return_cases {scope after : Scope} {loc : Location} {value : Option Expr}
    {code : Code}
    (h : Plain m target scope (.ret loc value) code after) :
    value = none ∧ (target.isNothing || target.isAny) = true ∨
      value.isSome = true ∧ target.isNothing = false := by
  cases h with
  | bareReturn htarget => exact Or.inl ⟨rfl, htarget⟩
  | valueReturn htarget => exact Or.inr ⟨rfl, htarget⟩

namespace Lowering

variable {scope final : Scope} {statements : List Statement} {steps : List Step}

/-- Statements behind a return are refused. -/
theorem returnsLast (h : Lowering m target scope statements steps final) :
    Statement.ReturnsLast statements := by
  induction h with
  | done =>
      intro before statement after heq
      simp at heq
  | plain _ _ hlast _ ih => exact .cons hlast ih
  | branch _ _ _ _ _ _ ih => exact .cons nofun ih

/-- Without an expected value no instruction returns. -/
theorem returnTop_notMem (h : Lowering m target scope statements steps final)
    (htarget : target.isNothing = true) (base : Nat) :
    Instruction.returnTop ∉ Step.assembleAll base steps := by
  have hvalue : ∀ {scope : Scope} {code : Code}, code.Computes scope → .returnTop ∉ code :=
    fun hcomputes hmem => hcomputes _ hmem
  induction h generalizing base with
  | done => simp [Step.assembleAll]
  | plain _ hplain _ _ ih =>
      rw [Step.assembleAll, List.mem_append]
      rintro (hmem | hmem)
      · cases hplain with
        | effect hcode => exact hvalue (Expr.code_computes hcode) hmem
        | create hcode => simp [Step.assemble, hvalue (Expr.code_computes hcode)] at hmem
        | bareReturn => simp [Step.assemble] at hmem
        | valueReturn hsome => simp [htarget] at hsome
      · exact ih _ hmem
  | @branch _ _ _ _ _ _ _ _ block _ _ htest _ _ _ ihinner ihrest =>
      rw [Step.assembleAll, List.mem_append]
      rintro (hmem | hmem)
      · have hcleanup : Instruction.returnTop ≠ Step.cleanup block.scope.stop.1 := by
          rcases Step.cleanup_cases block.scope.stop.1 with heq | ⟨_, heq⟩
          · simp [heq]
          · simp [heq]
        simp [Step.assemble, hvalue (Expr.code_computes htest), ihinner, hcleanup] at hmem
      · exact ihrest _ hmem

end Lowering

namespace Function

variable {r : Registry} {f : Function} {p : Procedure}

/-- A function that is accepted returns in the end, unless it returns nothing. -/
theorem exists_accepted_returned (h : f.compile m r = .ok p) :
    ∃ prologue scope block, f.Accepted m r p prologue scope block ∧
      (f.target.isNothing = false → block.returned ≠ none) := by
  obtain ⟨prologue, scope, block, haccepted⟩ := exists_accepted h
  refine ⟨prologue, scope, block, haccepted, ?_⟩
  intro htarget hnone
  have hresult : (compilation m r f).result = .ok p := mapError_ok_iff.mp h
  simp [compilation, haccepted.entry_eq, haccepted.body_compile, finish, hnone, htarget] at hresult

namespace Accepted

variable {prologue : Code} {scope : Scope} {block : Block}

/-- A statement that is a return, at any depth. -/
theorem return_cases (h : f.Accepted m r p prologue scope block) {o : Occurrence}
    (ho : o ∈ f.occurrences) {loc : Location} {value : Option Expr}
    (hreturn : o.statement = .ret loc value) :
    value = none ∧ (f.target.isNothing || f.target.isAny) = true ∨
      value.isSome = true ∧ f.target.isNothing = false := by
  obtain ⟨s, hs, rfl⟩ := h.exists_site ho
  rcases h.site_cases hs with ⟨_, _, _, _, hplain, _⟩ | ⟨_, _, _, _, _, hbranch, _⟩
  · rw [hreturn] at hplain
    exact hplain.return_cases
  · rw [hreturn] at hbranch
    cases hbranch

/-- Nothing stands behind a return in any body of a function that compiles. -/
theorem returnsLast (h : f.Accepted m r p prologue scope block) {o : Occurrence}
    (ho : o ∈ f.occurrences) {loc : Location} {condition : Expr} {body : List Statement}
    (hbranch : o.statement = .ifThen loc condition body) : Statement.ReturnsLast body := by
  obtain ⟨s, hs, rfl⟩ := h.exists_site ho
  obtain ⟨_, _, hparts⟩ := h.exists_branch hs hbranch
  exact hparts.lowering.returnsLast

/-- No way gets behind the last instruction if the last statement returns a value. -/
theorem lt_length (h : f.Accepted m r p prologue scope block) {loc : Location} {value : Expr}
    (hlast : f.body.getLast? = some (.ret loc (some value))) {transits : List Transit}
    {address : Nat} (hflow : Flow p.code 0 transits address) : address < p.code.length := by
  refine Nat.lt_of_not_le fun hout => ?_
  rw [h.length_eq] at hout
  obtain ⟨_, _, _, _, hbody, _⟩ := h.split_prologue hflow (by omega)
  obtain ⟨through, _, _, hthrough, _⟩ :=
    hbody.split (h.lowering.closed h.lies) (Nat.le_refl _) (Nat.le_add_right _ _) (by omega)
  exact (h.lowering.exists_flow_iff h.lies h.forward).mp ⟨through, hthrough⟩ loc value hlast

end Accepted

/-- The statement at the end of a body is one of its statements. -/
theorem exists_occurrence_of_getLast? {last : Statement} (h : f.body.getLast? = some last) :
    ∃ o ∈ f.occurrences, o.statement = last := by
  unfold occurrences
  generalize f.body = statements at h
  suffices ∀ index, ∃ o ∈ Statement.occurrences index statements, o.statement = last from this 0
  induction statements with
  | nil => simp at h
  | cons statement rest ih =>
      intro index
      rw [Statement.occurrences]
      cases rest with
      | nil =>
          obtain rfl : statement = last := by simpa using h
          exact ⟨⟨[index], statement⟩, by simp, rfl⟩
      | cons next rest =>
          obtain ⟨o, ho, heq⟩ := ih (by simpa using h) (index + 1)
          exact ⟨o, List.mem_append_right _ ho, heq⟩

/-- Returns stand last, at any depth. A function with a result ends in a return of
a value, has no other kind of return, and returns on all ways through its code. A
function without a result has no instruction that returns. -/
theorem compile_returns (h : f.compile m r = .ok p) :
    (Statement.ReturnsLast f.body ∧ ∀ o ∈ f.occurrences, ∀ loc condition body,
      o.statement = .ifThen loc condition body → Statement.ReturnsLast body) ∧
    (∀ type, f.result = some type → type ≠ .nothing → type ≠ .any →
      (∃ loc value, f.body.getLast? = some (.ret loc (some value))) ∧
      (∀ o ∈ f.occurrences, ∀ loc, o.statement ≠ .ret loc none) ∧
      p.code.ReturnsWithin p.code.length 0) ∧
    (f.result = none ∨ f.result = some .nothing → .returnTop ∉ p.code) := by
  obtain ⟨prologue, scope, block, haccepted, hreturned⟩ := exists_accepted_returned h
  refine ⟨⟨haccepted.lowering.returnsLast, ?_⟩, ?_, ?_⟩
  · intro o ho loc condition body hbranch
    exact haccepted.returnsLast ho hbranch
  · intro type hresult hnothing hany
    have htarget : f.target = type := by simp [target, hresult]
    have hsome : f.target.isNothing = false := by cases type <;> simp_all [DataType.isNothing]
    have hbare : (f.target.isNothing || f.target.isAny) = false := by
      cases type <;> simp_all [DataType.isNothing, DataType.isAny]
    have hvalues : ∀ o ∈ f.occurrences, ∀ loc, o.statement ≠ .ret loc none := by
      intro o ho loc heq
      rcases haccepted.return_cases ho heq with ⟨_, hbare'⟩ | ⟨hvalue, _⟩
      · rw [hbare] at hbare'
        cases hbare'
      · cases hvalue
    obtain ⟨last, hlast, hreturn⟩ :=
      Statement.exists_last_of_returned haccepted.body_compile (hreturned hsome)
    obtain ⟨o, ho, hstatement⟩ := exists_occurrence_of_getLast? hlast
    cases last with
    | ret loc value =>
        cases value with
        | none => exact absurd hstatement (hvalues o ho loc)
        | some value =>
            refine ⟨⟨loc, value, hlast⟩, hvalues, ?_⟩
            apply Code.returnsWithin_of_forward haccepted.forward
            · intro transits address hflow
              exact haccepted.lt_length hlast hflow
            · omega
    | _ => cases hreturn
  · intro hresult
    have htarget : f.target.isNothing = true := by
      rcases hresult with hresult | hresult
      · rw [target, hresult]
        rfl
      · rw [target, hresult]
        rfl
    rw [haccepted.code_eq, List.mem_append]
    rintro (hmem | hmem)
    · exact absurd (haccepted.prologue_straight _ hmem) (by simp [Instruction.isStraight])
    · exact haccepted.lowering.returnTop_notMem htarget _ hmem

/-- A return in a branch in a branch, behind a variable. -/
def nestedReturns : Function :=
  ofFlag (some .bool)
    [.ifThen {} .flag
      [.create {} "v" .int (.number {} "1"), .ifThen {} .flag [.ret {} (some .flag)]],
      .ret {} (some .flag)]

/-- Every way through the function returns within fifteen steps. -/
theorem compile_returns_nestedReturns :
    ∃ p, nestedReturns.compile {} .ofFlag = .ok p ∧
      Statement.ReturnsLast nestedReturns.body ∧ p.code.ReturnsWithin 15 0 := by
  have hcode : (nestedReturns.compile {} .ofFlag).toOption.map Procedure.code =
      some [.enforceSchema 0 0, .copyFromHeap 0, .negate, .jumpIf 12, .int 1, .moveToHeap,
        .copyFromHeap 0, .negate, .jumpIf 11, .copyFromHeap 0, .returnTop, .noop,
        .truncateHeap 1, .copyFromHeap 0, .returnTop] := by
    decide +kernel
  obtain ⟨p, hp, hcode⟩ := exists_procedure hcode
  obtain ⟨⟨hlast, _⟩, hresult, _⟩ := compile_returns hp
  obtain ⟨_, _, hreturns⟩ := hresult .bool rfl nofun nofun
  rw [hcode] at hreturns
  exact ⟨p, hp, hlast, hcode ▸ hreturns⟩

end Function

end StoredProc
