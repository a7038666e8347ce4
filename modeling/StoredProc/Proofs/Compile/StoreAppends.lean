import StoredProc.Proofs.Compile.OperandSupply
import StoredProc.Proofs.Compile.WrittenTypes
import StoredProc.Proofs.DataType.Concrete

/-! # Where appends to a store stand

Appending to a store is meant to be a statement. What keeps it from standing as a
value is that it goes with an open target only. So it is a statement in every
function whose types are concrete, and elsewhere it may stand as a value, where some
instruction then lacks an operand.
-/

namespace StoredProc

variable {m : Manifest} {target : DataType} {scope : Scope} {code : Code}

/-! ## Concrete targets -/

/-- What is expected of a part is concrete. -/
def Part.IsConcrete : Part → Prop
  | .value target _ _ => target.isConcrete = true
  | .elements elem _ => elem.isConcrete = true
  | .fields expected entries _ =>
    ∀ name ∈ entries.map Prod.fst, (Expr.fieldTarget expected name).isConcrete = true
  | .records _ schema _ => (DataType.object schema).isConcrete = true
  | .chain current _ _ | .change current _ _ => current.isConcrete = true

/-- The schemas of all stores are concrete. -/
def Manifest.IsConcrete (m : Manifest) : Prop :=
  ∀ name schema, m.store? name = some schema → (DataType.object schema).isConcrete = true

/-- Where all types are concrete no expression can hold an append, which has no value. -/
theorem Elaborates.appends_eq_zero {part : Part} (h : Elaborates m scope part code)
    (hstores : m.IsConcrete) (hscope : scope.AllTypes (·.isConcrete = true))
    (hpart : part.IsConcrete) : part.appends m = 0 := by
  induction h with
  | ofVariable hheld _ hchain _ ih =>
      simpa [hchain.isAppend_eq_false] using ih (hscope.of_get? hheld)
  | append | openArray | openObject => cases hpart
  | all | count | rows | pointers => simp [Expr.isAppend]
  | text | int | double | noElements | noFields | noRecords | stop => simp
  | array _ ih => exact ih hpart
  | object _ hexpected _ _ ih =>
      refine ih ?_
      intro name hname
      obtain ⟨type, htype⟩ := Option.isSome_iff_exists.mp (hexpected name hname)
      simpa [Expr.fieldTarget, htype] using DataType.isConcrete_of_field? hpart htype
  | element _ _ ihvalue ihrest => simpa using ⟨ihvalue hpart, ihrest hpart⟩
  | record _ _ ihvalue ihrest => simpa using ⟨ihvalue hpart, ihrest hpart⟩
  | field _ _ ihvalue ihrest =>
      obtain ⟨hfirst, hrest⟩ := List.forall_mem_cons.mp hpart
      simpa using ⟨ihvalue hfirst, ihrest hrest⟩
  | access hfield _ ih =>
      simpa using ih (DataType.isConcrete_of_field? hpart hfield)
  | delete _ _ ih => simpa using ih rfl
  | find hstore _ ih => simpa using ih (hstores _ _ hstore)
  | update hstore _ _ _ ihchange ihrest =>
      simpa using ⟨ihchange (hstores _ _ hstore), ihrest (hstores _ _ hstore)⟩
  | length _ ih => simpa using ih rfl
  | push _ ih => simpa using ih hpart
  | descend hfield _ ih =>
      simpa using ih (DataType.isConcrete_of_field? hpart hfield)

/-- The target of a reference does not matter for what stands inside of it. -/
theorem Elaborates.appendsAll_eq_zero {type : DataType} {loc : Location} {name : String}
    {dots : List Dot} (h : Elaborates m scope (.value target (.reference loc name dots) type) code)
    (hstores : m.IsConcrete) (hscope : scope.AllTypes (·.isConcrete = true)) :
    Dot.appendsAll m dots = 0 := by
  cases h with
  | ofVariable hheld _ hchain _ =>
      exact hchain.appends_eq_zero hstores hscope (hscope.of_get? hheld)
  | append _ hstore hrecords =>
      simpa using hrecords.appends_eq_zero hstores hscope (hstores _ _ hstore)
  | all | count | rows | pointers => simp [Expr.isAppend]

/-- Where all types are concrete no statement has an append as a value. -/
theorem Plain.appends_eq_zero_of_isConcrete {statement : Statement} {after : Scope}
    (h : Plain m target scope statement code after) (hstores : m.IsConcrete)
    (hscope : scope.AllTypes (·.isConcrete = true)) (htarget : target.isConcrete = true)
    (hdeclared : ∀ loc name type value, statement = .create loc name type value →
      type.isConcrete = true) : statement.appends m = 0 := by
  cases h with
  | effect hcode =>
      simpa using (Expr.elaborates_of_code hcode).appendsAll_eq_zero hstores hscope
  | create hcode =>
      simpa using (Expr.elaborates_of_code hcode).appends_eq_zero hstores hscope
        (hdeclared _ _ _ _ rfl)
  | bareReturn => simp
  | valueReturn _ hcode =>
      simpa using (Expr.elaborates_of_code hcode).appends_eq_zero hstores hscope htarget

/-- Where all types are concrete no block has an append as a value. -/
theorem Lowering.appends_eq_zero_of_isConcrete {final : Scope} {statements : List Statement}
    {steps : List Step} (h : Lowering m target scope statements steps final)
    (hstores : m.IsConcrete) (htarget : target.isConcrete = true) {base index : Nat}
    (hscope : ∀ s ∈ Statement.sites m target scope base index statements,
      s.scope.AllTypes (·.isConcrete = true))
    (hdeclared : ∀ o ∈ Statement.occurrences index statements, ∀ loc name type value,
      o.statement = .create loc name type value → type.isConcrete = true) :
    Statement.appendsAll m statements = 0 := by
  induction h generalizing base index with
  | done => simp
  | plain hcompile hplain _ _ ih =>
      simp only [Statement.mem_sites_plain hcompile hplain] at hscope
      rw [Statement.occurrences, List.cons_append, List.forall_mem_cons,
        List.forall_mem_append] at hdeclared
      have hfirst := hplain.appends_eq_zero_of_isConcrete hstores (hscope _ (Or.inl rfl)) htarget
        hdeclared.1
      have hrest := ih (fun s hs => hscope s (Or.inr hs)) hdeclared.2.2
      simp [hfirst, hrest]
  | branch hcompile htest _ _ _ ihinner ihrest =>
      simp only [Statement.mem_sites_branch hcompile] at hscope
      rw [Statement.occurrences, List.cons_append, List.forall_mem_cons, List.forall_mem_append,
        List.forall_mem_map] at hdeclared
      have hcondition := (Expr.elaborates_of_code htest).appends_eq_zero hstores
        (hscope _ (Or.inl rfl)) rfl
      have hinner := ihinner (fun s hs => hscope (s.under index) (Or.inr (Or.inl ⟨s, hs, rfl⟩)))
        hdeclared.2.1
      have hrest := ihrest (fun s hs => hscope s (Or.inr (Or.inr hs))) hdeclared.2.2
      simp only [Part.appends] at hcondition
      simp [hcondition, hinner, hrest]

/-! ## Functions -/

namespace Function

variable {r : Registry} {f : Function} {p : Procedure}

namespace Accepted

variable {prologue : Code} {block : Block}

/-- A function with concrete types has no append as a value. -/
theorem appends_eq_zero_of_isConcrete (h : f.Accepted m r p prologue scope block)
    (htypes : f.AllTypes (·.isConcrete = true) m) : f.appends m = 0 := by
  have htarget : f.target.isConcrete = true := by
    unfold target
    cases hresult : f.result with
    | none => rfl
    | some type => exact htypes.result type hresult
  have hscope : ∀ s ∈ f.sites m r, s.scope.AllTypes (·.isConcrete = true) :=
    fun s hs => htypes.scope (h.reaches hs)
  rw [h.sites_eq] at hscope
  exact h.lowering.appends_eq_zero_of_isConcrete htypes.stores htarget hscope htypes.declared

/-- Without appends as values, all code of a function finds its operands, from its start and from
every statement. -/
theorem supplies (h : f.Accepted m r p prologue scope block) (hzero : f.appends m = 0) :
    p.code.Supplies 0 0 ∧ ∀ s ∈ f.sites m r, p.code.Supplies s.base 0 := by
  have hend : ∀ depth, p.code.Supplies (prologue.length + Step.sizes block.steps) depth := by
    intro depth
    rw [← h.length_eq]
    exact .of_length_le (Nat.le_refl _)
  obtain ⟨hbody, hsites⟩ := h.lowering.supplies h.lies hend hzero 0
  refine ⟨?_, ?_⟩
  · have hdepth : Code.depthFrom 0 prologue = some 0 := by
      rcases entry_cases h.entry_eq with ⟨_, rfl, _⟩ | ⟨_, _, _, rfl, _⟩
      · rfl
      · rfl
    have hjumps : ∀ goal, .jumpIf goal ∉ prologue := by
      rcases entry_cases h.entry_eq with ⟨_, rfl, _⟩ | ⟨_, _, _, rfl, _⟩
      · simp
      · simp
    refine .of_lies h.prologue_lies hjumps hdepth ?_
    rw [Nat.zero_add]
    exact hbody 0
  · intro s hs
    rw [h.sites_eq] at hs
    exact hsites s hs 0

end Accepted

/-- All instructions find their operands, from the start of the procedure and of each
statement, exactly if no append to a store stands as a value. This is so if no type of
the function and of its stores is open. -/
theorem compile_supplies_iff (h : f.compile m r = .ok p) :
    ((p.code.Supplies 0 0 ∧ ∀ s ∈ f.sites m r, p.code.Supplies s.base 0) ↔ f.appends m = 0) ∧
      (f.AllTypes (·.isConcrete = true) m → f.appends m = 0) := by
  obtain ⟨prologue, scope, block, haccepted⟩ := exists_accepted h
  refine ⟨⟨?_, haccepted.supplies⟩, haccepted.appends_eq_zero_of_isConcrete⟩
  rintro ⟨_, hsites⟩
  rw [haccepted.sites_eq] at hsites
  exact haccepted.lowering.appends_eq_zero haccepted.lies hsites

/-- A new user is appended in a branch, and an open variable holds a number. -/
def guardedAppend : Function :=
  ofFlag none
    [.ifThen {} .flag [.reference {} "users" [.appendUser]],
      .create {} "v" .any (.reference {} "users" [.method {} "len" []])]

/-- An append that is a statement of its own leaves every operand in place. -/
theorem supplies_guardedAppend :
    ∃ p, guardedAppend.compile .ofUsers .ofFlag = .ok p ∧ guardedAppend.appends .ofUsers = 0 ∧
      p.code.Supplies 0 0 := by
  have hcode : (guardedAppend.compile .ofUsers .ofFlag).toOption.map Procedure.code =
      some [.enforceSchema 0 0, .copyFromHeap 0, .negate, .jumpIf 12, .newObject, .text "name",
        .text "bob", .setField 1, .text "friends", .newArray, .setField 1, .insert "users",
        .noop, .storeLen "users", .moveToHeap] := by
    decide +kernel
  have hzero : guardedAppend.appends .ofUsers = 0 := by decide
  obtain ⟨p, hp, _⟩ := exists_procedure hcode
  exact ⟨p, hp, hzero, ((compile_supplies_iff hp).1.mpr hzero).1⟩

/-- An append as the value of an open variable. -/
def appendedVariable : Function where
  name := "run"
  body := [.create {} "v" .any (.reference {} "users" [.appendUser])]

/-- An append can be the value of an open variable, and then an operand is missing. -/
theorem not_supplies_appendedVariable :
    ¬ ∀ (m : Manifest) (r : Registry) (f : Function) (p : Procedure), f.compile m r = .ok p →
      f.appends m = 0 ∧ p.code.Supplies 0 0 := by
  intro hall
  have hcode : (appendedVariable.compile .ofUsers {}).toOption.map Procedure.code =
      some [.newObject, .text "name", .text "bob", .setField 1, .text "friends", .newArray,
        .setField 1, .insert "users", .moveToHeap] := by
    decide +kernel
  obtain ⟨p, hp, hcode⟩ := exists_procedure hcode
  obtain ⟨_, hsupplies⟩ := hall .ofUsers {} appendedVariable p hp
  -- After the insertion the stack is empty, and there is nothing to store.
  have hlies : p.code.Lies 0 p.code := by simpa using Code.Lies.start p.code []
  obtain ⟨last, hlast, _⟩ := hsupplies.exists_depthFrom hlies (by simp [hcode])
  rw [hcode] at hlast
  cases hlast

end Function

end StoredProc
