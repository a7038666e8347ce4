import StoredProc.Proofs.Compile.BranchFlow
import StoredProc.Proofs.Machine.Operands

/-! # The operands of compiled code

An expression leaves one value, and appending to a store leaves none. So where an
append stands as a value, the code around it is one value short. That is all that
can be missing: statements without such an append find all their operands, whatever
way control takes.
-/

namespace StoredProc

/-! ## Appends that stand as values -/

/-- Whether a reference appends to a store. -/
def Expr.isAppend (m : Manifest) (name : String) : List Dot → Bool
  | .method _ method _ :: _ => method == "append" && (m.store? name).isSome
  | _ => false

@[simp]
theorem Expr.isAppend_nil (m : Manifest) (name : String) : isAppend m name [] = false := rfl

mutual

/-- The number of appends to a store that stand as values in an expression. -/
@[simp]
def Expr.appends (m : Manifest) : Expr → Nat
  | .reference _ name dots => (if Expr.isAppend m name dots then 1 else 0) + Dot.appendsAll m dots
  | .string .. | .number .. => 0
  | .array _ elements => Expr.appendsAll m elements
  | .object _ fields => Expr.appendsFields m fields
  | .lambda _ _ body => Statement.appendsAll m body

@[simp]
def Dot.appends (m : Manifest) : Dot → Nat
  | .field .. => 0
  | .method _ _ args => Expr.appendsAll m args

/-- An append that is a statement of its own does not count. -/
@[simp]
def Statement.appends (m : Manifest) : Statement → Nat
  | .reference _ _ dots => Dot.appendsAll m dots
  | .create _ _ _ value => value.appends m
  | .ret _ none => 0
  | .ret _ (some value) => value.appends m
  | .ifThen _ condition body => condition.appends m + Statement.appendsAll m body
  | .forIn _ _ iterable body => iterable.appends m + Statement.appendsAll m body

@[simp]
def Expr.appendsAll (m : Manifest) : List Expr → Nat
  | [] => 0
  | expr :: rest => expr.appends m + Expr.appendsAll m rest

@[simp]
def Expr.appendsFields (m : Manifest) : List (String × Expr) → Nat
  | [] => 0
  | (_, value) :: rest => value.appends m + Expr.appendsFields m rest

@[simp]
def Dot.appendsAll (m : Manifest) : List Dot → Nat
  | [] => 0
  | dot :: rest => dot.appends m + Dot.appendsAll m rest

@[simp]
def Statement.appendsAll (m : Manifest) : List Statement → Nat
  | [] => 0
  | statement :: rest => statement.appends m + Statement.appendsAll m rest

end

/-- The number of appends to a store that stand as values in a function. -/
def Function.appends (m : Manifest) (f : Function) : Nat := Statement.appendsAll m f.body

namespace Part

@[simp]
def appends (m : Manifest) : Part → Nat
  | .value _ expr _ => expr.appends m
  | .elements _ exprs | .records _ _ exprs => Expr.appendsAll m exprs
  | .fields _ entries _ => Expr.appendsFields m entries
  | .chain _ dots _ | .change _ dots _ => Dot.appendsAll m dots

/-- The number of values a part works on. -/
@[simp]
def operands : Part → Nat
  | .elements .. | .fields .. | .chain .. => 1
  | .value .. | .records .. | .change .. => 0

/-- The number of values a part adds. -/
@[simp]
def results : Part → Nat
  | .value .. | .change .. => 1
  | .elements .. | .fields .. | .records .. | .chain .. => 0

end Part

/-! ## Expressions -/

namespace Elaborates

variable {m : Manifest} {scope : Scope} {part : Part} {code : Code} {depth last : Nat}

attribute [local simp] Instruction.onDepth Instruction.operands Instruction.results

/-- No chain behind a variable appends to a store. -/
theorem isAppend_eq_false {current type : DataType} {dots : List Dot} (name : String)
    (h : Elaborates m scope (.chain current dots type) code) :
    Expr.isAppend m name dots = false := by
  cases h <;> simp [Expr.isAppend]

/-- If all operands are there, then one value is missing for each append. -/
theorem depth_eq (h : Elaborates m scope part code) (hdepth : code.depthFrom depth = some last) :
    last + part.appends m = depth + part.results := by
  induction h generalizing depth last with
  | ofVariable _ _ hchain _ ih =>
      have hbalance := ih (Code.depthFrom_cons.mp hdepth).2
      simp [hchain.isAppend_eq_false] at hbalance ⊢
      omega
  | append _ hstore _ ih =>
      have hbalance := ih hdepth
      simp [Expr.isAppend, hstore] at hbalance ⊢
      omega
  | all | count | rows | pointers | text | int | double =>
      simp at hdepth
      simp [Expr.isAppend, hdepth]
  | array _ ih | openArray _ ih | object _ _ _ _ ih | openObject _ _ ih =>
      have hbalance := ih (Code.depthFrom_cons.mp hdepth).2
      simp at hbalance ⊢
      omega
  | noElements | noFields | noRecords | stop =>
      simp at hdepth
      simp [hdepth]
  | element _ _ ihvalue ihrest | record _ _ ihvalue ihrest =>
      rw [Code.depthFrom_append] at hdepth
      simp only [Code.depthFrom_cons] at hdepth
      obtain ⟨middle, hvalue, hle, hdepth⟩ := hdepth
      have hfirst := ihvalue hvalue
      have hsecond := ihrest hdepth
      simp at hle hfirst hsecond ⊢
      omega
  | field _ _ ihvalue ihrest =>
      obtain ⟨middle, hvalue, hdepth⟩ := Code.depthFrom_append.mp hdepth
      obtain ⟨hle, hdepth⟩ := Code.depthFrom_cons.mp hdepth
      have hfirst := ihvalue (Code.depthFrom_cons.mp hvalue).2
      have hsecond := ihrest hdepth
      simp at hle hfirst hsecond ⊢
      omega
  | access _ _ ih =>
      obtain ⟨_, hdepth⟩ := Code.depthFrom_cons.mp hdepth
      obtain ⟨hle, hdepth⟩ := Code.depthFrom_cons.mp hdepth
      have hbalance := ih hdepth
      simp at hle hbalance ⊢
      omega
  | delete _ _ ih | find _ _ ih | length _ ih =>
      obtain ⟨hle, hdepth⟩ := Code.depthFrom_cons.mp hdepth
      have hbalance := ih hdepth
      simp at hle hbalance ⊢
      omega
  | update _ _ _ _ ihchange ihrest =>
      obtain ⟨middle, hvalue, hdepth⟩ := Code.depthFrom_append.mp hdepth
      obtain ⟨hle, hdepth⟩ := Code.depthFrom_cons.mp hdepth
      obtain ⟨hle', hdepth⟩ := Code.depthFrom_cons.mp hdepth
      have hfirst := ihchange (Code.depthFrom_cons.mp hvalue).2
      have hsecond := ihrest hdepth
      simp at hle hle' hfirst hsecond ⊢
      omega
  | push _ ih | descend _ _ ih =>
      have hbalance := ih hdepth
      simpa using hbalance

/-- Without appends that stand as values no operand is missing. -/
theorem depthFrom_eq (h : Elaborates m scope part code) (hzero : part.appends m = 0)
    (depth : Nat) :
    code.depthFrom (depth + part.operands) = some (depth + part.operands + part.results) := by
  induction h generalizing depth with
  | ofVariable _ _ _ _ ih =>
      simp at hzero
      simpa using ih hzero.2 depth
  | append _ hstore _ _ => simp [Expr.isAppend, hstore] at hzero
  | all | count | rows | pointers | text | int | double => simp
  | array _ ih | openArray _ ih | object _ _ _ _ ih | openObject _ _ ih =>
      simpa using ih hzero depth
  | noElements | noFields | noRecords | stop => simp
  | element _ _ ihvalue ihrest =>
      simp at hzero
      rw [Code.depthFrom_append]
      refine ⟨depth + 2, ihvalue hzero.1 (depth + 1), ?_⟩
      simpa using ihrest hzero.2 depth
  | record _ _ ihvalue ihrest =>
      simp at hzero
      rw [Code.depthFrom_append]
      refine ⟨depth + 1, ihvalue hzero.1 depth, ?_⟩
      simpa using ihrest hzero.2 depth
  | field _ _ ihvalue ihrest =>
      simp at hzero
      rw [Code.depthFrom_append]
      refine ⟨depth + 3, by simpa using ihvalue hzero.1 (depth + 2), ?_⟩
      simpa using ihrest hzero.2 depth
  | access _ _ ih => simpa using ih (by simpa using hzero) depth
  | delete _ _ ih | find _ _ ih | length _ ih => simpa using ih (by simpa using hzero) depth
  | update _ _ _ _ ihchange ihrest =>
      simp at hzero
      rw [Code.depthFrom_append]
      refine ⟨depth + 3, by simpa using ihchange hzero.1 (depth + 2), ?_⟩
      simpa using ihrest hzero.2 depth
  | push _ ih | descend _ _ ih => simpa using ih (by simpa using hzero) depth

/-- What works on a value leaves one, even if some operands were others' values. -/
theorem operands_le (h : Elaborates m scope part code) (hle : part.operands ≤ depth)
    (hdepth : code.depthFrom depth = some last) : part.operands ≤ last := by
  induction h generalizing depth with
  | noElements | noFields | stop =>
      simp at hdepth
      exact hdepth ▸ hle
  | element _ _ _ ihrest | field _ _ _ ihrest =>
      obtain ⟨middle, _, hdepth⟩ := Code.depthFrom_append.mp hdepth
      exact ihrest (Nat.le_add_left _ _) (Code.depthFrom_cons.mp hdepth).2
  | access _ _ ih =>
      obtain ⟨_, hdepth⟩ := Code.depthFrom_cons.mp hdepth
      exact ih (Nat.le_add_left _ _) (Code.depthFrom_cons.mp hdepth).2
  | delete _ _ ih | find _ _ ih | length _ ih =>
      exact ih (Nat.le_add_left _ _) (Code.depthFrom_cons.mp hdepth).2
  | update _ _ _ _ _ ihrest =>
      obtain ⟨middle, _, hdepth⟩ := Code.depthFrom_append.mp hdepth
      obtain ⟨_, hdepth⟩ := Code.depthFrom_cons.mp hdepth
      exact ihrest (Nat.le_add_left _ _) (Code.depthFrom_cons.mp hdepth).2
  | _ => exact Nat.zero_le _

section Reference

variable {target type : DataType} {loc : Location} {name : String} {dots : List Dot}

/-- A reference appends to a store, or it leaves a value. -/
theorem reference_cases
    (h : Elaborates m scope (.value target (.reference loc name dots) type) code) :
    (∃ methodLoc schema args, dots = [.method methodLoc "append" args] ∧
        Elaborates m scope (.records name schema args) code) ∨
      Expr.isAppend m name dots = false ∧
        ∀ depth last, code.depthFrom depth = some last → 0 < last := by
  cases h with
  | ofVariable _ _ hchain _ =>
      refine Or.inr ⟨hchain.isAppend_eq_false name, fun depth last hdepth => ?_⟩
      exact hchain.operands_le (Nat.le_add_left _ _) (Code.depthFrom_cons.mp hdepth).2
  | append _ _ hrecords => exact Or.inl ⟨_, _, _, rfl, hrecords⟩
  | all | count | rows | pointers =>
      refine Or.inr ⟨by simp [Expr.isAppend], fun depth last hdepth => ?_⟩
      simp at hdepth
      omega

/-- A reference that is there for its effect leaves a value or none. -/
theorem exists_depthFrom_of_reference
    (h : Elaborates m scope (.value target (.reference loc name dots) type) code)
    (hzero : Dot.appendsAll m dots = 0) :
    ∃ more, ∀ depth, code.depthFrom depth = some (depth + more) := by
  rcases h.reference_cases with ⟨_, _, _, rfl, hrecords⟩ | ⟨hvalue, _⟩
  · exact ⟨0, hrecords.depthFrom_eq (by simpa using hzero)⟩
  · exact ⟨1, h.depthFrom_eq (by simp [hvalue, hzero])⟩

/-- The arguments of a reference that finds its operands append nothing. -/
theorem appendsAll_eq_zero_of_reference
    (h : Elaborates m scope (.value target (.reference loc name dots) type) code)
    (hdepth : code.depthFrom 0 = some last) : Dot.appendsAll m dots = 0 := by
  rcases h.reference_cases with ⟨_, _, _, rfl, hrecords⟩ | ⟨hvalue, hpos⟩
  · have hbalance := hrecords.depth_eq hdepth
    simp at hbalance ⊢
    omega
  · have hbalance := h.depth_eq hdepth
    have hlast := hpos 0 last hdepth
    simp [hvalue] at hbalance
    omega

end Reference

end Elaborates

/-! ## Statements -/

namespace Code.Supplies

variable {code : Code} {start depth last : Nat}

/-- Straight-line code hands on what it leaves. -/
theorem of_lies {part : Code} (hlies : code.Lies start part)
    (hjumps : ∀ goal, .jumpIf goal ∉ part) (hdepth : depthFrom depth part = some last)
    (hend : code.Supplies (start + part.length) last) : code.Supplies start depth := by
  induction part generalizing start depth with
  | nil =>
      obtain rfl : depth = last := by simpa [depthFrom] using hdepth
      exact hend
  | cons instruction rest ih =>
      obtain ⟨hoperands, hdepth⟩ := depthFrom_cons.mp hdepth
      refine step hlies.1 hoperands ?_
      intro jumped next hnext
      obtain rfl : next = start + 1 := by
        cases instruction with
        | jumpIf goal => exact absurd (List.mem_cons_self ..) (hjumps goal)
        | returnTop => cases hnext
        | _ => cases jumped <;> cases hnext; rfl
      apply ih hlies.2 (fun goal h => hjumps goal (List.mem_cons_of_mem _ h)) hdepth
      rwa [List.length_cons, Nat.add_comm rest.length, ← Nat.add_assoc] at hend

/-- Straight-line code that finds its operands has a depth at its end. -/
theorem exists_depthFrom {part : Code} (h : code.Supplies start depth)
    (hlies : code.Lies start part) (hreturn : .returnTop ∉ part) :
    ∃ last, depthFrom depth part = some last ∧ code.Supplies (start + part.length) last := by
  induction part generalizing start depth with
  | nil => exact ⟨depth, rfl, h⟩
  | cons instruction rest ih =>
      have hnext : instruction.next? start false = some (start + 1) := by
        cases instruction with
        | returnTop => exact absurd (List.mem_cons_self ..) hreturn
        | _ => rfl
      obtain ⟨last, hdepth, hend⟩ :=
        ih (h.next hlies.1 hnext) hlies.2 fun h => hreturn (List.mem_cons_of_mem _ h)
      refine ⟨last, depthFrom_cons.mpr ⟨h.operands_le hlies.1, hdepth⟩, ?_⟩
      rwa [List.length_cons, Nat.add_comm rest.length, ← Nat.add_assoc]

end Code.Supplies

variable {m : Manifest} {target : DataType} {scope : Scope} {code : Code} {base : Nat}

/-- A value for an instruction that takes it is there exactly if no append stands in
its place. -/
theorem Expr.appends_eq_zero_of_supplies {expr : Expr} {type : DataType} {part : Code}
    {last : Instruction} (hpart : expr.code m scope target = .ok (part, type))
    (hlies : code.Lies base (part ++ [last])) (hoperands : last.operands = 1)
    (h : code.Supplies base 0) : expr.appends m = 0 := by
  have hreturn : .returnTop ∉ part := fun hmem => Expr.code_computes hpart _ hmem
  rw [Code.Lies.append] at hlies
  obtain ⟨depth, hdepth, hend⟩ := h.exists_depthFrom hlies.1 hreturn
  have hbalance := (Expr.elaborates_of_code hpart).depth_eq hdepth
  have hle := hend.operands_le hlies.2.1
  simp only [Part.appends, Part.results] at hbalance
  omega

namespace Plain

variable {after : Scope} {statement : Statement} {part : Code}

/-- The code of a statement without appends adds the same number of values to every stack. -/
theorem exists_depthFrom (h : Plain m target scope statement part after)
    (hzero : statement.appends m = 0) :
    ∃ more, ∀ depth, part.depthFrom depth = some (depth + more) := by
  cases h with
  | effect hcode =>
      exact (Expr.elaborates_of_code hcode).exists_depthFrom_of_reference (by simpa using hzero)
  | create hcode | valueReturn _ hcode =>
      refine ⟨0, fun depth => ?_⟩
      have hvalue := (Expr.elaborates_of_code hcode).depthFrom_eq
        (by simpa using hzero) depth
      rw [Code.depthFrom_append]
      exact ⟨_, hvalue, rfl⟩
  | bareReturn => exact ⟨0, fun depth => rfl⟩

theorem jumpIf_notMem (h : Plain m target scope statement part after) (goal : Nat) :
    .jumpIf goal ∉ part := by
  have hvalue : ∀ {code : Code}, code.Computes scope → .jumpIf goal ∉ code :=
    fun hcomputes hmem => hcomputes _ hmem
  cases h with
  | effect hcode => exact hvalue (Expr.code_computes hcode)
  | create hcode | valueReturn _ hcode => simp [hvalue (Expr.code_computes hcode)]
  | bareReturn => simp

/-- A statement whose code finds its operands from an empty stack appends nothing as a value. -/
theorem appends_eq_zero (h : Plain m target scope statement part after)
    (hlies : code.Lies base part) (hsupplies : code.Supplies base 0) :
    statement.appends m = 0 := by
  cases h with
  | effect hcode =>
      have hreturn : .returnTop ∉ part := fun hmem => Expr.code_computes hcode _ hmem
      obtain ⟨last, hdepth, _⟩ := hsupplies.exists_depthFrom hlies hreturn
      simpa using (Expr.elaborates_of_code hcode).appendsAll_eq_zero_of_reference hdepth
  | create hcode => simpa using Expr.appends_eq_zero_of_supplies hcode hlies rfl hsupplies
  | valueReturn _ hcode => simpa using Expr.appends_eq_zero_of_supplies hcode hlies rfl hsupplies
  | bareReturn => simp

end Plain

namespace Site.Branch

variable {s : Site} {body : List Statement} {test : Code} {block : Block}

/-- The end of a branch needs no operands. -/
theorem supplies_finish (h : s.Branch m target code body test block)
    (hstop : ∀ depth, code.Supplies s.stop depth) (depth : Nat) : code.Supplies s.finish depth := by
  have hcleanup := h.cleanup
  rcases Step.cleanup_cases (Statement.declared body) with heq | ⟨_, heq⟩ <;> rw [heq] at hcleanup
  all_goals
    refine .step hcleanup (Nat.zero_le _) ?_
    intro jumped next hnext
    cases jumped with
    | true => cases hnext
    | false =>
        cases hnext
        rw [← h.stop_eq]
        exact hstop _

/-- A branch finds its operands on both ways, since its condition leaves the one value that the
jump takes. -/
theorem supplies (h : s.Branch m target code body test block) {condition : Expr} {type : DataType}
    (htest : condition.code m s.scope .bool = .ok (test, type)) (hzero : condition.appends m = 0)
    (hbody : ∀ depth, code.Supplies (s.jump + 1) depth)
    (hfinish : ∀ depth, code.Supplies s.finish depth) (depth : Nat) :
    code.Supplies s.base depth := by
  obtain ⟨hlies, _, hlength⟩ := h.test_negate
  have hjumps : ∀ goal, .jumpIf goal ∉ test ++ [.negate] := by
    intro goal hmem
    simp only [List.mem_append, List.mem_singleton, reduceCtorEq, or_false] at hmem
    exact Expr.code_computes htest _ hmem
  have hdepth : Code.depthFrom depth (test ++ [.negate]) = some (depth + 1) := by
    rw [Code.depthFrom_append]
    exact ⟨_, (Expr.elaborates_of_code htest).depthFrom_eq hzero depth, rfl⟩
  refine .of_lies hlies hjumps hdepth ?_
  rw [hlength]
  refine .step h.jump (Nat.le_add_left 1 depth) ?_
  intro jumped next hnext
  cases jumped with
  | true =>
      cases hnext
      exact hfinish _
  | false =>
      cases hnext
      exact hbody _

end Site.Branch

namespace Lowering

variable {final : Scope} {statements : List Statement} {steps : List Step}

/-- Without appends that stand as values every statement finds its operands, if what
comes behind them does. -/
theorem supplies (h : Lowering m target scope statements steps final)
    (hlies : code.Lies base (Step.assembleAll base steps))
    (hend : ∀ depth, code.Supplies (base + Step.sizes steps) depth)
    (hzero : Statement.appendsAll m statements = 0) (index : Nat) :
    (∀ depth, code.Supplies base depth) ∧
      ∀ s ∈ Statement.sites m target scope base index statements, ∀ depth,
        code.Supplies s.base depth := by
  induction h generalizing base index with
  | done => exact ⟨hend, by simp [Statement.sites]⟩
  | @plain scope after _ statement rest part _ steps hcompile hplain _ _ ih =>
      rw [Step.lies_assembleAll_cons] at hlies
      simp at hzero
      rw [Step.sizes, ← Nat.add_assoc] at hend
      obtain ⟨hrest, hsites⟩ := ih hlies.2 hend hzero.2 (index + 1)
      obtain ⟨more, hdepth⟩ := hplain.exists_depthFrom hzero.1
      have hfirst : ∀ depth, code.Supplies base depth := fun depth =>
        .of_lies hlies.1 hplain.jumpIf_notMem (hdepth depth) (hrest _)
      refine ⟨hfirst, ?_⟩
      intro s hs
      rcases (Statement.mem_sites_plain hcompile hplain).mp hs with rfl | hs
      · exact hfirst
      · exact hsites s hs
  | @branch scope _ loc condition body rest test _ block steps hcompile htest hbody _ _ ihinner
      ihrest =>
      rw [Step.lies_assembleAll_cons] at hlies
      simp at hzero
      rw [Step.sizes, ← Nat.add_assoc] at hend
      obtain ⟨hrest, hsites⟩ := ihrest hlies.2 hend hzero.2 (index + 1)
      have hparts := branch_first htest hbody hlies.1 0 loc
      have hfinish := hparts.supplies_finish hrest
      obtain ⟨hinner, hsites'⟩ :=
        ihinner hparts.body_lies (hparts.finish_eq' ▸ hfinish) hzero.1.2 0
      have hfirst := hparts.supplies htest hzero.1.1 hinner hfinish
      refine ⟨hfirst, ?_⟩
      intro s hs
      rcases (Statement.mem_sites_branch hcompile).mp hs with rfl | ⟨within, hwithin, rfl⟩ | hs
      · exact hfirst
      · exact hsites' within hwithin
      · exact hsites s hs

/-- Where every statement finds its operands, no append stands as a value. -/
theorem appends_eq_zero (h : Lowering m target scope statements steps final)
    (hlies : code.Lies base (Step.assembleAll base steps)) {index : Nat}
    (hsites : ∀ s ∈ Statement.sites m target scope base index statements,
      code.Supplies s.base 0) : Statement.appendsAll m statements = 0 := by
  induction h generalizing base index with
  | done => simp
  | plain hcompile hplain _ _ ih =>
      rw [Step.lies_assembleAll_cons] at hlies
      simp only [Statement.mem_sites_plain hcompile hplain] at hsites
      have hfirst := hplain.appends_eq_zero hlies.1 (hsites _ (Or.inl rfl))
      have hrest := ih hlies.2 fun s hs => hsites s (Or.inr hs)
      simp [hfirst, hrest]
  | @branch scope _ loc condition body rest test _ block steps hcompile htest hbody _ _ ihinner
      ihrest =>
      rw [Step.lies_assembleAll_cons] at hlies
      simp only [Statement.mem_sites_branch hcompile] at hsites
      have hparts := branch_first htest hbody hlies.1 index loc
      have hcondition := Expr.appends_eq_zero_of_supplies htest hparts.test_negate.1 rfl
        (hsites _ (Or.inl rfl))
      have hinner := ihinner hparts.body_lies fun s hs =>
        hsites (s.under index) (Or.inr (Or.inl ⟨s, hs, rfl⟩))
      have hrest := ihrest hlies.2 fun s hs => hsites s (Or.inr (Or.inr hs))
      simp [hcondition, hinner, hrest]

end Lowering

end StoredProc
