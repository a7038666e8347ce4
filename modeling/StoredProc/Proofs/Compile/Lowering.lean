import StoredProc.Compile.Statement
import StoredProc.Proofs.Compile.ExpressionCode

/-! # Lowering derivations

`Lowering` relates a list of statements to the code it is compiled to, with the
scopes before and after. Every successful compilation has a derivation, and a
property of accepted bodies is proved by induction on it: there is one case for
the end of a list, one for a statement without a body, and one for a branch.

Along a derivation a scope only grows by the variables that the list itself
declares. Leaving a branch therefore restores the bindings from before it, and
the number of variables that are removed is the number declared in its body.
-/

namespace StoredProc

namespace Statement

def isDeclaration : Statement → Bool
  | .create .. => true
  | _ => false

def isReturn : Statement → Bool
  | .ret .. => true
  | _ => false

def isBranch : Statement → Bool
  | .ifThen .. => true
  | _ => false

/-- The number of variables that a list of statements declares, without those
declared inside of its branches. -/
def declared (statements : List Statement) : Nat := statements.countP isDeclaration

theorem declared_eq_one {statement : Statement} (h : statement.isDeclaration = true) :
    declared [statement] = 1 := by
  simp [declared, h]

theorem declared_append (first second : List Statement) :
    declared (first ++ second) = declared first + declared second :=
  List.countP_append

end Statement

/-! ## Growing scopes -/

namespace Scope

/-- A scope that has grown by variables of the innermost level. The new slots
come after all slots that were in use. -/
structure Extends (before after : Scope) (added : List (String × Variable)) : Prop where
  bindings : after.bindings = added ++ before.bindings
  level : after.level = added.map Prod.fst ++ before.level
  outer : after.outer = before.outer
  unbound : ∀ entry ∈ added, before.get? entry.1 = none
  slot_lt : ∀ entry ∈ added, before.count ≤ entry.2.slot ∧ entry.2.slot < after.count
  count_le : before.count ≤ after.count

namespace Extends

theorem refl (scope : Scope) : scope.Extends scope [] where
  bindings := rfl
  level := rfl
  outer := rfl
  unbound := by simp
  slot_lt := by simp
  count_le := Nat.le_refl _

/-- A name that is free after a scope has grown was free before. -/
theorem get?_eq_none {before after : Scope} {added : List (String × Variable)} {name : String}
    (h : before.Extends after added) (hnone : after.get? name = none) :
    before.get? name = none := by
  unfold get? at hnone ⊢
  rw [h.bindings, List.lookup_append, Option.or_eq_none_iff] at hnone
  exact hnone.2

/-- Scopes that grow one after the other have grown by all of the variables. -/
theorem trans {first second third : Scope} {added more : List (String × Variable)}
    (h₁ : first.Extends second added) (h₂ : second.Extends third more) :
    first.Extends third (more ++ added) where
  bindings := by rw [h₂.bindings, h₁.bindings, List.append_assoc]
  level := by rw [h₂.level, h₁.level, List.map_append, List.append_assoc]
  outer := h₂.outer.trans h₁.outer
  unbound := by
    intro entry hmem
    rcases List.mem_append.mp hmem with hmore | hadded
    · exact h₁.get?_eq_none (h₂.unbound entry hmore)
    · exact h₁.unbound entry hadded
  slot_lt := by
    intro entry hmem
    have hle := h₁.count_le
    have hle' := h₂.count_le
    rcases List.mem_append.mp hmem with hmore | hadded
    · have := h₂.slot_lt entry hmore
      omega
    · have := h₁.slot_lt entry hadded
      omega
  count_le := Nat.le_trans h₁.count_le h₂.count_le

end Extends

/-- A new variable gets the next slot, in the innermost level. -/
theorem add?_eq_some {scope after : Scope} {name : String} {type : DataType} {slot : Nat}
    (h : scope.add? name type = some (slot, after)) :
    slot = scope.count ∧ after.count = scope.count + 1 ∧
      scope.Extends after [(name, ⟨scope.count, type⟩)] := by
  unfold add? at h
  cases hget : scope.get? name with
  | some held => simp [hget] at h
  | none =>
      simp only [hget, Option.some.injEq, Prod.mk.injEq] at h
      obtain ⟨rfl, rfl⟩ := h
      refine ⟨rfl, rfl, ?_⟩
      exact
        { bindings := rfl
          level := rfl
          outer := rfl
          unbound := by simpa using hget
          slot_lt := by simp
          count_le := Nat.le_succ _ }

/-- Closing a level that has only grown gives back the bindings from before it
was opened, and tells how many variables it had. -/
theorem stop_of_extends {scope after : Scope} {added : List (String × Variable)}
    (h : scope.start.Extends after added) :
    after.stop =
      (added.length, { scope with count := after.count, highest := after.highest }) := by
  have hlevel : after.level = added.map Prod.fst := by
    simpa [start] using h.level
  have hkept : after.bindings.filter (fun entry => !after.level.contains entry.1) =
      scope.bindings := by
    have hgone : added.filter (fun entry => !after.level.contains entry.1) = [] := by
      rw [List.filter_eq_nil_iff]
      intro entry hmem
      simpa [hlevel] using ⟨entry.2, hmem⟩
    -- A level is closed by name, and the names of this one were free before.
    have hstay : scope.bindings.filter (fun entry => !after.level.contains entry.1) =
        scope.bindings := by
      rw [List.filter_eq_self]
      intro entry hmem
      have hname : entry.1 ∉ added.map Prod.fst := by
        intro hname
        obtain ⟨new, hnew, heq⟩ := List.mem_map.mp hname
        have hnone : scope.bindings.lookup new.1 = none := h.unbound new hnew
        rw [List.lookup_eq_none_iff] at hnone
        simpa [heq] using hnone entry hmem
      simpa [hlevel] using hname
    have hbindings : after.bindings = added ++ scope.bindings := h.bindings
    rw [hbindings, List.filter_append, hgone, hstay, List.nil_append]
  have houter : after.outer = scope.level :: scope.outer := h.outer
  simp only [stop, stop?, houter, Option.getD_some, hkept]
  rw [hlevel, List.length_map]

end Scope

/-! ## Derivations -/

/-- The code of a statement without a body, and the scope after it. -/
inductive Plain (m : Manifest) (target : DataType) (scope : Scope) :
    Statement → Code → Scope → Prop
  | effect {loc : Location} {name : String} {dots : List Dot} {code : Code} {type : DataType}
      (hcode : (Expr.reference loc name dots).code m scope .any = .ok (code, type)) :
      Plain m target scope (.reference loc name dots) code scope
  | create {loc : Location} {name : String} {type produced : DataType} {value : Expr}
      {code : Code} {slot : Nat} {after : Scope}
      (hcode : value.code m scope type = .ok (code, produced))
      (hadd : scope.add? name type = some (slot, after)) :
      Plain m target scope (.create loc name type value) (code ++ [.moveToHeap]) after
  | bareReturn {loc : Location} (htarget : (target.isNothing || target.isAny) = true) :
      Plain m target scope (.ret loc none) [] scope
  | valueReturn {loc : Location} {value : Expr} {code : Code} {type : DataType}
      (htarget : target.isNothing = false)
      (hcode : value.code m scope target = .ok (code, type)) :
      Plain m target scope (.ret loc (some value)) (code ++ [.returnTop]) scope

/-- A statement without a body extends the scope by what it declares. -/
theorem Plain.exists_extends {m : Manifest} {target : DataType} {scope after : Scope}
    {statement : Statement} {code : Code} (h : Plain m target scope statement code after) :
    ∃ added, scope.Extends after added ∧ added.length = Statement.declared [statement] := by
  cases h with
  | create _ hadd => exact ⟨_, (Scope.add?_eq_some hadd).2.2, rfl⟩
  | effect | bareReturn | valueReturn => exact ⟨[], .refl scope, rfl⟩

/-- How a list of statements is compiled. Nothing follows a return. -/
inductive Lowering (m : Manifest) (target : DataType) :
    Scope → List Statement → List Step → Scope → Prop
  | done (scope : Scope) : Lowering m target scope [] [] scope
  | plain {scope after final : Scope} {statement : Statement} {rest : List Statement}
      {code : Code} {returned : Option Location} {steps : List Step}
      (hcompile : statement.compile m target scope =
        .ok ⟨.plain statement.kind code, after, returned⟩)
      (hplain : Plain m target scope statement code after)
      (hlast : statement.isReturn = true → rest = [])
      (hrest : Lowering m target after rest steps final) :
      Lowering m target scope (statement :: rest) (.plain statement.kind code :: steps) final
  | branch {scope final : Scope} {loc : Location} {condition : Expr}
      {body rest : List Statement} {test : Code} {type : DataType} {block : Block}
      {steps : List Step}
      (hcompile : (Statement.ifThen loc condition body).compile m target scope =
        .ok ⟨.branch test block.steps block.scope.stop.1, block.scope.stop.2, none⟩)
      (htest : condition.code m scope .bool = .ok (test, type))
      (hbody : Statement.compileAll m target scope.start none body = .ok block)
      (hinner : Lowering m target scope.start body block.steps block.scope)
      (hrest : Lowering m target block.scope.stop.2 rest steps final) :
      Lowering m target scope (.ifThen loc condition body :: rest)
        (.branch test block.steps block.scope.stop.1 :: steps) final

namespace Statement

variable {m : Manifest} {target : DataType}

theorem unstarted_eq_ok {α : Type} {kind : NodeKind} {result : Except LocatedFault α} {value : α}
    (h : unstarted kind result = .ok value) : result = .ok value :=
  mapError_ok_iff.mp h

/-- What the compiler does with one statement that it accepts. -/
theorem compile_cases {scope : Scope} {statement : Statement} {compiled : Compiled}
    (h : statement.compile m target scope = .ok compiled) :
    (∃ code, compiled.step = .plain statement.kind code ∧
        Plain m target scope statement code compiled.scope ∧
        (statement.isReturn = true ↔ compiled.returned ≠ none)) ∨
      ∃ loc condition body test type block, statement = .ifThen loc condition body ∧
        condition.code m scope .bool = .ok (test, type) ∧
        compileAll m target scope.start none body = .ok block ∧
        compiled = ⟨.branch test block.steps block.scope.stop.1, block.scope.stop.2, none⟩ := by
  cases statement with
  | reference loc name dots =>
      unfold compile at h
      obtain ⟨code, heffect, h⟩ := bind_ok_iff.mp (unstarted_eq_ok h)
      obtain ⟨⟨code, type⟩, hcode, heffect⟩ := bind_ok_iff.mp heffect
      cases h
      cases heffect
      exact Or.inl ⟨code, rfl, .effect hcode, by simp [isReturn]⟩
  | create loc name type value =>
      unfold compile at h
      obtain ⟨⟨code, after⟩, hcreate, h⟩ := bind_ok_iff.mp (unstarted_eq_ok h)
      cases h
      obtain ⟨⟨code, produced⟩, hcode, hcreate⟩ := bind_ok_iff.mp hcreate
      simp only at hcreate
      split at hcreate
      next slot after hadd =>
        cases hcreate
        exact Or.inl ⟨_, rfl, .create hcode hadd, by simp [isReturn]⟩
      next => simp at hcreate
  | ret loc value =>
      unfold compile at h
      obtain ⟨code, hreturn, h⟩ := bind_ok_iff.mp (unstarted_eq_ok h)
      cases h
      refine Or.inl ⟨code, rfl, ?_, by simp [isReturn]⟩
      cases value with
      | none =>
          simp only [returnCode] at hreturn
          split at hreturn
          next htarget =>
            cases hreturn
            exact .bareReturn htarget
          next => simp at hreturn
      | some value =>
          simp only [returnCode] at hreturn
          split at hreturn
          next => simp at hreturn
          next htarget =>
            obtain ⟨⟨code, type⟩, hcode, hreturn⟩ := bind_ok_iff.mp hreturn
            cases hreturn
            exact .valueReturn (by simpa using htarget) hcode
  | ifThen loc condition body =>
      unfold compile at h
      obtain ⟨⟨test, type⟩, htest, h⟩ := bind_ok_iff.mp h
      simp only at h
      split at h
      next => simp at h
      next block hbody =>
        cases h
        exact Or.inr ⟨loc, condition, body, test, type, block, rfl, unstarted_eq_ok htest, hbody,
          rfl⟩
  | forIn loc row iterable body =>
      unfold compile at h
      have hfault := unstarted_eq_ok h
      simp at hfault

/-- Statements are accepted one after the other. -/
theorem exists_of_compileAll_cons {scope : Scope} {block : Block} {statement : Statement}
    {rest : List Statement} (h : compileAll m target scope none (statement :: rest) = .ok block) :
    ∃ first tail, statement.compile m target scope = .ok first ∧
      compileAll m target first.scope first.returned rest = .ok tail ∧
      block = { tail with steps := first.step :: tail.steps } := by
  unfold compileAll at h
  simp only at h
  split at h
  next => simp at h
  next first hfirst =>
    split at h
    next => simp at h
    next tail htail =>
      cases h
      exact ⟨first, tail, hfirst, htail, rfl⟩

/-- Only the empty list is accepted behind a return. -/
theorem eq_nil_of_compileAll_some {scope : Scope} {block : Block} {loc : Location}
    {statements : List Statement}
    (h : compileAll m target scope (some loc) statements = .ok block) :
    statements = [] ∧ block = { steps := [], scope, returned := some loc } := by
  cases statements with
  | nil =>
      unfold compileAll at h
      cases h
      exact ⟨rfl, rfl⟩
  | cons statement rest => simp [compileAll] at h

/-- Every list of statements that the compiler accepts has a derivation. -/
theorem lowering_of_compileAll {scope : Scope} {block : Block} :
    ∀ {statements : List Statement}, compileAll m target scope none statements = .ok block →
      Lowering m target scope statements block.steps block.scope
  | [], h => by
      unfold compileAll at h
      cases h
      exact .done _
  | statement :: rest, h => by
      obtain ⟨first, tail, hfirst, htail, rfl⟩ := exists_of_compileAll_cons h
      rcases compile_cases hfirst with ⟨code, hstep, hplain, hreturn⟩ |
        ⟨loc, condition, body, test, type, inner, rfl, htest, hbody, rfl⟩
      · obtain ⟨step, after, returned⟩ := first
        cases hstep
        cases returned with
        | none =>
            refine .plain hfirst hplain ?_ (lowering_of_compileAll htail)
            intro hlast
            exact absurd rfl (hreturn.mp hlast)
        | some loc =>
            obtain ⟨rfl, rfl⟩ := eq_nil_of_compileAll_some htail
            exact .plain hfirst hplain (fun _ => rfl) (.done _)
      · exact .branch hfirst htest hbody (lowering_of_compileAll hbody)
          (lowering_of_compileAll htail)
termination_by statements => sizeOf statements

end Statement

namespace Lowering

variable {m : Manifest} {target : DataType}

/-- Accepted statements extend the scope by the variables they declare. -/
theorem exists_extends {scope final : Scope} {statements : List Statement} {steps : List Step}
    (h : Lowering m target scope statements steps final) :
    ∃ added, scope.Extends final added ∧ added.length = Statement.declared statements := by
  induction h with
  | done scope => exact ⟨[], .refl scope, rfl⟩
  | plain _ hplain _ _ ih =>
      obtain ⟨more, hmore, hlength⟩ := ih
      obtain ⟨added, hadded, hlength'⟩ := hplain.exists_extends
      refine ⟨more ++ added, hadded.trans hmore, ?_⟩
      rw [← List.singleton_append, Statement.declared_append, List.length_append, hlength, hlength',
        Nat.add_comm]
  | branch _ _ _ _ _ hinner hrest =>
      obtain ⟨added, hadded, _⟩ := hinner
      obtain ⟨more, hmore, hlength⟩ := hrest
      rw [Scope.stop_of_extends hadded] at hmore
      refine ⟨more, ?_, hlength⟩
      -- Behind the branch only the counters of the scope differ.
      have hcount : _ ≤ _ := hadded.count_le
      exact
        { bindings := hmore.bindings
          level := hmore.level
          outer := hmore.outer
          unbound := hmore.unbound
          slot_lt := fun entry hmem =>
            ⟨Nat.le_trans hcount (hmore.slot_lt entry hmem).1, (hmore.slot_lt entry hmem).2⟩
          count_le := Nat.le_trans hcount hmore.count_le }

/-- After a branch the scope is as before, except that the slots of its body
stay in use. The branch removes the variables its body declares. -/
theorem stop_eq {scope final : Scope} {body : List Statement} {steps : List Step}
    (h : Lowering m target scope.start body steps final) :
    final.stop = (Statement.declared body,
      { scope with count := final.count, highest := final.highest }) := by
  obtain ⟨added, hadded, hlength⟩ := h.exists_extends
  rw [Scope.stop_of_extends hadded, hlength]

end Lowering

end StoredProc
