import StoredProc.Proofs.Compile.SourceMap

/-! # The types of a function

The types that are written in a function and in the schemas of its stores are the
only ones a scope can hold. So what is true of all of them is true of every variable
that is in scope at any statement.
-/

namespace StoredProc

/-- All types of variables in scope have a property. -/
def Scope.AllTypes (q : DataType → Prop) (scope : Scope) : Prop :=
  ∀ entry ∈ scope.bindings, q entry.2.type

namespace Scope.AllTypes

variable {q : DataType → Prop} {scope after : Scope}

theorem empty : ({} : Scope).AllTypes q := by simp [Scope.AllTypes]

theorem of_get? (h : scope.AllTypes q) {name : String} {held : Variable}
    (hheld : scope.get? name = some held) : q held.type := by
  obtain ⟨before, after, hbindings, _⟩ := List.lookup_eq_some_iff.mp hheld
  exact h (name, held) (by simp [hbindings])

theorem add? (h : scope.AllTypes q) {name : String} {type : DataType} {slot : Nat}
    (hadd : scope.add? name type = some (slot, after)) (htype : q type) : after.AllTypes q := by
  unfold Scope.AllTypes
  rw [(Scope.add?_eq_some hadd).2.2.bindings, List.singleton_append, List.forall_mem_cons]
  exact ⟨htype, h⟩

theorem start (h : scope.AllTypes q) : scope.start.AllTypes q := h

/-- To close a level takes variables away and adds none. -/
theorem stop (h : scope.AllTypes q) : scope.stop.2.AllTypes q := by
  unfold Scope.stop Scope.stop?
  cases houter : scope.outer with
  | nil => simpa using h
  | cons level outer =>
      intro entry hentry
      simp only [Option.getD_some] at hentry
      exact h entry (List.mem_filter.mp hentry).1

end Scope.AllTypes

/-- All types that are written in a function and in the stores have a property. -/
structure Function.AllTypes (q : DataType → Prop) (m : Manifest) (f : Function) : Prop where
  stores : ∀ name schema, m.store? name = some schema → q (.object schema)
  parameter : ∀ parameter, f.parameter = some parameter → q parameter.type
  declared : ∀ o ∈ f.occurrences, ∀ loc name type value,
    o.statement = .create loc name type value → q type
  result : ∀ type, f.result = some type → q type

/-- The scopes that the declarations of a function can lead to, in any order. -/
inductive Function.Reaches (f : Function) : Scope → Prop
  | empty : f.Reaches {}
  | parameter {parameter : Parameter} {slot : Nat} {scope : Scope}
      (hparameter : f.parameter = some parameter)
      (hadd : ({} : Scope).add? parameter.name parameter.type = some (slot, scope)) :
      f.Reaches scope
  | declare {scope after : Scope} {o : Occurrence} {loc : Location} {name : String}
      {type : DataType} {value : Expr} {slot : Nat} (h : f.Reaches scope)
      (ho : o ∈ f.occurrences) (hstatement : o.statement = .create loc name type value)
      (hadd : scope.add? name type = some (slot, after)) : f.Reaches after
  | enter {scope : Scope} (h : f.Reaches scope) : f.Reaches scope.start
  | leave {scope : Scope} (h : f.Reaches scope) : f.Reaches scope.stop.2

theorem Function.AllTypes.scope {q : DataType → Prop} {m : Manifest} {f : Function}
    (h : f.AllTypes q m) {scope : Scope} (hscope : f.Reaches scope) : scope.AllTypes q := by
  induction hscope with
  | empty => exact .empty
  | parameter hparameter hadd => exact Scope.AllTypes.empty.add? hadd (h.parameter _ hparameter)
  | declare _ ho hstatement hadd ih => exact ih.add? hadd (h.declared _ ho _ _ _ _ hstatement)
  | enter _ ih => exact ih.start
  | leave _ ih => exact ih.stop

variable {m : Manifest} {target : DataType} {f : Function}

/-- Compiling statements of a function only leads to such scopes. -/
theorem Lowering.reaches {scope final : Scope} {statements : List Statement} {steps : List Step}
    (h : Lowering m target scope statements steps final) (hscope : f.Reaches scope)
    {base index : Nat}
    (hmem : ∀ o ∈ Statement.occurrences index statements,
      ∃ found ∈ f.occurrences, found.statement = o.statement) :
    f.Reaches final ∧
      ∀ s ∈ Statement.sites m target scope base index statements, f.Reaches s.scope := by
  induction h generalizing base index with
  | done => exact ⟨hscope, by simp [Statement.sites]⟩
  | @plain scope after _ statement rest code _ _ hcompile hplain _ _ ih =>
      rw [Statement.occurrences, List.cons_append, List.forall_mem_cons,
        List.forall_mem_append] at hmem
      obtain ⟨⟨found, hfound, hstatement⟩, _, hmem⟩ := hmem
      have hafter : f.Reaches after := by
        cases hplain with
        | create _ hadd => exact .declare hscope hfound hstatement hadd
        | effect | bareReturn | valueReturn => exact hscope
      obtain ⟨hfinal, hsites⟩ := @ih hafter (base + code.length) (index + 1) hmem
      refine ⟨hfinal, ?_⟩
      intro s hs
      rcases (Statement.mem_sites_plain hcompile hplain).mp hs with rfl | hs
      · exact hscope
      · exact hsites s hs
  | @branch scope _ loc condition body rest test _ block steps hcompile _ _ _ _ ihinner ihrest =>
      rw [Statement.occurrences, List.cons_append, List.forall_mem_cons,
        List.forall_mem_append, List.forall_mem_map] at hmem
      obtain ⟨_, hbody, hmem⟩ := hmem
      obtain ⟨hblock, hwithin⟩ := @ihinner (.enter hscope) (Step.jumpAddress base test + 1) 0 hbody
      obtain ⟨hfinal, hsites⟩ := @ihrest (.leave hblock) _ (index + 1) hmem
      refine ⟨hfinal, ?_⟩
      intro s hs
      rcases (Statement.mem_sites_branch hcompile).mp hs with rfl | ⟨within, hinside, rfl⟩ | hs
      · exact hscope
      · exact hwithin within hinside
      · exact hsites s hs

/-- The scope at every statement of an accepted function is one of them. -/
theorem Function.Accepted.reaches {r : Registry} {p : Procedure} {prologue : Code} {scope : Scope}
    {block : Block} (h : f.Accepted m r p prologue scope block) {s : Site}
    (hs : s ∈ f.sites m r) : f.Reaches s.scope := by
  have hscope : f.Reaches scope := by
    rcases Function.entry_cases h.entry_eq with ⟨_, _, rfl⟩ | ⟨_, _, hparameter, _, rfl⟩
    · exact .empty
    · exact .parameter hparameter rfl
  rw [h.sites_eq] at hs
  exact (h.lowering.reaches hscope fun o ho => ⟨o, ho, rfl⟩).2 s hs

/-! ## A store of users -/

/-- The fields of a user. -/
def Fields.ofUser : Fields := [("friends", .array .string), ("name", .string)]

/-- A manifest with one store. -/
def Manifest.ofUsers : Manifest where
  entities := [.store "users" Fields.ofUser]

/-- A new user is appended. -/
def Dot.appendUser : Dot :=
  .method {} "append" [.object {} [("name", .string {} "bob"), ("friends", .array {} [])]]

end StoredProc
