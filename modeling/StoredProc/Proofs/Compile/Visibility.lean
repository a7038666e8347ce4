import StoredProc.Proofs.Compile.ScopeHistory
import StoredProc.Proofs.Compile.SlotOrder
import StoredProc.Proofs.Compile.WrittenTypes
import StoredProc.Proofs.Table

/-! # What is visible where

The declarations of a function are numbered in the order of the text, and the
parameter comes first. A declaration is visible behind it in the list of statements
it stands in, and in the bodies there. All this is said of the text alone, without
scopes. The scope in which a statement of an accepted function is compiled holds
exactly the declarations that are visible there, each with its number as its slot.
-/

namespace StoredProc

/-! ## Declarations -/

/-- The name that a statement declares. -/
def Statement.declares? : Statement → Option String
  | .create _ name _ _ => some name
  | _ => none

theorem Statement.isSome_declares? (statement : Statement) :
    statement.declares?.isSome = statement.isDeclaration := by
  cases statement <;> rfl

/-- A name and where it is declared. The parameter is declared in front of all
statements. -/
structure Declaration where
  position : Option (List Nat)
  name : String
  deriving DecidableEq, Inhabited, Repr

namespace Occurrence

def declaration? (o : Occurrence) : Option Declaration :=
  o.statement.declares?.map fun name => ⟨some o.position, name⟩

/-- Whether a position lies behind another one in the same list of statements, or
inside of a statement there. -/
def governs : List Nat → List Nat → Bool
  | k :: inner, k' :: rest =>
    if inner.isEmpty then decide (k < k') else k == k' && governs inner rest
  | _, _ => false

end Occurrence

/-- Whether a declaration is visible at a position. -/
def Declaration.isVisible (position : List Nat) (d : Declaration) : Bool :=
  match d.position with
  | none => true
  | some declared => Occurrence.governs declared position

/-- The declarations that are visible at a position, as names and numbers. The
numbers start with a given one. -/
def Declaration.visible (number : Nat) (position : List Nat) (declarations : List Declaration) :
    List (String × Nat) :=
  ((declarations.zipIdx number).filter fun d => d.1.isVisible position).map
    fun d => (d.1.name, d.2)

namespace Function

/-- All declarations of a function in the order of the text. The number of a
declaration is its index. -/
def declarations (f : Function) : List Declaration :=
  f.parameter.toList.map (fun parameter => ⟨none, parameter.name⟩)
    ++ f.occurrences.filterMap Occurrence.declaration?

/-- The names that are visible at a position of a function, with the numbers of their
declarations. -/
def visible (f : Function) (position : List Nat) : List (String × Nat) :=
  Declaration.visible 0 position f.declarations

/-- The number of the declaration that a name stands for at a position. -/
def resolve? (f : Function) (position : List Nat) (name : String) : Option Nat :=
  (f.visible position).lookup name

end Function

/-! ## Visibility along the text -/

namespace Occurrence

theorem governs_nil (declared : List Nat) : governs declared [] = false := by
  cases declared <;> rfl

/-- A declaration is not visible in the statement that makes it. -/
theorem governs_self (index : Nat) (rest : List Nat) : governs [index] (index :: rest) = false := by
  simp [governs]

/-- Nothing that is declared behind a statement is visible in it. -/
theorem governs_of_lt {index k : Nat} (hlt : index < k) (inner rest : List Nat) :
    governs (k :: inner) (index :: rest) = false := by
  have hne : k ≠ index := by omega
  have hnot : ¬ k < index := by omega
  cases inner <;> simp [governs, hne, hnot]

theorem governs_under {declared : List Nat} (hne : declared ≠ []) (index : Nat)
    (position : List Nat) :
    governs (index :: declared) (index :: position) = governs declared position := by
  simp [governs, hne]

/-- Nothing that is declared in a body is visible behind it. -/
theorem governs_under_of_ne {declared : List Nat} (hne : declared ≠ []) {index k : Nat}
    (hindex : index ≠ k) (rest : List Nat) :
    governs (index :: declared) (k :: rest) = false := by
  simp [governs, hne, hindex]

theorem length_filterMap_declaration? (occurrences : List Occurrence) :
    (occurrences.filterMap declaration?).length = occurrences.countP isDeclaration := by
  rw [List.length_filterMap_eq_countP]
  refine List.countP_congr ?_
  intro o _
  rw [declaration?, Option.isSome_map, Statement.isSome_declares?]
  rfl

/-- The names that statements declare, so far as they are visible at a position. -/
def visible (number : Nat) (position : List Nat) (occurrences : List Occurrence) :
    List (String × Nat) :=
  Declaration.visible number position (occurrences.filterMap declaration?)

/-- The numbers of later declarations start where those of the earlier ones end. -/
theorem visible_append (number : Nat) (position : List Nat) (first second : List Occurrence) :
    visible number position (first ++ second) =
      visible number position first ++
        visible (number + first.countP isDeclaration) position second := by
  simp only [visible, Declaration.visible]
  rw [List.filterMap_append, List.zipIdx_append, List.filter_append, List.map_append,
    length_filterMap_declaration?]

theorem visible_cons (number : Nat) (position : List Nat) (o : Occurrence)
    (rest : List Occurrence) :
    visible number position (o :: rest) =
      visible number position [o] ++
        visible (number + Statement.declared [o.statement]) position rest :=
  visible_append number position [o] rest

theorem visible_singleton (number : Nat) (position : List Nat) (o : Occurrence) :
    visible number position [o] =
      if governs o.position position then o.statement.declares?.toList.map (·, number) else [] := by
  cases hname : o.statement.declares? with
  | none => simp [visible, Declaration.visible, declaration?, hname]
  | some name =>
      cases hgoverns : governs o.position position <;>
        simp [visible, Declaration.visible, declaration?, hname, Declaration.isVisible, hgoverns]

theorem visible_eq_nil {number : Nat} {position : List Nat} {occurrences : List Occurrence}
    (h : ∀ o ∈ occurrences, governs o.position position = false) :
    visible number position occurrences = [] := by
  simp only [visible, Declaration.visible, List.map_eq_nil_iff, List.filter_eq_nil_iff]
  rintro ⟨d, k⟩ hd
  obtain ⟨o, ho, hdeclaration⟩ := List.mem_filterMap.mp (List.fst_mem_of_mem_zipIdx hd)
  obtain ⟨name, _, rfl⟩ := Option.map_eq_some_iff.mp hdeclaration
  simp [Declaration.isVisible, h o ho]

/-- What is visible in a body is visible from outside of it under the longer position. -/
theorem visible_under {occurrences : List Occurrence} (hne : ∀ o ∈ occurrences, o.position ≠ [])
    (number index : Nat) (position : List Nat) :
    visible number (index :: position) (occurrences.map (under index)) =
      visible number position occurrences := by
  induction occurrences generalizing number with
  | nil => rfl
  | cons o rest ih =>
      obtain ⟨hfirst, hrest⟩ := List.forall_mem_cons.mp hne
      rw [List.map_cons, visible_cons, visible_cons number position o, ih hrest, visible_singleton,
        visible_singleton, under, governs_under hfirst]

end Occurrence

/-! ## Scopes -/

/-- The names in scope with their slots, the oldest first. -/
def Scope.table (scope : Scope) : List (String × Nat) :=
  scope.bindings.reverse.map fun entry => (entry.1, entry.2.slot)

variable {m : Manifest} {target : DataType}

/-- A statement adds what it declares, with the next slot. -/
theorem Plain.table_eq {scope after : Scope} {statement : Statement} {code : Code}
    (h : Plain m target scope statement code after) {index k : Nat} (hlt : index < k)
    (rest : List Nat) :
    after.table =
      scope.table ++ Occurrence.visible scope.count (k :: rest) [⟨[index], statement⟩] := by
  cases h with
  | create _ hadd =>
      have hbindings := (Scope.add?_eq_some hadd).2.2.bindings
      simp [Scope.table, hbindings, Occurrence.visible_singleton, Statement.declares?,
        Occurrence.governs, hlt]
  | effect | bareReturn | valueReturn => exact (List.append_nil _).symm

namespace Lowering

open Statement

variable {scope final : Scope} {statements : List Statement} {steps : List Step}

/-- The scope of a statement holds what was there at first, and the declarations that
are visible. -/
theorem table_eq (h : Lowering m target scope statements steps final) {base index : Nat}
    {s : Site} (hs : s ∈ sites m target scope base index statements) :
    s.scope.table =
      scope.table ++ Occurrence.visible scope.count s.position (occurrences index statements) := by
  -- What stands behind a statement is not visible in it.
  have hbehind : ∀ {number index : Nat} {position : List Nat} {rest : List Statement},
      Occurrence.visible number (index :: position) (occurrences (index + 1) rest) = [] := by
    intro number index position rest
    refine Occurrence.visible_eq_nil fun o ho => ?_
    obtain ⟨k, inner, hposition, hlt⟩ := Statement.exists_position_eq ho
    rw [hposition]
    exact Occurrence.governs_of_lt hlt _ _
  induction h generalizing base index s with
  | done => simp [sites] at hs
  | @plain scope _ _ statement rest _ _ _ hcompile hplain _ hrest ih =>
      rw [occurrences, inside_eq_nil hplain, List.map_nil, List.singleton_append,
        Occurrence.visible_cons]
      rcases (mem_sites_plain hcompile hplain).mp hs with rfl | hs
      · have hself : ∀ o ∈ [(⟨[index], statement⟩ : Occurrence)],
            Occurrence.governs o.position [index] = false := by
          simp [Occurrence.governs_self]
        rw [Site.first, hbehind, Occurrence.visible_eq_nil hself]
        exact (List.append_nil _).symm
      · obtain ⟨k, inner, hposition, hlt⟩ := hrest.exists_position_eq hs
        rw [ih hs, hplain.count_eq, hposition, hplain.table_eq hlt, List.append_assoc]
  | @branch scope _ loc condition body rest _ _ block _ hcompile _ _ hlowering hrest ihinner
      ihrest =>
      have hself : ∀ number position, Occurrence.visible number position
          [⟨[index], .ifThen loc condition body⟩] = [] := fun _ _ => rfl
      rw [occurrences, List.cons_append, Occurrence.visible_cons, hself, List.nil_append,
        Occurrence.visible_append]
      have hne : ∀ o ∈ (Statement.ifThen loc condition body).inside, o.position ≠ [] :=
        fun o ho => position_ne_nil_of_mem_inside ho
      rcases (mem_sites_branch hcompile).mp hs with rfl | ⟨within, hwithin, rfl⟩ | hs
      · rw [Site.first, hbehind, Occurrence.visible_under hne, List.append_nil,
          Occurrence.visible_eq_nil fun o _ => Occurrence.governs_nil _]
        exact (List.append_nil _).symm
      · rw [Site.under, hbehind, Occurrence.visible_under hne, List.append_nil]
        exact ihinner hwithin
      · obtain ⟨k, inner, hposition, hlt⟩ := hrest.exists_position_eq hs
        -- The declarations of the body have numbers, and they are not visible here.
        have hgone : ∀ number, Occurrence.visible number s.position
            ((Statement.ifThen loc condition body).inside.map (Occurrence.under index)) = [] := by
          intro number
          refine Occurrence.visible_eq_nil fun o ho => ?_
          obtain ⟨inside, hinside, rfl⟩ := List.mem_map.mp ho
          rw [hposition]
          exact Occurrence.governs_under_of_ne (hne inside hinside) (by omega) _
        have hcount : block.scope.count = scope.count + declared [.ifThen loc condition body] +
            ((Statement.ifThen loc condition body).inside.map (Occurrence.under index)).countP
              Occurrence.isDeclaration := by
          rw [hlowering.count_eq 0, List.countP_map]
          rfl
        rw [ihrest hs, hlowering.stop_eq, hgone, List.nil_append, ← hcount]
        rfl

end Lowering

/-- A scope of a function has a history. -/
theorem Function.Reaches.exists_requests {f : Function} {scope : Scope} (h : f.Reaches scope) :
    ∃ requests, ({} : Scope).after requests = scope := by
  induction h with
  | empty => exact ⟨[], rfl⟩
  | @parameter parameter _ _ _ hadd =>
      have hnew : (({} : Scope).after []).add? parameter.name parameter.type = some _ := hadd
      exact ⟨_, Scope.after_add hnew⟩
  | declare _ _ _ hadd ih =>
      obtain ⟨requests, rfl⟩ := ih
      exact ⟨_, Scope.after_add hadd⟩
  | enter _ ih =>
      obtain ⟨requests, rfl⟩ := ih
      exact ⟨requests ++ [.start], Scope.after_append _ _ _⟩
  | leave _ ih =>
      obtain ⟨requests, rfl⟩ := ih
      exact ⟨requests ++ [.stop], Scope.after_stop _ _⟩

/-- A scope holds a name once. -/
theorem Function.Reaches.distinct {f : Function} {scope : Scope} (h : f.Reaches scope) :
    Table.Distinct scope.bindings := by
  obtain ⟨requests, rfl⟩ := h.exists_requests
  exact (Scope.Consistent.new.after requests).distinct

namespace Function.Accepted

variable {r : Registry} {f : Function} {p : Procedure} {prologue : Code} {scope : Scope}
  {block : Block}

/-- The scope of a statement holds the visible declarations. -/
theorem table_eq (h : f.Accepted m r p prologue scope block) {s : Site} (hs : s ∈ f.sites m r) :
    s.scope.table = f.visible s.position := by
  have hs' := hs
  rw [h.sites_eq] at hs'
  rw [h.lowering.table_eq hs']
  rcases entry_cases h.entry_eq with ⟨hparameter, _, rfl⟩ | ⟨_, _, hparameter, _, rfl⟩
  · simp [visible, declarations, hparameter, Scope.table, Occurrence.visible, occurrences]
  · simp [visible, declarations, hparameter, Scope.table, Occurrence.visible, occurrences,
      Declaration.visible, Declaration.isVisible, parameterSlot]

/-- No name is visible twice. -/
theorem distinct_visible (h : f.Accepted m r p prologue scope block) {s : Site}
    (hs : s ∈ f.sites m r) : Table.Distinct (f.visible s.position) := by
  have hdistinct := (h.reaches hs).distinct
  rw [← h.table_eq hs, Table.Distinct, Scope.table, List.map_map, List.map_reverse]
  exact (List.reverse_perm _).nodup_iff.mpr hdistinct

/-- Looking a name up in the scope of a statement gives the number of its declaration. -/
theorem slot_eq (h : f.Accepted m r p prologue scope block) {s : Site} (hs : s ∈ f.sites m r)
    (name : String) : (s.scope.get? name).map Variable.slot = f.resolve? s.position name := by
  rw [resolve?, ← h.table_eq hs, Scope.table, Table.lookup_map, Scope.get?,
    Table.lookup_eq_of_perm (h.reaches hs).distinct (List.reverse_perm _).symm]

end Function.Accepted

end StoredProc
