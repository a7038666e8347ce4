import StoredProc.Proofs.Compile.SourceMap

/-! # Slots in the order of the text

Variables are given slots in the order of the text, and no two the same. A slot
stays in use when the body that declared its variable ends. So the slot of a
declaration is the number of variables that are visible there, and of those that
were declared in bodies that have ended in front of it.
-/

namespace StoredProc

/-- The slot that a declaration is given. -/
def Site.slot? (s : Site) : Option Nat :=
  match s.statement with
  | .create _ name type _ => (s.scope.add? name type).map Prod.fst
  | _ => none

/-- A declaration gets the number of variables before it as its slot. -/
theorem Site.of_slot?_eq_some {s : Site} {slot : Nat} (h : s.slot? = some slot) :
    s.statement.isDeclaration = true ∧ slot = s.scope.count := by
  unfold slot? at h
  split at h
  next hstatement =>
    rw [hstatement]
    obtain ⟨⟨slot, after⟩, hadd, rfl⟩ := Option.map_eq_some_iff.mp h
    exact ⟨rfl, (Scope.add?_eq_some hadd).1⟩
  next => cases h

variable {m : Manifest} {target : DataType}

theorem Plain.count_eq {scope after : Scope} {statement : Statement} {code : Code}
    (h : Plain m target scope statement code after) :
    after.count = scope.count + Statement.declared [statement] := by
  cases h with
  | create _ hadd => exact (Scope.add?_eq_some hadd).2.1
  | effect | bareReturn | valueReturn => rfl

/-! ## Counting declarations -/

namespace Occurrence

def isDeclaration (o : Occurrence) : Bool := o.statement.isDeclaration

/-- Whether a statement lies in a body that has ended in front of a position. -/
def closes : List Nat → List Nat → Bool
  | k :: inner, k' :: rest => if k = k' then closes inner rest else decide (k < k') && !inner.isEmpty
  | _, _ => false

/-- The number of variables that were declared in bodies that have ended in front
of a position. -/
def closed (occurrences : List Occurrence) (position : List Nat) : Nat :=
  occurrences.countP fun o => o.isDeclaration && closes o.position position

theorem closed_append (first second : List Occurrence) (position : List Nat) :
    closed (first ++ second) position = closed first position + closed second position :=
  List.countP_append

theorem closes_singleton (k : Nat) (position : List Nat) : closes [k] position = false := by
  cases position with
  | nil => rfl
  | cons k' rest => cases rest <;> simp [closes]

theorem closed_cons (k : Nat) (statement : Statement) (rest : List Occurrence)
    (position : List Nat) : closed (⟨[k], statement⟩ :: rest) position = closed rest position := by
  simp [closed, closes_singleton]

theorem closed_under (index : Nat) (occurrences : List Occurrence) (position : List Nat) :
    closed (occurrences.map (under index)) (index :: position) = closed occurrences position := by
  rw [closed, List.countP_map]
  simp only [closed, Function.comp_def, under, closes, if_pos]
  rfl

/-- All variables of a body have gone at the statements behind it. -/
theorem closed_under_of_lt {index k : Nat} {occurrences : List Occurrence} {position : List Nat}
    (hlt : index < k) (hne : ∀ o ∈ occurrences, o.position ≠ []) :
    closed (occurrences.map (under index)) (k :: position) =
      occurrences.countP isDeclaration := by
  rw [closed, List.countP_map]
  refine List.countP_congr ?_
  intro o ho
  have hcloses : closes (index :: o.position) (k :: position) = true := by
    have hposition := hne o ho
    simp [closes, Nat.ne_of_lt hlt, hlt, hposition]
  simp [under, isDeclaration, hcloses]

/-- Nothing has ended where nothing has started. -/
theorem closed_nil (occurrences : List Occurrence) : closed occurrences [] = 0 := by
  rw [closed, List.countP_eq_zero]
  intro o _
  cases hposition : o.position <;> simp [closes]

end Occurrence

/-- The number of variables of a function that were declared in bodies that have
ended in front of a position. -/
def Function.closedBefore (f : Function) (position : List Nat) : Nat :=
  Occurrence.closed f.occurrences position

namespace Statement

/-- Bodies behind a statement have not ended in front of it. -/
theorem closed_occurrences_succ (index : Nat) (statements : List Statement) (position : List Nat) :
    Occurrence.closed (occurrences (index + 1) statements) (index :: position) = 0 := by
  rw [Occurrence.closed, List.countP_eq_zero]
  intro o ho
  obtain ⟨k, rest, hposition, hlt⟩ := exists_position_eq ho
  have hne : k ≠ index := by omega
  have hnot : ¬ k < index := by omega
  simp [hposition, Occurrence.closes, hne, hnot]

end Statement

/-! ## Slots of accepted statements -/

namespace Lowering

open Statement

variable {scope final : Scope} {statements : List Statement} {steps : List Step}

/-- As many slots are given away as variables are declared, at any depth. -/
theorem count_eq (h : Lowering m target scope statements steps final) (index : Nat) :
    final.count = scope.count + (occurrences index statements).countP Occurrence.isDeclaration := by
  induction h generalizing index with
  | done => rfl
  | @plain _ _ _ statement _ _ _ _ _ hplain _ _ ih =>
      have hfirst : [(⟨[index], statement⟩ : Occurrence)].countP Occurrence.isDeclaration =
          Statement.declared [statement] := rfl
      rw [ih (index + 1), hplain.count_eq, occurrences, inside_eq_nil hplain, List.map_nil,
        List.countP_append, hfirst, Nat.add_assoc]
  | branch _ _ _ hlowering _ ihinner ihrest =>
      rw [ihrest (index + 1), hlowering.stop_eq, occurrences, List.countP_append,
        List.countP_cons_of_neg (by simp [Occurrence.isDeclaration, isDeclaration]),
        List.countP_map]
      have hinner := ihinner 0
      simp only [Scope.start] at hinner
      rw [← Nat.add_assoc]
      exact congrArg (· + _) hinner

/-- The slots of a body stay in use behind it. -/
theorem count_stop {body : List Statement} (h : Lowering m target scope.start body steps final) :
    final.stop.2.count = final.count ∧ scope.count ≤ final.count := by
  obtain ⟨_, hextends, _⟩ := h.exists_extends
  refine ⟨by rw [h.stop_eq], ?_⟩
  have hle := hextends.count_le
  exact hle

/-- The scope of a site has at least the slots that are in use at the start, and
the slots of the site are in use at the end. -/
theorem count_of_mem_sites (h : Lowering m target scope statements steps final) {base index : Nat}
    {s : Site} (hs : s ∈ sites m target scope base index statements) :
    scope.count ≤ s.scope.count ∧ s.scope.count + declared [s.statement] ≤ final.count := by
  induction h generalizing base index s with
  | done => simp [sites] at hs
  | plain hcompile hplain _ hrest ih =>
      have hcount := hplain.count_eq
      obtain ⟨_, hextends, _⟩ := hrest.exists_extends
      have hle := hextends.count_le
      rcases (mem_sites_plain hcompile hplain).mp hs with rfl | hs
      · exact ⟨Nat.le_refl _, hcount ▸ hle⟩
      · have := ih hs
        omega
  | branch hcompile _ _ hlowering hrest ihinner ihrest =>
      obtain ⟨hstop, hle⟩ := hlowering.count_stop
      obtain ⟨_, hextends, _⟩ := hrest.exists_extends
      have hle' := hextends.count_le
      rw [hstop] at hle'
      rcases (mem_sites_branch hcompile).mp hs with rfl | ⟨within, hwithin, rfl⟩ | hs
      · exact ⟨Nat.le_refl _, Nat.le_trans hle hle'⟩
      · have hfound := ihinner hwithin
        exact ⟨hfound.1, Nat.le_trans hfound.2 hle'⟩
      · have hfound := ihrest hs
        rw [hstop] at hfound
        exact ⟨Nat.le_trans hle hfound.1, hfound.2⟩

/-- Slots are given away in the order of the text. -/
theorem pairwise_count (h : Lowering m target scope statements steps final) (base index : Nat) :
    (sites m target scope base index statements).Pairwise
      fun s later => s.scope.count + declared [s.statement] ≤ later.scope.count := by
  induction h generalizing base index with
  | done => simp [sites]
  | plain hcompile hplain _ hrest ih =>
      rw [sites_plain hcompile hplain, List.pairwise_cons]
      refine ⟨?_, ih _ _⟩
      intro later hlater
      have hle := (hrest.count_of_mem_sites hlater).1
      rw [hplain.count_eq] at hle
      exact hle
  | branch hcompile _ _ hlowering hrest ihinner ihrest =>
      obtain ⟨hstop, hle⟩ := hlowering.count_stop
      rw [sites_branch hcompile, List.cons_append, List.pairwise_cons, List.pairwise_append,
        List.pairwise_map]
      refine ⟨?_, ihinner _ _, ihrest _ _, ?_⟩
      · intro later hlater
        rcases List.mem_append.mp hlater with hlater | hlater
        · obtain ⟨within, hwithin, rfl⟩ := List.mem_map.mp hlater
          have hfound := (hlowering.count_of_mem_sites hwithin).1
          exact hfound
        · have hfound := (hrest.count_of_mem_sites hlater).1
          rw [hstop] at hfound
          exact Nat.le_trans hle hfound
      · intro first hfirst later hlater
        obtain ⟨within, hwithin, rfl⟩ := List.mem_map.mp hfirst
        have hfound := (hrest.count_of_mem_sites hlater).1
        rw [hstop] at hfound
        exact Nat.le_trans (hlowering.count_of_mem_sites hwithin).2 hfound

/-- A variable that is visible at a statement was visible from the start, or it
was declared by a statement that saw the variables behind it. -/
theorem exists_origin (h : Lowering m target scope statements steps final) {base index : Nat}
    {s : Site} (hs : s ∈ sites m target scope base index statements)
    {more tail : List (String × Variable)} {entry : String × Variable}
    (hsplit : s.scope.bindings = more ++ entry :: tail) :
    (∃ older, scope.bindings = older ++ entry :: tail) ∨
      ∃ source ∈ sites m target scope base index statements,
        source.statement.isDeclaration = true ∧ source.scope.count = entry.2.slot ∧
          source.scope.bindings = tail := by
  induction h generalizing base index s with
  | done => simp [sites] at hs
  | plain hcompile hplain _ hrest ih =>
      rcases (mem_sites_plain hcompile hplain).mp hs with rfl | hs
      · exact Or.inl ⟨more, hsplit⟩
      · rcases ih hs hsplit with ⟨older, holder⟩ | ⟨source, hsource, hfound⟩
        · cases hplain with
          | create hcode hadd =>
              have hextends := (Scope.add?_eq_some hadd).2.2
              rw [hextends.bindings, List.singleton_append] at holder
              cases older with
              | nil =>
                  -- The variable is the one that the first statement declares.
                  obtain ⟨rfl, rfl⟩ := List.cons.inj holder
                  exact Or.inr ⟨_, (mem_sites_plain hcompile (.create hcode hadd)).mpr (Or.inl rfl),
                    rfl, rfl, rfl⟩
              | cons _ older => exact Or.inl ⟨older, (List.cons.inj holder).2⟩
          | effect | bareReturn | valueReturn => exact Or.inl ⟨older, holder⟩
        · exact Or.inr ⟨source, (mem_sites_plain hcompile hplain).mpr (Or.inr hsource), hfound⟩
  | branch hcompile _ _ hlowering hrest ihinner ihrest =>
      rcases (mem_sites_branch hcompile).mp hs with rfl | ⟨within, hwithin, rfl⟩ | hs
      · exact Or.inl ⟨more, hsplit⟩
      · rcases ihinner hwithin hsplit with holder | ⟨source, hsource, hfound⟩
        · exact Or.inl holder
        · exact Or.inr ⟨_, (mem_sites_branch hcompile).mpr (Or.inr (Or.inl ⟨source, hsource, rfl⟩)),
            hfound⟩
      · rcases ihrest hs hsplit with holder | ⟨source, hsource, hfound⟩
        · rw [hlowering.stop_eq] at holder
          exact Or.inl holder
        · exact Or.inr ⟨source, (mem_sites_branch hcompile).mpr (Or.inr (Or.inr hsource)), hfound⟩

/-- The slots in use at a statement are those of the visible variables and those
of the variables that have gone. -/
theorem count_add_length (h : Lowering m target scope statements steps final) {base index : Nat}
    {s : Site} (hs : s ∈ sites m target scope base index statements) :
    s.scope.count + scope.bindings.length = s.scope.bindings.length + scope.count +
      Occurrence.closed (occurrences index statements) s.position := by
  induction h generalizing base index s with
  | done => simp [sites] at hs
  | plain hcompile hplain _ hrest ih =>
      rw [occurrences, inside_eq_nil hplain, List.map_nil, List.singleton_append,
        Occurrence.closed_cons]
      rcases (mem_sites_plain hcompile hplain).mp hs with rfl | hs
      · rw [Site.first, closed_occurrences_succ]
        exact Nat.add_comm _ _
      · have hfound := ih hs
        obtain ⟨added, hextends, hlength⟩ := hplain.exists_extends
        have hcount := hplain.count_eq
        rw [hextends.bindings, List.length_append] at hfound
        omega
  | branch hcompile _ _ hlowering hrest ihinner ihrest =>
      rw [occurrences, List.cons_append, Occurrence.closed_cons, Occurrence.closed_append]
      rcases (mem_sites_branch hcompile).mp hs with rfl | ⟨within, hwithin, rfl⟩ | hs
      · rw [Site.first, Occurrence.closed_under, Occurrence.closed_nil, closed_occurrences_succ]
        exact Nat.add_comm _ _
      · have hfound := ihinner hwithin
        rw [Site.under, Occurrence.closed_under, closed_occurrences_succ]
        exact hfound
      · have hfound := ihrest hs
        obtain ⟨k, rest, hposition, hlt⟩ := hrest.exists_position_eq hs
        rw [hposition] at hfound ⊢
        -- All variables of the body have gone here, and their slots are still in use.
        rw [Occurrence.closed_under_of_lt hlt fun o ho => position_ne_nil_of_mem_inside ho]
        have hcount := hlowering.count_eq 0
        rw [hlowering.count_stop.1, hlowering.stop_eq] at hfound
        simp only [Scope.start, inside] at hcount hfound ⊢
        omega

end Lowering

namespace Function.Accepted

variable {r : Registry} {f : Function} {p : Procedure} {prologue : Code} {scope : Scope}
  {block : Block}

/-- No two declarations have one slot. -/
theorem eq_of_count_eq (h : f.Accepted m r p prologue scope block) {s other : Site}
    (hs : s ∈ f.sites m r) (hother : other ∈ f.sites m r)
    (hdeclaration : s.statement.isDeclaration = true)
    (hdeclaration' : other.statement.isDeclaration = true)
    (hcount : s.scope.count = other.scope.count) : s = other := by
  have hpairwise := h.lowering.pairwise_count prologue.length 0
  rw [← h.sites_eq] at hpairwise
  -- A declaration takes a slot, so the slots of later statements are greater.
  refine List.Pairwise.forall_of_forall_of_flip
    (R := fun s other : Site => s.statement.isDeclaration = true →
      other.statement.isDeclaration = true → s.scope.count = other.scope.count → s = other)
    ?_ ?_ ?_ hs hother hdeclaration hdeclaration' hcount
  · intro s _ _ _ _
    rfl
  · refine hpairwise.imp ?_
    intro s later hle hdeclaration _ hcount
    rw [Statement.declared_eq_one hdeclaration] at hle
    omega
  · refine hpairwise.imp ?_
    intro s later hle _ hdeclaration hcount
    rw [Statement.declared_eq_one hdeclaration] at hle
    omega

/-- At first all slots that are in use belong to visible variables. -/
theorem count_eq_length (h : f.Accepted m r p prologue scope block) :
    scope.count = scope.bindings.length ∧ ∀ entry ∈ scope.bindings, entry.2.slot < scope.count := by
  rcases entry_cases h.entry_eq with ⟨_, _, rfl⟩ | ⟨_, _, _, _, rfl⟩
  · exact ⟨rfl, by simp⟩
  · exact ⟨rfl, by simp [parameterSlot]⟩

/-- The slots in use at a statement of a function. -/
theorem count_eq_add (h : f.Accepted m r p prologue scope block) {s : Site}
    (hs : s ∈ f.sites m r) :
    s.scope.count = s.scope.bindings.length + f.closedBefore s.position := by
  rw [h.sites_eq] at hs
  have hcount := h.lowering.count_add_length hs
  rw [h.count_eq_length.1] at hcount
  simp only [closedBefore, occurrences]
  omega

/-- A variable with the slot of a declaration is the one that is declared, and
the variables behind it are those that the declaration saw. -/
theorem exists_bindings_eq (h : f.Accepted m r p prologue scope block) {s source : Site}
    (hs : s ∈ f.sites m r) (hsource : source ∈ f.sites m r)
    (hdeclaration : source.statement.isDeclaration = true) {entry : String × Variable}
    (hentry : entry ∈ s.scope.bindings) (hslot : entry.2.slot = source.scope.count) :
    ∃ more, s.scope.bindings = more ++ entry :: source.scope.bindings := by
  obtain ⟨more, tail, hsplit⟩ := List.append_of_mem hentry
  have hs' := hs
  have hsource' := hsource
  rw [h.sites_eq] at hs' hsource'
  rcases h.lowering.exists_origin hs' hsplit with ⟨older, holder⟩ |
    ⟨found, hfound, hdeclaration', hcount, rfl⟩
  · -- The slot of the parameter was in use before any declaration.
    have hle := (h.lowering.count_of_mem_sites hsource').1
    have hlt := h.count_eq_length.2 entry (by simp [holder])
    omega
  · rw [← h.sites_eq] at hfound
    rw [h.eq_of_count_eq hfound hsource hdeclaration' hdeclaration (hcount.trans hslot)] at hsplit
    exact ⟨more, hsplit⟩

end Function.Accepted

end StoredProc
