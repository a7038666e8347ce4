/-! # Tables

A table is a list of entries under names. Where no two entries have one name, what is
found under a name does not depend on the order of the entries.
-/

namespace StoredProc.Table

variable {α β : Type} {table other : List (String × α)} {name : String}

/-- No two entries have one name. -/
def Distinct (table : List (String × α)) : Prop := (table.map Prod.fst).Nodup

/-- Among distinct names an entry is found exactly if it is there. -/
theorem lookup_eq_some_iff (h : Distinct table) {value : α} :
    table.lookup name = some value ↔ (name, value) ∈ table := by
  constructor
  · intro hlookup
    obtain ⟨before, after, rfl, _⟩ := List.lookup_eq_some_iff.mp hlookup
    simp
  · intro hmem
    obtain ⟨before, after, rfl⟩ := List.append_of_mem hmem
    refine List.lookup_eq_some_iff.mpr ⟨before, after, rfl, ?_⟩
    intro entry hentry
    rw [Distinct, List.map_append, List.nodup_append] at h
    have hne := h.2.2 entry.1 (List.mem_map_of_mem hentry) name (by simp)
    simpa using hne.symm

/-- A name is not found exactly if no entry has it. -/
theorem lookup_eq_none_iff : table.lookup name = none ↔ name ∉ table.map Prod.fst := by
  rw [List.lookup_eq_none_iff, List.mem_map]
  constructor
  · rintro h ⟨entry, hentry, rfl⟩
    simpa using h entry hentry
  · intro h entry hentry
    have hne : name ≠ entry.1 := fun heq => h ⟨entry, hentry, heq.symm⟩
    simpa using hne

theorem Distinct.of_perm (h : Distinct table) (hperm : table.Perm other) : Distinct other :=
  (hperm.map Prod.fst).nodup_iff.mp h

theorem Distinct.append_singleton (h : Distinct table) {value : α}
    (hfresh : name ∉ table.map Prod.fst) : Distinct (table ++ [(name, value)]) := by
  rw [Distinct, List.map_append]
  exact (List.perm_append_singleton name _).nodup_iff.mpr (List.nodup_cons.mpr ⟨hfresh, h⟩)

theorem lookup_eq_of_perm (h : Distinct table) (hperm : table.Perm other) (name : String) :
    table.lookup name = other.lookup name := by
  apply Option.ext
  intro value
  rw [lookup_eq_some_iff h, lookup_eq_some_iff (h.of_perm hperm), hperm.mem_iff]

theorem lookup_map (change : α → β) (table : List (String × α)) (name : String) :
    (table.map fun entry => (entry.1, change entry.2)).lookup name =
      (table.lookup name).map change := by
  induction table with
  | nil => rfl
  | cons entry rest ih =>
      rw [List.map_cons, List.lookup_cons, List.lookup_cons, ih]
      cases name == entry.1 <;> rfl

theorem filter_eq_self (h : name ∉ table.map Prod.fst) : table.filter (·.1 ≠ name) = table := by
  rw [List.filter_eq_self]
  intro entry hentry
  exact decide_eq_true fun heq => h (heq ▸ List.mem_map_of_mem hentry)

theorem lookup_filter_self : (table.filter (·.1 ≠ name)).lookup name = none := by
  rw [lookup_eq_none_iff]
  simp

/-- The entries of another name may be removed. -/
theorem lookup_filter_of_ne {key : String} (h : name ≠ key) :
    (table.filter (·.1 ≠ key)).lookup name = table.lookup name := by
  induction table with
  | nil => rfl
  | cons entry rest ih =>
      rw [List.filter_cons, List.lookup_cons]
      by_cases hkey : entry.1 = key
      · have hne : (name == entry.1) = false := by simpa [hkey] using h
        rw [hne, if_neg (by simpa using hkey)]
        exact ih
      · rw [if_pos (by simpa using hkey), List.lookup_cons, ih]

end StoredProc.Table
