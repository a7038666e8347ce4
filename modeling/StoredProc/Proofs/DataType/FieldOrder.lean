import Mathlib.Data.List.Nodup
import StoredProc.DataType.Basic
import StoredProc.Proofs.Table

/-! # Entries in the order of their names

Where no two entries have one key, sorting by the key forgets in which order the entries
were given.
-/

namespace StoredProc

namespace Text

variable {α : Type} {entries others : List α}

/-- Entries that were sorted by a key are in the order of the key. -/
theorem pairwise_mergeSort_key (key : α → String) (entries : List α) :
    (entries.mergeSort fun a b => key a ≤ key b).Pairwise fun a b => key a ≤ key b := by
  have htrans : ∀ a b c : α, decide (key a ≤ key b) = true → decide (key b ≤ key c) = true →
      decide (key a ≤ key c) = true := by
    intro a b c hab hbc
    exact decide_eq_true (String.le_trans (of_decide_eq_true hab) (of_decide_eq_true hbc))
  have htotal : ∀ a b : α, (decide (key a ≤ key b) || decide (key b ≤ key a)) = true := by
    intro a b
    simpa using String.le_total (key a) (key b)
  simpa using List.pairwise_mergeSort htrans htotal entries

/-- Entries with different keys are sorted in one way. -/
theorem mergeSort_key_eq_of_perm (key : α → String)
    (hkey : ∀ a ∈ entries, ∀ b ∈ entries, key a = key b → a = b) (hperm : entries.Perm others) :
    (entries.mergeSort fun a b => key a ≤ key b) = others.mergeSort fun a b => key a ≤ key b := by
  have hentries := List.mergeSort_perm entries fun a b => decide (key a ≤ key b)
  have hothers := List.mergeSort_perm others fun a b => decide (key a ≤ key b)
  apply List.Perm.eq_of_pairwise _ (pairwise_mergeSort_key key entries)
    (pairwise_mergeSort_key key others)
  · exact hentries.trans (hperm.trans hothers.symm)
  · intro a b ha hb hab hba
    apply hkey a (hentries.mem_iff.mp ha) b (hperm.mem_iff.mpr (hothers.mem_iff.mp hb))
    exact String.le_antisymm hab hba

end Text

namespace DataType

variable {α β : Type} {fields others : List (String × α)}

open Table (Distinct)

/-- Where no name occurs twice, no field is dropped. -/
theorem foldr_eq_self (h : Distinct fields) :
    (fields.foldr (fun field kept =>
      if kept.any (·.1 == field.1) then kept else field :: kept) []) = fields := by
  induction fields with
  | nil => rfl
  | cons field rest ih =>
      rw [Distinct, List.map_cons, List.nodup_cons] at h
      rw [List.foldr_cons, ih h.2, if_neg]
      intro hany
      obtain ⟨other, hother, heq⟩ := List.any_eq_true.mp hany
      exact h.1 (List.mem_map.mpr ⟨other, hother, by simpa using heq⟩)

theorem sortFields_eq (h : Distinct fields) :
    sortFields fields = fields.mergeSort fun a b => a.1 ≤ b.1 := by
  rw [sortFields, foldr_eq_self h]

theorem sortFields_perm (h : Distinct fields) : (sortFields fields).Perm fields := by
  rw [sortFields_eq h]
  exact List.mergeSort_perm _ _

/-- The order in which fields are given does not matter. -/
theorem sortFields_eq_of_perm (h : Distinct fields) (hperm : fields.Perm others) :
    sortFields fields = sortFields others := by
  rw [sortFields_eq h, sortFields_eq (h.of_perm hperm)]
  refine Text.mergeSort_key_eq_of_perm Prod.fst ?_ hperm
  intro a ha b hb heq
  exact List.inj_on_of_nodup_map h ha hb heq

/-- Fields that are in order are the outcome for all their permutations. -/
theorem sortFields_eq_of_pairwise (h : fields.Pairwise fun a b => a.1 < b.1)
    (hperm : others.Perm fields) : sortFields others = fields := by
  have hdistinct : Distinct fields := by
    refine List.pairwise_map.mpr (h.imp ?_)
    intro a b hlt heq
    exact String.lt_irrefl b.1 (heq ▸ hlt)
  rw [sortFields_eq_of_perm (hdistinct.of_perm hperm.symm) hperm, sortFields_eq hdistinct]
  apply List.mergeSort_of_pairwise
  exact h.imp fun hlt => decide_eq_true (String.not_lt.mp (String.lt_asymm hlt))

/-- Of the fields with one name a single one is kept. -/
theorem distinct_foldr (fields : List (String × α)) :
    Distinct (fields.foldr (fun field kept =>
      if kept.any (·.1 == field.1) then kept else field :: kept) []) := by
  induction fields with
  | nil => exact List.nodup_nil
  | cons field rest ih =>
      rw [List.foldr_cons]
      split
      next => exact ih
      next hnot =>
        refine List.nodup_cons.mpr ⟨fun hmem => hnot ?_, ih⟩
        obtain ⟨other, hother, heq⟩ := List.mem_map.mp hmem
        exact List.any_eq_true.mpr ⟨other, hother, by simp [heq]⟩

/-- Whatever the fields are, they are listed in order and with names of their own. -/
theorem pairwise_sortFields (fields : List (String × α)) :
    (sortFields fields).Pairwise fun a b => a.1 < b.1 := by
  have hle := Text.pairwise_mergeSort_key (fun field : String × α => field.1)
    (fields.foldr (fun field kept =>
      if kept.any (·.1 == field.1) then kept else field :: kept) [])
  have hne : (sortFields fields).Pairwise fun a b => a.1 ≠ b.1 :=
    List.pairwise_map.mp ((distinct_foldr fields).of_perm (List.mergeSort_perm _ _).symm)
  refine hle.imp₂ (fun a b hle hne => ?_) hne
  exact String.not_le.mp fun hge => hne (String.le_antisymm hle hge)

/-- To sort fields adds none. -/
theorem mem_of_mem_sortFields {field : String × α} (h : field ∈ sortFields fields) :
    field ∈ fields := by
  have hmem := List.mem_mergeSort.mp h
  clear h
  induction fields with
  | nil => cases hmem
  | cons first rest ih =>
      rw [List.foldr_cons] at hmem
      split at hmem
      next => exact List.mem_cons_of_mem _ (ih hmem)
      next =>
        rcases List.mem_cons.mp hmem with rfl | hmem
        · exact List.mem_cons_self
        · exact List.mem_cons_of_mem _ (ih hmem)

theorem distinct_map (change : α → β) (h : Distinct fields) :
    Distinct (fields.map fun field => (field.1, change field.2)) := by
  rw [Distinct, List.map_map]
  exact h

theorem sortFields_map (change : α → β) (h : Distinct fields) :
    sortFields (fields.map fun field => (field.1, change field.2)) =
      (sortFields fields).map fun field => (field.1, change field.2) := by
  rw [sortFields_eq h, sortFields_eq (distinct_map change h), List.map_mergeSort]
  intros
  rfl

end DataType

end StoredProc
