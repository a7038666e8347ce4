import Mathlib.Data.List.Nodup
import StoredProc.Text.Natural

/-! # Sorting by insertion

Sorting rearranges the items, and items that are inserted later do not change the order
of those that are there. So the first two items of a list stay in the order in which
they are compared. From this it follows when the outcome does not depend on the order
in which the items come: exactly if the comparison is a strict order of the items.
-/

namespace StoredProc.Text

variable {α : Type} {less : α → α → Bool} {items : List α}

/-- A comparison that orders items strictly: of two different items one comes first. -/
structure StrictOn (less : α → α → Bool) (items : List α) : Prop where
  irrefl : ∀ a ∈ items, less a a = false
  total : ∀ a ∈ items, ∀ b ∈ items, a ≠ b → less b a = !less a b
  trans : ∀ a ∈ items, ∀ b ∈ items, ∀ c ∈ items, less a b = true → less b c = true →
    less a c = true

namespace StrictOn

theorem mono (h : StrictOn less items) {other : List α} (hsubset : ∀ a ∈ other, a ∈ items) :
    StrictOn less other where
  irrefl a ha := h.irrefl a (hsubset a ha)
  total a ha b hb := h.total a (hsubset a ha) b (hsubset b hb)
  trans a ha b hb c hc := h.trans a (hsubset a ha) b (hsubset b hb) c (hsubset c hc)

/-- What is not before goes on not to be before. -/
theorem not_less_trans (h : StrictOn less items) {a b c : α} (ha : a ∈ items) (hb : b ∈ items)
    (hc : c ∈ items) (hab : less a b = false) (hbc : less b c = false) : less a c = false := by
  by_cases heq : a = b
  · rwa [heq]
  by_cases heq' : b = c
  · rwa [← heq']
  have hba : less b a = true := by rw [h.total a ha b hb heq, hab]; rfl
  have hcb : less c b = true := by rw [h.total b hb c hc heq', hbc]; rfl
  have hca := h.trans c hc b hb a ha hcb hba
  by_cases heq'' : a = c
  · rw [heq'']
    exact h.irrefl c hc
  · rw [h.total c hc a ha (Ne.symm heq''), hca]
    rfl

/-- Items that stand in strict order are strictly ordered. -/
theorem of_pairwise (hirrefl : ∀ a ∈ items, less a a = false)
    (h : items.Pairwise fun a b => less a b = true ∧ less b a = false) : StrictOn less items := by
  rw [List.pairwise_iff_getElem] at h
  -- The places of two items tell how they compare.
  have hplace : ∀ {i j : Nat} (hi : i < items.length) (hj : j < items.length),
      less items[i] items[j] = true → i < j := by
    intro i j hi hj hless
    rcases Nat.lt_trichotomy i j with hlt | rfl | hlt
    · exact hlt
    · rw [hirrefl _ (List.getElem_mem hi)] at hless
      cases hless
    · rw [(h j i hj hi hlt).2] at hless
      cases hless
  refine ⟨hirrefl, ?_, ?_⟩
  · intro a ha b hb hne
    obtain ⟨i, hi, rfl⟩ := List.getElem_of_mem ha
    obtain ⟨j, hj, rfl⟩ := List.getElem_of_mem hb
    rcases Nat.lt_trichotomy i j with hlt | rfl | hlt
    · rw [(h i j hi hj hlt).1, (h i j hi hj hlt).2]
      rfl
    · exact absurd rfl hne
    · rw [(h j i hj hi hlt).1, (h j i hj hi hlt).2]
      rfl
  · intro a ha b hb c hc hab hbc
    obtain ⟨i, hi, rfl⟩ := List.getElem_of_mem ha
    obtain ⟨j, hj, rfl⟩ := List.getElem_of_mem hb
    obtain ⟨k, hk, rfl⟩ := List.getElem_of_mem hc
    exact (h i k hi hk (Nat.lt_trans (hplace hi hj hab) (hplace hj hk hbc))).1

end StrictOn

/-! ## Insertion -/

/-- To insert an item loses none. -/
theorem insertFromEnd_perm (less : α → α → Bool) (item : α) (list : List α) :
    (insertFromEnd less item list).Perm (item :: list) := by
  induction list with
  | nil => exact .refl _
  | cons last before ih =>
      rw [insertFromEnd]
      split
      · exact (ih.cons last).trans (.swap item last before)
      · exact .refl _

/-- What is there keeps its order. -/
theorem sublist_insertFromEnd (less : α → α → Bool) (item : α) (list : List α) :
    list.Sublist (insertFromEnd less item list) := by
  induction list with
  | nil => exact List.nil_sublist _
  | cons last before ih =>
      rw [insertFromEnd]
      split
      · exact ih.cons_cons last
      · exact List.sublist_cons_self _ _

/-- An item that is inserted into a list in order leaves it in order. -/
theorem pairwise_insertFromEnd {item : α} {list : List α} (h : StrictOn less (item :: list))
    (hlist : list.Pairwise fun a b => less a b = false) :
    (insertFromEnd less item list).Pairwise fun a b => less a b = false := by
  induction list with
  | nil => exact List.pairwise_singleton _ _
  | cons last before ih =>
      obtain ⟨hlast, hbefore⟩ := List.pairwise_cons.mp hlist
      have hitem : item ∈ item :: last :: before := List.mem_cons_self
      have hmem : last ∈ item :: last :: before := List.mem_cons_of_mem _ List.mem_cons_self
      rw [insertFromEnd]
      split
      next hless =>
        have hne : item ≠ last := by
          rintro rfl
          rw [h.irrefl item hitem] at hless
          cases hless
        refine List.pairwise_cons.mpr ⟨?_, ih (h.mono (by grind)) hbefore⟩
        intro other hother
        rcases List.mem_cons.mp ((insertFromEnd_perm less item before).mem_iff.mp hother) with
          rfl | hother
        · rw [h.total _ hitem _ hmem hne, hless]
          rfl
        · exact hlast other hother
      next hless =>
        rw [Bool.not_eq_true] at hless
        refine List.pairwise_cons.mpr ⟨?_, hlist⟩
        intro other hother
        rcases List.mem_cons.mp hother with rfl | hother
        · exact hless
        · exact h.not_less_trans hitem hmem
            (List.mem_cons_of_mem _ (List.mem_cons_of_mem _ hother)) hless (hlast other hother)

/-! ## Sorting -/

/-- Insert items one after the other into a list that is given from its end. -/
def insertAll (less : α → α → Bool) (items list : List α) : List α :=
  items.foldl (fun sorted item => insertFromEnd less item sorted) list

theorem insertAll_perm (less : α → α → Bool) (items list : List α) :
    (insertAll less items list).Perm (items ++ list) := by
  induction items generalizing list with
  | nil => exact .refl _
  | cons item rest ih =>
      refine (ih _).trans ?_
      exact ((insertFromEnd_perm less item list).append_left rest).trans List.perm_middle

/-- The items that were there keep their order among each other. -/
theorem sublist_insertAll (less : α → α → Bool) (items list : List α) :
    list.Sublist (insertAll less items list) := by
  induction items generalizing list with
  | nil => exact List.Sublist.refl _
  | cons item rest ih => exact (sublist_insertFromEnd less item list).trans (ih _)

/-- Items that are inserted into a list in order leave it in order. -/
theorem pairwise_insertAll {list : List α} (h : StrictOn less (items ++ list))
    (hlist : list.Pairwise fun a b => less a b = false) :
    (insertAll less items list).Pairwise fun a b => less a b = false := by
  induction items generalizing list with
  | nil => exact hlist
  | cons item rest ih =>
      have hperm := insertFromEnd_perm less item list
      refine ih (h.mono ?_) (pairwise_insertFromEnd (h.mono (by grind)) hlist)
      intro other hother
      rw [List.mem_append, hperm.mem_iff] at hother
      grind

theorem insertionSort_perm (less : α → α → Bool) (items : List α) :
    (insertionSort less items).Perm items := by
  have hperm := (List.reverse_perm _).trans (insertAll_perm less items [])
  rwa [List.append_nil] at hperm

/-- No later item comes before an earlier one. -/
theorem pairwise_insertionSort (h : StrictOn less items) :
    (insertionSort less items).Pairwise fun a b => less b a = false := by
  refine List.pairwise_reverse.mpr (pairwise_insertAll (h.mono ?_) List.Pairwise.nil)
  simp

/-- The first two items stay as they are unless the second comes before the first. -/
theorem pair_sublist_insertionSort (less : α → α → Bool) (a b : α) (rest : List α) :
    (if less b a then [b, a] else [a, b]).Sublist (insertionSort less (a :: b :: rest)) := by
  have hpair : (insertFromEnd less b [a]).reverse = if less b a then [b, a] else [a, b] := by
    rw [insertFromEnd]
    split <;> rfl
  rw [← hpair]
  exact (sublist_insertAll less rest (insertFromEnd less b [a])).reverse

/-- With a strict order there is one arrangement in which no later item comes before an
earlier one, and this is the outcome. -/
theorem eq_insertionSort (h : StrictOn less items) {other : List α} (hperm : other.Perm items)
    (hother : other.Pairwise fun a b => less b a = false) : other = insertionSort less items := by
  have hsorted := insertionSort_perm less items
  refine List.Perm.eq_of_pairwise ?_ hother (pairwise_insertionSort h) (hperm.trans hsorted.symm)
  intro a b ha hb hba hab
  by_contra hne
  have htotal := h.total a (hperm.mem_iff.mp ha) b (hsorted.mem_iff.mp hb) hne
  rw [hab, hba] at htotal
  cases htotal

theorem insertionSort_eq_of_perm (h : StrictOn less items) {other : List α}
    (hperm : other.Perm items) : insertionSort less other = insertionSort less items :=
  eq_insertionSort h ((insertionSort_perm less other).trans hperm)
    (pairwise_insertionSort (h.mono fun _ ha => hperm.mem_iff.mp ha))

/-- Two items of a list without duplicates stand in one order only. -/
theorem not_sublist_swap {list : List α} (hnodup : list.Nodup) {a b : α}
    (h : [a, b].Sublist list) : ¬ [b, a].Sublist list := by
  intro hswap
  obtain ⟨first, second, rfl, ha, hb⟩ := List.cons_sublist_iff.mp h
  have hb := List.singleton_sublist.mp hb
  have hdisjoint := (List.nodup_append.mp hnodup).2.2
  obtain ⟨front, back, hsplit, hfront, hback⟩ := List.sublist_append_iff.mp hswap
  cases front with
  | nil =>
      obtain rfl : back = [b, a] := hsplit.symm
      exact hdisjoint a ha a (hback.subset (by simp)) rfl
  | cons first rest =>
      obtain ⟨rfl, _⟩ := List.cons.inj hsplit
      exact hdisjoint b (hfront.subset List.mem_cons_self) b hb rfl

/-- An outcome that does not depend on the order of the items shows that the comparison
is a strict order of them. -/
theorem strictOn_of_insertionSort_eq (hirrefl : ∀ a ∈ items, less a a = false)
    (hnodup : items.Nodup)
    (h : ∀ other : List α, other.Perm items → insertionSort less other = insertionSort less items) :
    StrictOn less items := by
  have hperm := insertionSort_perm less items
  have hsorted : (insertionSort less items).Nodup := hperm.nodup_iff.mpr hnodup
  refine (StrictOn.of_pairwise (fun a ha => hirrefl a (hperm.mem_iff.mp ha)) ?_).mono
    fun a ha => hperm.mem_iff.mpr ha
  rw [List.pairwise_iff_forall_sublist]
  intro a b hab
  have hnot := not_sublist_swap hsorted hab
  -- Let the two items come first, in both orders.
  obtain ⟨rest, hrest⟩ := hab.exists_perm_append
  have hrest : (a :: b :: rest).Perm items := hrest.symm.trans hperm
  have hfirst := pair_sublist_insertionSort less a b rest
  have hsecond := pair_sublist_insertionSort less b a rest
  rw [h _ hrest] at hfirst
  rw [h _ ((List.Perm.swap a b rest).trans hrest)] at hsecond
  constructor
  · by_contra hless
    rw [if_neg hless] at hsecond
    exact hnot hsecond
  · by_contra hless
    rw [if_pos (by simpa using hless)] at hfirst
    exact hnot hfirst

end StoredProc.Text
