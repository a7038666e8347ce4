import Mathlib.Data.List.Induction
import Mathlib.Order.MinMax
import StoredProc.Proofs.Text.EditScripts
import StoredProc.Text.Distance

/-! # The nearest candidate

A complete row holds the least costs of alignments for one start of the first text. What the
other row held before does not matter, since every cell is written before it is read. So
the distance of two texts is the least length of a script that turns one into the other.

Among candidates the first one at the least distance is found, if it is within the limit.
The greatest limit is an exception: nothing is found, however near it is.
-/

namespace StoredProc.Text

/-! ## Rows of distances -/

section Rows

variable {α : Type} [DecidableEq α] {length : Nat} {text : Vector α length} {start a b : List α}

namespace Alignment

/-- From nothing to a text each character is one edit. -/
theorem nil_iff {n : Nat} : Alignment [] b n ↔ n = b.length := by
  constructor
  · intro h
    generalize hnil : ([] : List α) = empty at h
    induction h with
    | nil => rfl
    | pair _ _ _ _ => cases hnil
    | insert y _ ih => rw [ih hnil, List.length_cons]
    | delete _ _ _ => cases hnil
  · rintro rfl
    simpa using nil.insertAll b

/-- Against the empty text every character is deleted. -/
theorem isLeast_delete {x : α} {n : Nat} (h : IsLeast {k | Alignment a [] k} n) :
    IsLeast {k | Alignment (x :: a) [] k} (n + 1) := by
  refine ⟨h.1.delete x, ?_⟩
  intro k hk
  cases hk with
  | delete _ hrest => exact Nat.succ_le_succ (h.2 hrest)

/-- The least cost of two texts is found from the costs without their last characters. -/
theorem isLeast_cell {x y : α} {above left corner : Nat}
    (habove : IsLeast {k | Alignment a (y :: b) k} above)
    (hleft : IsLeast {k | Alignment (x :: a) b k} left)
    (hcorner : IsLeast {k | Alignment a b k} corner) :
    IsLeast {k | Alignment (x :: a) (y :: b) k}
      (min (min (above + 1) (left + 1)) (corner + if x = y then 0 else 1)) := by
  constructor
  · rcases min_choice (min (above + 1) (left + 1)) (corner + if x = y then 0 else 1) with h | h
    · rw [h]
      rcases min_choice (above + 1) (left + 1) with h | h
      · rw [h]
        exact habove.1.delete x
      · rw [h]
        exact hleft.1.insert y
    · rw [h]
      exact hcorner.1.pair x y
  · intro k hk
    cases hk with
    | pair _ _ hrest =>
        have := hcorner.2 hrest
        omega
    | insert _ hrest =>
        have := hleft.2 hrest
        omega
    | delete _ hrest =>
        have := habove.2 hrest
        omega

end Alignment

namespace DistanceRows

/-- The cells of a row up to some place hold the least costs for one start of the first
text, which is given from its end. -/
def HoldsTo (text : Vector α length) (start : List α) (last : Nat)
    (row : Vector Nat (length + 1)) : Prop :=
  ∀ place (h : place < length + 1), place ≤ last →
    IsLeast {n | Alignment start (text.toList.take place).reverse n} row[place]

theorem holdsTo_first (text : Vector α length) : HoldsTo text [] length (first length).above := by
  intro place h _
  have hlength : (text.toList.take place).reverse.length = place := by simp; omega
  simp only [Alignment.nil_iff, hlength, first, Vector.getElem_range]
  exact ⟨rfl, fun n hn => Nat.le_of_eq hn.symm⟩

variable {rows : DistanceRows length} {x : α}

/-- One more cell of the current row is right. -/
theorem HoldsTo.write {place : Nat} (h : place < length)
    (habove : HoldsTo text start length rows.above)
    (hcurrent : HoldsTo text (x :: start) place rows.current) :
    HoldsTo text (x :: start) (place + 1) (rows.write text x place h).current := by
  intro other hother hle
  by_cases heq : other = place + 1
  · -- The cell that is written belongs to a start with one more character of the text.
    subst heq
    have htake : (text.toList.take (place + 1)).reverse =
        text[place] :: (text.toList.take place).reverse := by
      rw [← List.take_append_getElem (by simpa using h), List.reverse_append]
      rfl
    have hup := habove (place + 1) hother h
    rw [htake] at hup ⊢
    simp only [DistanceRows.write, Vector.getElem_set_self]
    exact Alignment.isLeast_cell hup (hcurrent place (by omega) (Nat.le_refl _))
      (habove place (by omega) (by omega))
  · simp only [DistanceRows.write]
    rw [Vector.getElem_set_ne _ _ (Ne.symm heq)]
    exact hcurrent other hother (by omega)

/-- Writing cells one after the other leaves the row above as it is. -/
theorem holdsTo_fold_write (rows : DistanceRows length)
    (habove : HoldsTo text start length rows.above)
    (hcurrent : HoldsTo text (x :: start) 0 rows.current) (count : Nat) (h : count ≤ length) :
    (count.fold (fun place _ => write text x place (by omega)) rows).above = rows.above ∧
      HoldsTo text (x :: start) count
        (count.fold (fun place _ => write text x place (by omega)) rows).current := by
  induction count with
  | zero => exact ⟨rfl, hcurrent⟩
  | succ count ih =>
      obtain ⟨hsame, hwritten⟩ := ih (by omega)
      rw [Nat.fold_succ]
      exact ⟨hsame, HoldsTo.write (by omega) (hsame ▸ habove) hwritten⟩

/-- The row of one more character does not depend on what the current row held before. -/
theorem HoldsTo.next (h : HoldsTo text start length rows.above) :
    HoldsTo text (x :: start) length (rows.next text x).above := by
  let begun := { rows with current := rows.current.set 0 (rows.above[0] + 1) }
  have hbegun : HoldsTo text (x :: start) 0 begun.current := by
    intro place hplace hle
    obtain rfl : place = 0 := by omega
    rw [Vector.getElem_set_self]
    exact Alignment.isLeast_delete (h 0 hplace (Nat.zero_le _))
  exact (holdsTo_fold_write begun h hbegun length (Nat.le_refl _)).2

/-- Row after row holds the least costs. -/
theorem HoldsTo.foldl_next (h : HoldsTo text start length rows.above) (a : List α) :
    HoldsTo text (a.reverse ++ start) length (a.foldl (DistanceRows.next text) rows).above := by
  induction a generalizing start rows with
  | nil => exact h
  | cons x a ih =>
      -- The start grows at its end, so its reverse grows at the front.
      rw [List.reverse_cons, List.append_assoc]
      exact ih h.next

end DistanceRows

/-- The distance is the least length of a script. -/
theorem isLeast_distance (a b : List α) : IsLeast (Edit.scriptLengths a b) (distance a b) := by
  apply Alignment.isLeast_scriptLengths
  let text : Vector α b.length := ⟨b.toArray, rfl⟩
  have hrow := (DistanceRows.holdsTo_first text).foldl_next a b.length (Nat.lt_succ_self _)
    (Nat.le_refl _)
  rw [List.append_nil, List.take_of_length_le (by simp)] at hrow
  exact hrow

end Rows

/-! ## The first of the nearest -/

variable {candidates : List String} {s candidate : String} {found : String × Nat} {beyond : Int}

/-- A candidate with its distance, such that those before it are farther and those after it
are not nearer. -/
structure IsFirstNearest (candidates : List String) (s : String) (found : String × Nat) :
    Prop where
  distance_eq : found.2 = distance found.1.toList s.toList
  place : ∃ before after, candidates = before ++ found.1 :: after ∧
    (∀ candidate ∈ before, found.2 < distance candidate.toList s.toList) ∧
    ∀ candidate ∈ after, found.2 ≤ distance candidate.toList s.toList

namespace IsFirstNearest

theorem le_of_mem (h : IsFirstNearest candidates s found) (hmem : candidate ∈ candidates) :
    found.2 ≤ distance candidate.toList s.toList := by
  obtain ⟨before, after, rfl, hbefore, hafter⟩ := h.place
  rcases List.mem_append.mp hmem with hmem | hmem
  · exact Nat.le_of_lt (hbefore candidate hmem)
  · rcases List.mem_cons.mp hmem with rfl | hmem
    · exact Nat.le_of_eq h.distance_eq
    · exact hafter candidate hmem

theorem concat (h : IsFirstNearest candidates s found)
    (hle : found.2 ≤ distance candidate.toList s.toList) :
    IsFirstNearest (candidates ++ [candidate]) s found := by
  obtain ⟨before, after, rfl, hbefore, hafter⟩ := h.place
  refine ⟨h.distance_eq, before, after ++ [candidate], by simp, hbefore, ?_⟩
  intro other hother
  rcases List.mem_append.mp hother with hother | hother
  · exact hafter other hother
  · rwa [List.mem_singleton.mp hother]

theorem of_concat (h : ∀ other ∈ candidates,
    distance candidate.toList s.toList < distance other.toList s.toList) :
    IsFirstNearest (candidates ++ [candidate]) s
      (candidate, distance candidate.toList s.toList) :=
  ⟨rfl, candidates, [], rfl, h, by simp⟩

end IsFirstNearest

/-- The answer that is due among some candidates: the first of the nearest ones if it is
within a limit, and nothing if no candidate is. -/
inductive IsDue (candidates : List String) (s : String) (limit : Int) :
    Option (String × Nat) → Prop
  | none (h : ∀ candidate ∈ candidates, limit < distance candidate.toList s.toList) :
      IsDue candidates s limit none
  | some {found : String × Nat} (hnear : found.2 ≤ limit)
      (h : IsFirstNearest candidates s found) : IsDue candidates s limit (some found)

theorem isDue_none_iff {limit : Int} :
    IsDue candidates s limit none ↔
      ∀ candidate ∈ candidates, limit < distance candidate.toList s.toList := by
  constructor
  · rintro ⟨h⟩
    exact h
  · exact .none

theorem nearer_none (s : String) (beyond : Int) (candidate : String) :
    nearer s beyond none candidate =
      if distance candidate.toList s.toList < beyond then
        some (candidate, distance candidate.toList s.toList)
      else none := rfl

theorem nearer_some (s : String) (beyond : Int) (found : String × Nat) (candidate : String) :
    nearer s beyond (some found) candidate =
      if distance candidate.toList s.toList < found.2 then
        some (candidate, distance candidate.toList s.toList)
      else some found := rfl

/-- One more candidate is taken if it is due. -/
theorem IsDue.nearer {found : Option (String × Nat)} (h : IsDue candidates s (beyond - 1) found)
    (candidate : String) :
    IsDue (candidates ++ [candidate]) s (beyond - 1) (nearer s beyond found candidate) := by
  cases h with
  | none hfar =>
      rw [nearer_none]
      split
      next hnear =>
        -- Nothing was found before, so all others are over the limit and farther than this one.
        refine .some (Int.le_sub_one_of_lt hnear) (.of_concat ?_)
        intro other hother
        have := hfar other hother
        omega
      next hbeyond =>
        refine .none ?_
        intro other hother
        rcases List.mem_append.mp hother with hother | hother
        · exact hfar other hother
        · rw [List.mem_singleton.mp hother]
          omega
  | @some found hnear hfirst =>
      rw [nearer_some]
      split
      next hless =>
        refine .some (Int.le_trans (Int.ofNat_le.mpr (Nat.le_of_lt hless)) hnear) (.of_concat ?_)
        intro other hother
        exact Nat.lt_of_lt_of_le hless (hfirst.le_of_mem hother)
      next hle => exact .some hnear (hfirst.concat (Nat.le_of_not_lt hle))

/-- The answer is due, for the limit just below the first distance that is over it. -/
theorem isDue_closest? (candidates : List String) (s : String) (limit : Int) :
    IsDue candidates s (firstBeyond limit - 1) (closest? candidates s limit) := by
  unfold closest?
  induction candidates using List.reverseRecOn with
  | nil => exact .none (by simp)
  | append_singleton candidates candidate ih =>
      rw [List.foldl_append]
      exact ih.nearer candidate

/-- The number after the greatest limit is the least integer. -/
theorem firstBeyond_maxValue : firstBeyond Int64.maxValue.toInt = Int64.minValue.toInt := by
  decide

theorem firstBeyond_of_ne {limit : Int64} (h : limit ≠ Int64.maxValue) :
    firstBeyond limit.toInt = limit.toInt + 1 := by
  have hlower := limit.le_toInt
  have hupper := limit.toInt_lt
  rw [Ne, ← Int64.toInt_inj, Int64.toInt_maxValue] at h
  rw [firstBeyond, word64Limit, Int.bmod_def]
  omega

/-- Under the greatest limit nothing is found, since the next one is the least. -/
theorem closest?_maxValue (candidates : List String) (s : String) :
    closest? candidates s Int64.maxValue.toInt = none := by
  have hdue := isDue_closest? candidates s Int64.maxValue.toInt
  rw [firstBeyond_maxValue, Int64.toInt_minValue] at hdue
  generalize closest? candidates s Int64.maxValue.toInt = answer at hdue
  cases hdue with
  | none _ => rfl
  | some hnear _ => omega

theorem isDue_closest?_of_ne (candidates : List String) (s : String) {limit : Int64}
    (h : limit ≠ Int64.maxValue) :
    IsDue candidates s limit.toInt (closest? candidates s limit.toInt) := by
  have hdue := isDue_closest? candidates s limit.toInt
  rwa [firstBeyond_of_ne h, Int.add_sub_cancel] at hdue

/-- The distance of two texts is the least length of a script that turns one into the other.
Among candidates the answer is the one that is due, unless the limit is the greatest and some
candidate is within it. Under the greatest limit nothing is found. -/
theorem nearest_isDue_iff {α : Type} [DecidableEq α] (a b : List α) (candidates : List String)
    (s : String) (limit : Int64) :
    IsLeast (Edit.scriptLengths a b) (distance a b) ∧
    (IsDue candidates s limit.toInt (closest? candidates s limit.toInt) ↔
      limit ≠ Int64.maxValue ∨
        ∀ candidate ∈ candidates, limit.toInt < distance candidate.toList s.toList) ∧
    (limit = Int64.maxValue → closest? candidates s limit.toInt = none) := by
  refine ⟨isLeast_distance a b, ?_, ?_⟩
  · by_cases hlimit : limit = Int64.maxValue
    · subst hlimit
      rw [closest?_maxValue, isDue_none_iff]
      exact ⟨.inr, fun h => h.resolve_left fun hne => hne rfl⟩
    · exact ⟨fun _ => .inl hlimit, fun _ => isDue_closest?_of_ne candidates s hlimit⟩
  · rintro rfl
    exact closest?_maxValue candidates s

/-- A candidate that is the text itself is due under the greatest limit, but it is not found. -/
theorem not_nearest_isDue_greatestLimit :
    IsDue ["a"] "a" Int64.maxValue.toInt (some ("a", 0)) ∧
      ¬ IsDue ["a"] "a" Int64.maxValue.toInt (closest? ["a"] "a" Int64.maxValue.toInt) := by
  have hdistance : 0 = distance "a".toList "a".toList := by decide +kernel
  constructor
  · exact .some (by decide) ⟨hdistance, [], [], rfl, by simp, by simp⟩
  · rw [closest?_maxValue, isDue_none_iff]
    intro hfar
    have hlt := hfar "a" (List.mem_singleton_self _)
    rw [← hdistance] at hlt
    exact absurd hlt (by decide)

end StoredProc.Text
