import Mathlib.Order.Bounds.Defs

/-! # Edit scripts

An edit inserts, deletes or replaces one character at some place of a text. A script makes
edits one after the other, in any order and as often as it likes at one place.

An alignment goes through two texts once and pairs their characters, except those that it
inserts or deletes. The edits of an alignment are a script, and conversely a script can be
put in order: there is an alignment that costs no more edits. So the least cost of an
alignment is the least length of a script.

The last characters of the texts come first in an alignment, since a table of distances
grows at the ends of the texts.
-/

namespace StoredProc.Text

variable {α : Type} {a b c : List α}

/-- A change of one character. -/
inductive Edit (α : Type) where
  | insert (place : Nat) (x : α)
  | delete (place : Nat)
  | replace (place : Nat) (x : α)

namespace Edit

/-- The text after an edit, if the text has its place. -/
def result? (text : List α) : Edit α → Option (List α)
  | insert place x => if place ≤ text.length then some (text.insertIdx place x) else none
  | delete place => if place < text.length then some (text.eraseIdx place) else none
  | replace place x => if place < text.length then some (text.set place x) else none

/-- The text after all edits of a script. -/
def resultAll? (text : List α) (script : List (Edit α)) : Option (List α) :=
  script.foldlM result? text

/-- The lengths of all scripts that turn one text into another. -/
def scriptLengths (a b : List α) : Set Nat :=
  {n | ∃ script : List (Edit α), resultAll? a script = some b ∧ script.length = n}

/-! ## The places of edits -/

/-- The texts before and after an edit, divided at its place. -/
inductive Makes : Edit α → List α → List α → Prop
  | insert (before after : List α) (x : α) :
      Makes (.insert before.length x) (before ++ after) (before ++ x :: after)
  | delete (before after : List α) (x : α) :
      Makes (.delete before.length) (before ++ x :: after) (before ++ after)
  | replace (before after : List α) (x y : α) :
      Makes (.replace before.length y) (before ++ x :: after) (before ++ y :: after)

theorem insertIdx_length (before after : List α) (x : α) :
    (before ++ after).insertIdx before.length x = before ++ x :: after := by
  induction before with
  | nil => rfl
  | cons y before ih => simpa using ih

theorem exists_eq_append_cons {place : Nat} (h : place < a.length) :
    ∃ before x after, a = before ++ x :: after ∧ before.length = place :=
  ⟨a.take place, a[place], a.drop (place + 1), by simp, List.length_take_of_le (by omega)⟩

variable {edit : Edit α}

/-- An edit that divides a text at its place gives the text after it. -/
theorem Makes.result?_eq (h : edit.Makes a b) : edit.result? a = some b := by
  cases h with
  | insert before after x =>
      rw [result?, if_pos (by simp), insertIdx_length]
  | delete before after x =>
      rw [result?, if_pos (by simp), List.eraseIdx_append_of_length_le (Nat.le_refl _)]
      simp
  | replace before after x y =>
      rw [result?, if_pos (by simp), List.set_append_right _ _ (Nat.le_refl _)]
      simp

/-- An edit that can be made divides the text at its place. -/
theorem exists_makes (h : (edit.result? a).isSome) : ∃ b, edit.Makes a b := by
  cases edit with
  | insert place x =>
      have hplace : place ≤ a.length := by simpa [result?] using h
      have hmakes := Makes.insert (a.take place) (a.drop place) x
      rw [List.take_append_drop, List.length_take_of_le hplace] at hmakes
      exact ⟨_, hmakes⟩
  | delete place =>
      have hplace : place < a.length := by simpa [result?] using h
      obtain ⟨before, x, after, rfl, rfl⟩ := exists_eq_append_cons hplace
      exact ⟨_, .delete before after x⟩
  | replace place y =>
      have hplace : place < a.length := by simpa [result?] using h
      obtain ⟨before, x, after, rfl, rfl⟩ := exists_eq_append_cons hplace
      exact ⟨_, .replace before after x y⟩

theorem result?_eq_some_iff : edit.result? a = some b ↔ edit.Makes a b := by
  constructor
  · intro h
    obtain ⟨b', hmakes⟩ := exists_makes (Option.isSome_of_eq_some h)
    have heq : b' = b := by simpa [hmakes.result?_eq] using h
    exact heq ▸ hmakes
  · exact Makes.result?_eq

/-- What follows a text stays where it is. -/
theorem Makes.append_right (h : edit.Makes a b) (rest : List α) :
    edit.Makes (a ++ rest) (b ++ rest) := by
  cases h with
  | insert before after x => simpa using Makes.insert before (after ++ rest) x
  | delete before after x => simpa using Makes.delete before (after ++ rest) x
  | replace before after x y => simpa using Makes.replace before (after ++ rest) x y

/-! ## Scripts -/

variable {script : List (Edit α)}

theorem resultAll?_cons_eq_some_iff :
    resultAll? a (edit :: script) = some c ↔
      ∃ b, edit.Makes a b ∧ resultAll? b script = some c := by
  simp only [resultAll?, List.foldlM_cons, Option.bind_eq_bind, Option.bind_eq_some_iff,
    result?_eq_some_iff]

theorem resultAll?_concat (h : resultAll? a script = some b) (hmakes : edit.Makes b c) :
    resultAll? a (script ++ [edit]) = some c := by
  unfold resultAll? at h ⊢
  rw [List.foldlM_append, h]
  simpa using hmakes.result?_eq

/-- What stands behind the edits is kept. -/
theorem resultAll?_append_right (h : resultAll? a script = some b) (rest : List α) :
    resultAll? (a ++ rest) script = some (b ++ rest) := by
  induction script generalizing a with
  | nil =>
      cases h
      rfl
  | cons edit script ih =>
      obtain ⟨a', hmakes, h⟩ := resultAll?_cons_eq_some_iff.mp h
      exact resultAll?_cons_eq_some_iff.mpr ⟨a' ++ rest, hmakes.append_right rest, ih h⟩

end Edit

/-! ## Alignments -/

variable [DecidableEq α]

/-- Two texts, from their ends on, and the number of edits. A pair of different characters
is one edit. -/
inductive Alignment : List α → List α → Nat → Prop
  | nil : Alignment [] [] 0
  | pair {a b : List α} {n : Nat} (x y : α) (h : Alignment a b n) :
      Alignment (x :: a) (y :: b) (n + if x = y then 0 else 1)
  | insert {a b : List α} {n : Nat} (y : α) (h : Alignment a b n) :
      Alignment a (y :: b) (n + 1)
  | delete {a b : List α} {n : Nat} (x : α) (h : Alignment a b n) :
      Alignment (x :: a) b (n + 1)

namespace Alignment

variable {m n : Nat}

theorem keep (x : α) (h : Alignment a b n) : Alignment (x :: a) (x :: b) n := by
  simpa using h.pair x x

theorem keepAll (kept : List α) (h : Alignment a b n) :
    Alignment (kept ++ a) (kept ++ b) n := by
  induction kept with
  | nil => exact h
  | cons x kept ih => exact ih.keep x

theorem refl (a : List α) : Alignment a a 0 := by
  simpa using keepAll a .nil

theorem insertAll (inserted : List α) (h : Alignment a b n) :
    Alignment a (inserted ++ b) (n + inserted.length) := by
  induction inserted with
  | nil => exact h
  | cons y inserted ih => exact ih.insert y

/-- What becomes of the first character: after some insertions it is deleted or paired. -/
theorem exists_of_cons {x : α} (h : Alignment (x :: a) c n) :
    ∃ inserted rest k, Alignment a rest k ∧
      (c = inserted ++ rest ∧ n = k + 1 + inserted.length ∨
        ∃ y, c = inserted ++ y :: rest ∧
          n = k + (if x = y then 0 else 1) + inserted.length) := by
  generalize hfull : x :: a = full at h
  induction h with
  | nil => cases hfull
  | @pair _ rest k _ y h _ =>
      cases hfull
      exact ⟨[], rest, k, h, .inr ⟨y, rfl, rfl⟩⟩
  | insert z _ ih =>
      obtain ⟨inserted, rest, k, hrest, ⟨rfl, rfl⟩ | ⟨y, rfl, rfl⟩⟩ := ih hfull
      · exact ⟨z :: inserted, rest, k, hrest, .inl ⟨rfl, rfl⟩⟩
      · exact ⟨z :: inserted, rest, k, hrest, .inr ⟨y, rfl, rfl⟩⟩
  | @delete _ rest k _ h _ =>
      cases hfull
      exact ⟨[], rest, k, h, .inl ⟨rfl, rfl⟩⟩

/-- Two alignments, one after the other, are one that costs no more. -/
theorem exists_trans (h₁ : Alignment a b m) (h₂ : Alignment b c n) :
    ∃ k ≤ m + n, Alignment a c k := by
  -- The induction is on the first alignment; the second one is divided where it comes to
  -- the character that the first one has just written.
  induction h₁ generalizing c n with
  | nil => exact ⟨n, by omega, h₂⟩
  | delete x _ ih =>
      obtain ⟨k, hk, h⟩ := ih h₂
      exact ⟨k + 1, by omega, h.delete x⟩
  | pair x y _ ih =>
      obtain ⟨inserted, rest, k₂, hrest, ⟨rfl, rfl⟩ | ⟨z, rfl, rfl⟩⟩ := h₂.exists_of_cons
      · obtain ⟨k, hk, h⟩ := ih hrest
        exact ⟨_, by omega, (h.delete x).insertAll inserted⟩
      · obtain ⟨k, hk, h⟩ := ih hrest
        exact ⟨_, by grind, (h.pair x z).insertAll inserted⟩
  | insert y _ ih =>
      obtain ⟨inserted, rest, k₂, hrest, ⟨rfl, rfl⟩ | ⟨z, rfl, rfl⟩⟩ := h₂.exists_of_cons
      · obtain ⟨k, hk, h⟩ := ih hrest
        exact ⟨_, by omega, h.insertAll inserted⟩
      · obtain ⟨k, hk, h⟩ := ih hrest
        exact ⟨_, by omega, (h.insert z).insertAll inserted⟩

/-! ## Alignments and scripts -/

/-- The edits of an alignment are made from the first characters to the last. -/
theorem exists_script (h : Alignment a b n) :
    ∃ script, Edit.resultAll? a.reverse script = some b.reverse ∧ script.length = n := by
  induction h with
  | nil => exact ⟨[], rfl, rfl⟩
  | @pair a b n x y _ ih =>
      obtain ⟨script, hscript, rfl⟩ := ih
      have hkept := Edit.resultAll?_append_right hscript [x]
      rw [List.reverse_cons, List.reverse_cons]
      by_cases hxy : x = y
      · subst hxy
        exact ⟨script, hkept, by simp⟩
      · refine ⟨_, Edit.resultAll?_concat hkept (.replace b.reverse [] x y), ?_⟩
        simp [hxy]
  | @insert a b n y _ ih =>
      obtain ⟨script, hscript, rfl⟩ := ih
      rw [List.reverse_cons]
      refine ⟨script ++ [.insert b.reverse.length y], ?_, by simp⟩
      exact Edit.resultAll?_concat hscript (by simpa using Edit.Makes.insert b.reverse [] y)
  | @delete a b n x _ ih =>
      obtain ⟨script, hscript, rfl⟩ := ih
      have hkept := Edit.resultAll?_append_right hscript [x]
      rw [List.reverse_cons]
      refine ⟨script ++ [.delete b.reverse.length], ?_, by simp⟩
      exact Edit.resultAll?_concat hkept (by simpa using Edit.Makes.delete b.reverse [] x)

/-- One edit aligns the two texts at the cost of one. -/
theorem exists_of_makes {edit : Edit α} (h : edit.Makes a b) :
    ∃ n ≤ 1, Alignment a.reverse b.reverse n := by
  cases h with
  | insert before after x =>
      exact ⟨1, by omega, by simpa using ((refl before.reverse).insert x).keepAll after.reverse⟩
  | delete before after x =>
      exact ⟨1, by omega, by simpa using ((refl before.reverse).delete x).keepAll after.reverse⟩
  | replace before after x y =>
      refine ⟨_, ?_, by simpa using ((refl before.reverse).pair x y).keepAll after.reverse⟩
      split <;> omega

/-- A script can be put in order. -/
theorem exists_of_script {script : List (Edit α)} (h : Edit.resultAll? a script = some b) :
    ∃ n ≤ script.length, Alignment a.reverse b.reverse n := by
  induction script generalizing a with
  | nil =>
      cases h
      exact ⟨0, by omega, refl _⟩
  | cons edit script ih =>
      obtain ⟨a', hmakes, h⟩ := Edit.resultAll?_cons_eq_some_iff.mp h
      obtain ⟨m, hm, hfirst⟩ := exists_of_makes hmakes
      obtain ⟨n, hn, hrest⟩ := ih h
      obtain ⟨k, hk, hall⟩ := hfirst.exists_trans hrest
      exact ⟨k, by rw [List.length_cons]; omega, hall⟩

/-- The least cost of an alignment is the least length of a script. -/
theorem isLeast_scriptLengths (h : IsLeast {k | Alignment a.reverse b.reverse k} n) :
    IsLeast (Edit.scriptLengths a b) n := by
  constructor
  · obtain ⟨script, hscript, hlength⟩ := h.1.exists_script
    rw [List.reverse_reverse, List.reverse_reverse] at hscript
    exact ⟨script, hscript, hlength⟩
  · rintro _ ⟨script, hscript, rfl⟩
    obtain ⟨k, hk, halignment⟩ := exists_of_script hscript
    exact Nat.le_trans (h.2 halignment) hk

end Alignment

end StoredProc.Text
