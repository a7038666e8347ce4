import Mathlib.Data.List.Forall2
import Mathlib.Data.Option.Basic
import StoredProc.Tree.Codec

/-! # Replacing one part of a document

What is read from the members of an object when the value of one of them is replaced.
A reader that looks for other names does not notice, and one that reads the two values
alike gives one answer.
-/

namespace StoredProc.Json

/-- Induction over a value and its parts. -/
theorem inductionOn {motive : Json → Prop} (null : motive .null)
    (bool : ∀ value, motive (.bool value)) (num : ∀ text, motive (.num text))
    (str : ∀ written, motive (.str written))
    (arr : ∀ source items, (∀ item ∈ items, motive item) → motive (.arr source items))
    (obj : ∀ source members, (∀ member ∈ members, motive member.2) →
      motive (.obj source members))
    (value : Json) : motive value := by
  cases value with
  | null => exact null
  | bool value => exact bool value
  | num text => exact num text
  | str written => exact str written
  | arr source items =>
      exact arr source items fun item hitem => inductionOn null bool num str arr obj item
  | obj source members =>
      exact obj source members fun member hmember =>
        inductionOn null bool num str arr obj member.2
termination_by sizeOf value
decreasing_by
  all_goals simp_wf
  · have hsize := List.sizeOf_lt_of_mem hitem
    omega
  · have hsize := List.sizeOf_lt_of_mem hmember
    obtain ⟨name, value⟩ := member
    simp only [Prod.mk.sizeOf_spec] at hsize ⊢
    omega

/-- Two lists that differ in one place at most. -/
inductive Replaced {α : Type} (a b : α) : List α → List α → Prop
  | intro (before after : List α) : Replaced a b (before ++ a :: after) (before ++ b :: after)

namespace Replaced

variable {α β : Type} {a b : α} {items others : List α}

theorem map_eq (h : Replaced a b items others) {f : α → β} (hf : f a = f b) :
    items.map f = others.map f := by
  obtain ⟨before, after⟩ := h
  simp [hf]

theorem all_eq (h : Replaced a b items others) {p : α → Bool} (hp : p a = p b) :
    items.all p = others.all p := by
  obtain ⟨before, after⟩ := h
  simp [hp]

theorem mapM_eq {ε : Type} (h : Replaced a b items others) {f : α → Except ε β}
    (hf : f a = f b) : items.mapM f = others.mapM f := by
  obtain ⟨before, after⟩ := h
  simp [hf]

theorem foldlM_eq (h : Replaced a b items others) {step : β → α → Option β}
    (hstep : ∀ state, step state a = step state b) (state : β) :
    items.foldlM step state = others.foldlM step state := by
  obtain ⟨before, after⟩ := h
  simp [hstep]

theorem forall₂ (h : Replaced a b items others) :
    List.Forall₂ (fun item other => item = other ∨ item = a ∧ other = b) items others := by
  obtain ⟨before, after⟩ := h
  have hsame : ∀ rest : List α,
      List.Forall₂ (fun item other => item = other ∨ item = a ∧ other = b) rest rest := fun rest =>
    List.forall₂_same.mpr fun _ _ => .inl rfl
  exact List.rel_append (hsame before) (.cons (.inr ⟨rfl, rfl⟩) (hsame after))

end Replaced

/-- Two runs over related items from related states end in related states. -/
theorem foldlM_rel {α β : Type} {related : β → β → Prop} {alike : α → α → Prop}
    {step : β → α → Option β}
    (hstep : ∀ state state' item item', related state state' → alike item item' →
      Option.Rel related (step state item) (step state' item'))
    {items items' : List α} (hitems : List.Forall₂ alike items items') {state state' : β}
    (hstate : related state state') :
    Option.Rel related (items.foldlM step state) (items'.foldlM step state') := by
  induction hitems generalizing state state' with
  | nil => exact .some hstate
  | @cons item item' _ _ hitem _ ih =>
      rw [List.foldlM_cons, List.foldlM_cons]
      have hnext := hstep state state' item item' hstate hitem
      generalize step state item = next, step state' item' = next' at hnext ⊢
      cases hnext with
      | some hnext => exact ih hnext
      | none => exact .none

/-! ## Names -/

/-- Names that one member answers to differ in the case of letters at most. -/
theorem eq_of_named {first second written : String} (hfirst : named first written = true)
    (hsecond : named second written = true) :
    first.toList.map Char.toLower = second.toList.map Char.toLower := by
  rw [named] at hfirst hsecond
  cases hkey : unescape? written with
  | none => simp [hkey] at hfirst
  | some key =>
      simp only [hkey, beq_iff_eq] at hfirst hsecond
      exact hfirst.symm.trans hsecond

/-! ## Two lists or two objects -/

/-- Both values are lists, or both are objects. -/
inductive Compound : Json → Json → Prop
  | lists (source source' : String) (items items' : List Json) :
      Compound (.arr source items) (.arr source' items')
  | objects (source source' : String) (members members' : List (String × Json)) :
      Compound (.obj source members) (.obj source' members')

namespace Compound

variable {value value' : Json}

theorem isListOrNull_eq (h : Compound value value') :
    value.isListOrNull = value'.isListOrNull := by
  cases h <;> rfl

end Compound

/-! ## Members -/

section Members

variable {name field : String} {value value' : Json} {members members' : List (String × Json)}

theorem soundNames_eq (h : Replaced (name, value) (name, value') members members') :
    soundNames members = soundNames members' :=
  h.all_eq rfl

theorem allNamed_eq (h : Replaced (name, value) (name, value') members members')
    {accepts : Json → Bool} (haccepts : named field name = true → accepts value = accepts value') :
    allNamed field accepts members = allNamed field accepts members' := by
  apply h.all_eq
  cases hname : named field name with
  | false => rfl
  | true => rw [haccepts hname]

/-- Texts are found alike, since neither of the two values is one. -/
theorem textMember?_eq (h : Replaced (name, value) (name, value') members members')
    (hcompound : Compound value value') :
    textMember? field members = textMember? field members' := by
  apply h.foldlM_eq
  intro found
  cases hcompound <;> rfl

/-- Either the replaced member is not the one that counts, or it is. -/
theorem last?_cases (h : Replaced (name, value) (name, value') members members')
    (field : String) :
    last? field members = last? field members' ∨
      named field name = true ∧ last? field members = some value ∧
        last? field members' = some value' := by
  obtain ⟨before, after⟩ := h
  induction before with
  | nil =>
      simp only [List.nil_append, last?]
      cases last? field after with
      | some found => exact .inl rfl
      | none =>
          by_cases hname : named field name = true
          · exact .inr ⟨hname, if_pos hname, if_pos hname⟩
          · exact .inl (by rw [if_neg hname, if_neg hname])
  | cons member rest ih =>
      simp only [List.cons_append, last?]
      obtain heq | ⟨hname, hlast, hlast'⟩ := ih
      · exact .inl (by rw [heq])
      · exact .inr ⟨hname, by rw [hlast], by rw [hlast']⟩

theorem map_last?_eq {α : Type} (h : Replaced (name, value) (name, value') members members')
    {read : Json → α} (hread : named field name = true → read value = read value') :
    (last? field members).map read = (last? field members').map read := by
  obtain heq | ⟨hname, hlast, hlast'⟩ := last?_cases h field
  · rw [heq]
  · rw [hlast, hlast', Option.map_some, Option.map_some, hread hname]

/-- A member that is not `null` is found as before, or it is the one that was replaced. -/
theorem present?_cases (h : Replaced (name, value) (name, value') members members')
    (hcompound : Compound value value') (field : String) :
    present? field members = present? field members' ∨
      named field name = true ∧ present? field members = some value ∧
        present? field members' = some value' := by
  rw [present?, present?]
  obtain heq | ⟨hname, hlast, hlast'⟩ := last?_cases h field
  · exact .inl (by rw [heq])
  · right
    rw [hlast, hlast']
    cases hcompound <;> exact ⟨hname, rfl, rfl⟩

theorem isSome_present?_eq (h : Replaced (name, value) (name, value') members members')
    (hcompound : Compound value value') (field : String) :
    (present? field members).isSome = (present? field members').isSome := by
  obtain heq | ⟨-, hpresent, hpresent'⟩ := present?_cases h hcompound field
  · rw [heq]
  · rw [hpresent, hpresent', Option.isSome_some, Option.isSome_some]

theorem map_present?_eq {α : Type} (h : Replaced (name, value) (name, value') members members')
    (hcompound : Compound value value') {read : Json → α}
    (hread : named field name = true → read value = read value') :
    (present? field members).map read = (present? field members').map read := by
  obtain heq | ⟨hname, hpresent, hpresent'⟩ := present?_cases h hcompound field
  · rw [heq]
  · rw [hpresent, hpresent', Option.map_some, Option.map_some, hread hname]

end Members

end StoredProc.Json
