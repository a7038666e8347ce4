import StoredProc.Proofs.Json.Members

/-! # The last member of a name

Of several members with one name the last one counts. A reader that goes through all
members and keeps what the last one says therefore agrees with a look at that member.
-/

namespace StoredProc.Json

variable {field : String} {value : Json} {members : List (String × Json)}

/-- There is no last member of a name exactly if none has it. -/
theorem last?_eq_none_iff :
    last? field members = none ↔ ∀ member ∈ members, named field member.1 = false := by
  induction members with
  | nil => simp [last?]
  | cons member rest ih =>
      rw [last?, List.forall_mem_cons, ← ih]
      cases last? field rest with
      | some found => simp
      | none => simp

/-- What counts is the value of a member of that name. -/
theorem exists_mem_of_last? (h : last? field members = some value) :
    ∃ name, (name, value) ∈ members ∧ named field name = true := by
  induction members with
  | nil => cases h
  | cons member rest ih =>
      rw [last?] at h
      cases hrest : last? field rest with
      | some found =>
          rw [hrest] at h
          obtain ⟨name, hmem, hname⟩ := ih (hrest.trans h)
          exact ⟨name, List.mem_cons_of_mem _ hmem, hname⟩
      | none =>
          rw [hrest] at h
          dsimp only at h
          split at h
          next hname =>
            cases h
            exact ⟨member.1, List.mem_cons_self, hname⟩
          next => cases h

/-- A pass over the members in which only those of one name are taken in. -/
def passOver {α : Type} (field : String) (take : α → Json → Option α) (start : α)
    (members : List (String × Json)) : Option α :=
  members.foldlM (fun state member =>
    if named field member.1 then take state member.2 else some state) start

/-- A pass in which no member has the name changes nothing. -/
theorem passOver_eq_self {α : Type} {take : α → Json → Option α} {start : α}
    (h : last? field members = none) : passOver field take start members = some start := by
  rw [last?_eq_none_iff] at h
  induction members with
  | nil => rfl
  | cons member rest ih =>
      rw [List.forall_mem_cons] at h
      rw [passOver, List.foldlM_cons, h.1]
      exact ih h.2

/-- A pass ends with the last member of the name. -/
theorem exists_take_of_passOver {α : Type} {take : α → Json → Option α} {start stop : α}
    (h : passOver field take start members = some stop) (hlast : last? field members = some value) :
    ∃ state, take state value = some stop := by
  induction members generalizing start with
  | nil => cases hlast
  | cons member rest ih =>
      rw [passOver, List.foldlM_cons, Option.bind_eq_bind, Option.bind_eq_some_iff] at h
      obtain ⟨state, hstate, h⟩ := h
      rw [last?] at hlast
      cases hrest : last? field rest with
      | some found => exact ih h (by rw [hrest] at hlast; rwa [hrest])
      | none =>
          have hstop : passOver field take state rest = some state := passOver_eq_self hrest
          rw [hrest] at hlast
          dsimp only at hlast
          split at hlast
          next hname =>
            cases hlast
            rw [if_pos hname] at hstate
            exact ⟨start, by rw [hstate, ← hstop]; exact h⟩
          next => cases hlast

/-- The text of a value, over the text known so far. -/
def takeText (found : String) : Json → Option String
  | .null => some found
  | value => value.string?

theorem textMember?_eq_passOver (field : String) (members : List (String × Json)) :
    textMember? field members = passOver field takeText "" members :=
  rfl

theorem takeText_eq_some {found text : String} (h : takeText found value = some text)
    (hne : value ≠ .null) : value.string? = some text := by
  cases value with
  | null => exact absurd rfl hne
  | bool | num | str | arr | obj => exact h

/-- A text member is the text of the last member of the name. -/
theorem string?_of_textMember? {text : String} (h : textMember? field members = some text)
    (hlast : last? field members = some value) (hne : value ≠ .null) :
    value.string? = some text := by
  rw [textMember?_eq_passOver] at h
  obtain ⟨found, hfound⟩ := exists_take_of_passOver h hlast
  exact takeText_eq_some hfound hne

end StoredProc.Json
