import StoredProc.Number.Double
import StoredProc.Proofs.DataType.Concrete
import Mathlib.Data.List.Perm.Subperm

/-! # Values and their types

The values that the machine works with, and which of them have a type. A record has
a value for every field of its type and for no other name. A value goes over from one
type to a compatible one, as long as no part of the first type is open.
-/

namespace StoredProc

/-- A value of the machine. A record that was looked for may be absent. -/
inductive Value where
  | text (value : String)
  | int (value : Int)
  | double (value : Double)
  | bool (value : Bool)
  | array (items : List Value)
  | object (entries : List (String × Value))
  | pointer (store : String) (id : Nat)
  | absent

namespace Value

open DataType (field?)

/-- Which values have a type. -/
inductive Conforms : DataType → Value → Prop
  | text {value : String} : Conforms .string (.text value)
  | int {value : Int} : Conforms .int (.int value)
  | double {value : Double} : Conforms .double (.double value)
  | bool {value : Bool} : Conforms .bool (.bool value)
  | array {elem : DataType} {items : List Value} (hitems : ∀ item ∈ items, Conforms elem item) :
      Conforms (.array elem) (.array items)
  | object {fields : List (String × DataType)} {entries : List (String × Value)}
      (hnames : ∀ name, (entries.lookup name).isSome = (field? fields name).isSome)
      (hvalues : ∀ name type value, field? fields name = some type →
        entries.lookup name = some value → Conforms type value) :
      Conforms (.object fields) (.object entries)
  | absent {inner : DataType} : Conforms (.optional inner) .absent
  | present {inner : DataType} {value : Value} (hvalue : Conforms inner value) :
      Conforms (.optional inner) value
  | pointer {store : String} {id : Nat} : Conforms (.ref store) (.pointer store id)
  | any {value : Value} : Conforms .any value

end Value

namespace DataType

variable {fields others : List (String × DataType)}

theorem field?_isSome_iff {name : String} :
    (field? fields name).isSome = true ↔ name ∈ fields.map Prod.fst := by
  rw [field?, List.lookup_isSome_iff]
  simp

/-- Among distinct names each field is found. -/
theorem field?_of_mem (hnodup : (fields.map Prod.fst).Nodup) {name : String} {type : DataType}
    (h : (name, type) ∈ fields) : field? fields name = some type := by
  induction fields with
  | nil => cases h
  | cons entry rest ih =>
      rw [List.map_cons, List.nodup_cons] at hnodup
      obtain ⟨key, first⟩ := entry
      rcases List.mem_cons.mp h with heq | hrest
      · cases heq
        simp [field?]
      · have hne : name ≠ key := by
          rintro rfl
          exact hnodup.1 (List.mem_map.mpr ⟨_, hrest, rfl⟩)
        rw [field?, List.lookup_cons, beq_false_of_ne hne]
        exact ih hnodup.2 hrest

/-- Fields are compatible if each has a compatible one of its name on the other side. -/
theorem fieldsCompatible_iff : fieldsCompatible fields others = true ↔
    ∀ entry ∈ fields, ∃ other, field? others entry.1 = some other ∧
      entry.2.compatible other = true := by
  induction fields with
  | nil => simp [fieldsCompatible]
  | cons entry rest ih =>
      rw [fieldsCompatible, Bool.and_eq_true, ih, List.forall_mem_cons]
      cases field? others entry.1 with
      | none => simp
      | some other => simp

/-- A type goes with itself. -/
theorem compatible_self : ∀ {type : DataType}, type.isDistinct = true → type.compatible type = true
  | .prim p, _ => by simp [compatible]
  | .object fields, h => by
      have hnodup := nodup_of_isDistinct h
      simp only [isDistinct, Bool.and_eq_true] at h
      rw [compatible, beq_self_eq_true, Bool.true_and, fieldsCompatible_iff]
      intro entry hentry
      have hsize := List.sizeOf_lt_of_mem hentry
      have hself := compatible_self (fieldsDistinct_iff.mp h.2 entry hentry)
      exact ⟨entry.2, field?_of_mem hnodup hentry, hself⟩
  | .array elem, h => by
      rw [compatible]
      exact compatible_self h
  | .optional inner, h => by
      rw [compatible]
      exact compatible_self h
  | .ref store, _ => by simp [compatible]
  | .any, _ => by simp [compatible]
  | .nothing, _ => by simp [compatible]
termination_by type => sizeOf type
decreasing_by
  all_goals simp_wf
  · obtain ⟨name, type⟩ := entry
    simp only [Prod.mk.sizeOf_spec] at hsize ⊢
    omega

/-- Compatible object types have the same names. -/
theorem field?_isSome_eq (hnodup : (fields.map Prod.fst).Nodup)
    (h : (DataType.object fields).compatible (.object others) = true) (name : String) :
    (field? others name).isSome = (field? fields name).isSome := by
  rw [compatible, Bool.and_eq_true, beq_iff_eq, fieldsCompatible_iff] at h
  have hsubset : fields.map Prod.fst ⊆ others.map Prod.fst := by
    intro found hfound
    obtain ⟨entry, hentry, rfl⟩ := List.mem_map.mp hfound
    obtain ⟨other, hother, _⟩ := h.2 entry hentry
    exact field?_isSome_iff.mp (by rw [hother]; rfl)
  -- There are as many names on both sides, and those of the first are different.
  have hperm : (fields.map Prod.fst).Perm (others.map Prod.fst) :=
    (List.subperm_of_subset hnodup hsubset).perm_of_length_le (by simp [h.1])
  rw [Bool.eq_iff_iff, field?_isSome_iff, field?_isSome_iff, hperm.mem_iff]

end DataType

namespace Value.Conforms

open DataType

theorem exists_pointer {store : String} {value : Value} (h : Conforms (.ref store) value) :
    ∃ id, value = .pointer store id := by
  cases h with
  | @pointer _ id => exact ⟨id, rfl⟩

/-- A value has every type that is compatible with its own. -/
theorem of_compatible {type : DataType} {value : Value} (h : Conforms type value)
    (hconcrete : type.isConcrete = true) {target : DataType} (hdistinct : target.isDistinct = true)
    (hfits : target.compatible type = true) : Conforms target value := by
  induction h generalizing target with
  | text | int | double | bool =>
      cases target with
      | any => exact .any
      | prim p =>
          cases p <;> first | constructor | cases hfits
      | _ => cases hfits
  | array _ ih =>
      cases target with
      | any => exact .any
      | array elem =>
          rw [compatible] at hfits
          exact .array fun item hitem => ih item hitem hconcrete hdistinct hfits
      | _ => cases hfits
  | @object others entries hnames _ ih =>
      cases target with
      | any => exact .any
      | object fields =>
          refine .object ?_ ?_
          · intro name
            rw [hnames, field?_isSome_eq (nodup_of_isDistinct hdistinct) hfits]
          · intro name type value hfield hvalue
            rw [compatible, Bool.and_eq_true, fieldsCompatible_iff] at hfits
            obtain ⟨other, hother, hcompatible⟩ := hfits.2 _ (mem_of_field? hfield)
            exact ih name other value hother hvalue (isConcrete_of_field? hconcrete hother)
              (isDistinct_of_field? hdistinct hfield) hcompatible
      | _ => cases hfits
  | absent =>
      cases target with
      | any => exact .any
      | optional inner => exact .absent
      | _ => cases hfits
  | present _ ih =>
      cases target with
      | any => exact .any
      | optional inner =>
          rw [compatible] at hfits
          exact .present (ih hconcrete hdistinct hfits)
      | _ => cases hfits
  | pointer =>
      cases target with
      | any => exact .any
      | ref store =>
          obtain rfl : store = _ := by simpa [compatible] using hfits
          exact .pointer
      | _ => cases hfits
  | any => cases hconcrete

end Value.Conforms

end StoredProc
