import StoredProc.DataType.Basic

/-! # Types without open parts

A type is concrete if it has no part that goes with every type. What is looked up
in a concrete type is concrete.
-/

namespace StoredProc.DataType

mutual

/-- No part of a type is left open. -/
def isConcrete : DataType → Bool
  | .prim _ | .ref _ | .nothing => true
  | .object fields => fieldsConcrete fields
  | .array elem => elem.isConcrete
  | .optional inner => inner.isConcrete
  | .any => false

def fieldsConcrete : List (String × DataType) → Bool
  | [] => true
  | (_, type) :: rest => type.isConcrete && fieldsConcrete rest

end

mutual

/-- The fields of every object type have names of their own. -/
def isDistinct : DataType → Bool
  | .prim _ | .ref _ | .nothing | .any => true
  | .object fields => decide (fields.map Prod.fst).Nodup && fieldsDistinct fields
  | .array elem => elem.isDistinct
  | .optional inner => inner.isDistinct

def fieldsDistinct : List (String × DataType) → Bool
  | [] => true
  | (_, type) :: rest => type.isDistinct && fieldsDistinct rest

end

variable {fields : List (String × DataType)} {name : String} {type : DataType}

theorem mem_of_field? (h : field? fields name = some type) : (name, type) ∈ fields := by
  obtain ⟨before, after, rfl, _⟩ := List.lookup_eq_some_iff.mp h
  simp

theorem fieldsConcrete_iff :
    fieldsConcrete fields = true ↔ ∀ entry ∈ fields, entry.2.isConcrete = true := by
  induction fields with
  | nil => simp [fieldsConcrete]
  | cons entry rest ih => simp [fieldsConcrete, ih]

theorem fieldsDistinct_iff :
    fieldsDistinct fields = true ↔ ∀ entry ∈ fields, entry.2.isDistinct = true := by
  induction fields with
  | nil => simp [fieldsDistinct]
  | cons entry rest ih => simp [fieldsDistinct, ih]

theorem isConcrete_of_field? (h : (DataType.object fields).isConcrete = true)
    (hfield : field? fields name = some type) : type.isConcrete = true :=
  fieldsConcrete_iff.mp h _ (mem_of_field? hfield)

theorem isDistinct_of_field? (h : (DataType.object fields).isDistinct = true)
    (hfield : field? fields name = some type) : type.isDistinct = true := by
  simp only [isDistinct, Bool.and_eq_true] at h
  exact fieldsDistinct_iff.mp h.2 _ (mem_of_field? hfield)

theorem nodup_of_isDistinct (h : (DataType.object fields).isDistinct = true) :
    (fields.map Prod.fst).Nodup := by
  simp only [isDistinct, Bool.and_eq_true, decide_eq_true_eq] at h
  exact h.1

/-- A type without open parts whose objects are maps. -/
structure Proper (type : DataType) : Prop where
  concrete : type.isConcrete = true
  distinct : type.isDistinct = true

namespace Proper

theorem field (h : Proper (.object fields)) (hfield : field? fields name = some type) :
    Proper type where
  concrete := isConcrete_of_field? h.concrete hfield
  distinct := isDistinct_of_field? h.distinct hfield

theorem elem (h : Proper (.array type)) : Proper type := ⟨h.concrete, h.distinct⟩

theorem array (h : Proper type) : Proper (.array type) := ⟨h.concrete, h.distinct⟩

theorem optional (h : Proper type) : Proper (.optional type) := ⟨h.concrete, h.distinct⟩

end Proper

end StoredProc.DataType
