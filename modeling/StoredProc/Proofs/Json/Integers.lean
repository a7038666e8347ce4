import StoredProc.Proofs.Machine.Payloads
import StoredProc.Tree.Codec

/-! # Written integers

What is read as an integer has 64 bits, and every integer of 64 bits is read from the way in
which it is written.
-/

namespace StoredProc

/-- What is read as an integer has 64 bits. -/
theorem Json.isInt64_of_int64? {value : Json} {n : Int} (h : value.int64? = some n) :
    IsInt64 n := by
  cases value with
  | num text =>
      simp only [Json.int64?, Option.bind_eq_bind, Option.bind_eq_some_iff] at h
      obtain ⟨-, -, h⟩ := h
      have hlimit : (int64Limit : Int) = 9223372036854775808 := rfl
      rw [IsInt64]
      split at h
      all_goals
        simp only [if_true, Bool.false_eq_true, if_false] at h
        split at h
        · cases h
          omega
        · cases h
  | null | bool | str | arr | obj => cases h

/-- An integer of 64 bits is read as it is written. -/
theorem Json.int64?_int {value : Int} (h : IsInt64 value) :
    (Json.int value).int64? = some value := by
  have hne : (Nat.toDigits 10 value.natAbs).isEmpty = false :=
    List.isEmpty_eq_false_iff.mpr Nat.toDigits_ne_nil
  have hdigit := isDigit_toDigits value.natAbs
  have hvalue : (Nat.toDigits 10 value.natAbs).foldl
      (fun n d => n * 10 + (d.toNat - '0'.toNat)) 0 = value.natAbs :=
    digitsValue_toDigits value.natAbs
  rw [IsInt64] at h
  rw [Double.int_eq]
  generalize Nat.toDigits 10 value.natAbs = digits at hne hdigit hvalue
  have hall : digits.all Char.isDigit = true := List.all_eq_true.mpr hdigit
  by_cases hneg : value < 0
  · rw [decide_eq_true hneg]
    simp only [Double.signText, if_true, List.cons_append, List.nil_append, Json.int64?,
      String.toList_ofList, hne, hall, hvalue, Bool.not_false, Bool.and_self]
    have hle : value.natAbs ≤ int64Limit := by omega
    have heq : -(value.natAbs : Int) = value := by omega
    exact (if_pos hle).trans (congrArg some heq)
  · rw [decide_eq_false hneg]
    simp only [Double.signText, Bool.false_eq_true, if_false, List.nil_append, Json.int64?,
      String.toList_ofList]
    split
    · simp at hdigit
    · simp only [hne, hall, hvalue, Bool.not_false, Bool.and_self]
      have hlt : value.natAbs < int64Limit := by omega
      have heq : (value.natAbs : Int) = value := by omega
      exact (if_pos hlt).trans (congrArg some heq)

end StoredProc
