import StoredProc.Proofs.Compile.Elaboration
import StoredProc.Proofs.Number.WrittenIntegers

/-! # Integer literals

Where an integer is expected, the code of a number literal holds exactly the integer that is
written. Where anything may stand, that is so for integers of 64 bits. One that is larger
becomes the double next to it, unless it is so large that there is none.
-/

namespace StoredProc.Expr

variable {m : Manifest} {scope : Scope} {loc : Location} {text : String} {result : TypedCode}

/-- A literal that is to be an integer is one of 64 bits. -/
theorem intCode_eq_ok_iff_written :
    intCode loc text = .ok result ↔
      ∃ n : WrittenInteger, n.text = text ∧ IsInt64 n.value ∧ result = ([.int n.value], .int) := by
  rw [intCode_eq_ok_iff]
  constructor
  · rintro ⟨value, hread, rfl⟩
    obtain ⟨n, rfl⟩ := exists_text_eq_of_readInt64? hread
    obtain ⟨rfl, hint⟩ := readInt64?_text_eq_some_iff.mp hread
    exact ⟨n, rfl, hint, rfl⟩
  · rintro ⟨n, rfl, hint, rfl⟩
    exact ⟨n.value, readInt64?_text_eq_some_iff.mpr ⟨rfl, hint⟩, rfl⟩

/-- A written integer as a double is rounded. -/
theorem doubleCode_text_eq_ok_iff (n : WrittenInteger) :
    doubleCode loc n.text = .ok result ↔
      n.size < Double.overflow ∧
        result = ([.double (.ofDecimal n.sign.isNegative n.size 0)], .double) := by
  rw [doubleCode_eq_ok_iff, Double.read?_text,
    ← Double.ofDecimal_zero_isFinite_iff n.sign.isNegative]
  simp

/-- Number literals that are written as integers. Against an integer a literal is accepted
exactly if it is an integer of 64 bits, and its code holds this integer. Against anything an
integer of 64 bits keeps its value; any other becomes a double, if it is under the overflow. -/
theorem code_integer_exact (m : Manifest) (scope : Scope) (loc : Location) :
    (∀ text result, (Expr.number loc text).code m scope .int = .ok result ↔
      ∃ n : WrittenInteger, n.text = text ∧ IsInt64 n.value ∧
        result = ([.int n.value], .int)) ∧
    ∀ (n : WrittenInteger) result, (Expr.number loc n.text).code m scope .any = .ok result ↔
      IsInt64 n.value ∧ result = ([.int n.value], .int) ∨
        ¬ IsInt64 n.value ∧ n.size < Double.overflow ∧
          result = ([.double (.ofDecimal n.sign.isNegative n.size 0)], .double) := by
  constructor
  · intro text result
    rw [Expr.code, numberCode]
    exact intCode_eq_ok_iff_written
  · intro n result
    rw [Expr.code, numberCode]
    by_cases hint : IsInt64 n.value
    · have hread := readInt64?_text_eq_some_iff.mpr ⟨rfl, hint⟩
      rw [hread, if_pos Option.isSome_some, intCode_eq_ok_iff, hread]
      simp [hint]
    · have hread : readInt64? n.text = none := by
        rw [Option.eq_none_iff_forall_ne_some]
        intro value hvalue
        obtain ⟨rfl, hvalue⟩ := readInt64?_text_eq_some_iff.mp hvalue
        exact hint hvalue
      rw [hread, if_neg (by simp), doubleCode_text_eq_ok_iff]
      simp [hint]

/-- The second integer that has no 64 bits is rounded to the first one. -/
theorem not_integer_exact_beyondInt64 :
    (∃ n : WrittenInteger, n.text = "9223372036854775809" ∧ n.value = 9223372036854775809) ∧
      (Expr.number {} "9223372036854775809").code {} {} .any =
        .ok ([.double (.finite false 4503599627370496 11)], .double) := by
  constructor
  · exact ⟨⟨.absent, [9, 2, 2, 3, 3, 7, 2, 0, 3, 6, 8, 5, 4, 7, 7, 5, 8, 0, 9], by simp⟩,
      by decide, by decide⟩
  · have hread : readInt64? "9223372036854775809" = none := by decide +kernel
    rw [Expr.code, numberCode, hread, if_neg (by simp)]
    apply doubleCode_eq_ok_iff.mpr
    exact ⟨_, by decide +kernel, rfl, rfl⟩

end StoredProc.Expr
