import StoredProc.Proofs.Number.Reading
import StoredProc.Proofs.Number.Shortest

/-! # Layouts of numbers

Every layout of a decimal spells that decimal: what is written for an integer or a finite
double is a number of the grammar, and one in range.
-/

namespace StoredProc

open Text (IsNumeral)
open Json (Digits)

/-! ## Runs of digits -/

theorem isNumeral_singleton {c : Char} (h : c.isDigit = true) : IsNumeral [c] := by
  refine ⟨by simp, by simpa using h, ?_⟩
  intro hhead
  cases hhead
  rfl

/-- The first digits of a numeral are one. -/
theorem isNumeral_take {digits : List Char} (h : IsNumeral digits) {count : Nat}
    (hcount : 0 < count) : IsNumeral (digits.take count) := by
  obtain ⟨n, rfl⟩ := Nat.exists_eq_succ_of_ne_zero hcount.ne'
  obtain ⟨first, rest, rfl⟩ := List.exists_cons_of_ne_nil h.ne_nil
  refine ⟨by simp, fun c hc => h.isDigit c (List.mem_of_mem_take hc), ?_⟩
  intro hhead
  have hzero := h.no_leading_zero hhead
  rw [hzero]
  simp

namespace Double

theorem isDigit_padded (width n : Nat) : ∀ c ∈ padded width n, c.isDigit = true := by
  intro c hc
  rw [padded, List.mem_append] at hc
  obtain hc | hc := hc
  · rw [List.eq_of_mem_replicate hc]
    rfl
  · exact isDigit_toDigits n c hc

theorem digitsValue_padded (width n : Nat) : digitsValue (padded width n) = n := by
  rw [padded, digitsValue_append, digitsValue_replicate, digitsValue_toDigits]
  simp

theorem digits_padded (width n : Nat) : Digits (padded width n) := by
  refine ⟨?_, isDigit_padded width n⟩
  rw [padded]
  exact List.append_ne_nil_of_right_ne_nil _ Nat.toDigits_ne_nil

/-- Up to the width, only one digit stands in front of the places after the point. -/
theorem isNumeral_take_padded (places n : Nat) :
    IsNumeral ((padded (places + 1) n).take ((padded (places + 1) n).length - places)) := by
  by_cases hwidth : places + 1 ≤ (Nat.toDigits 10 n).length
  · have hpadded : padded (places + 1) n = Nat.toDigits 10 n := by
      rw [padded, Nat.sub_eq_zero_of_le hwidth]
      rfl
    rw [hpadded]
    exact isNumeral_take (isNumeral_toDigits n) (by omega)
  · have hlength : (padded (places + 1) n).length = places + 1 := by
      rw [padded, List.length_append, List.length_replicate]
      omega
    obtain ⟨first, rest, heq⟩ := List.exists_cons_of_ne_nil (digits_padded (places + 1) n).ne_nil
    have hfirst := isDigit_padded (places + 1) n first (by rw [heq]; exact List.mem_cons_self)
    rw [hlength, Nat.add_sub_cancel_left, heq]
    exact isNumeral_singleton hfirst

/-! ## Layouts -/

/-- An exponent of up to three digits is written with its sign and two digits at least. -/
theorem scaleOf_natAbs {exponent : Int} (h : exponent.natAbs < 1000) :
    ScaleOf ('e' :: (if exponent < 0 then '-' else '+') :: padded 2 exponent.natAbs) exponent := by
  have hvalue := digitsValue_padded 2 exponent.natAbs
  by_cases hneg : exponent < 0
  · have hscale := ScaleOf.down (digits_padded 2 exponent.natAbs) (by omega)
    rw [hvalue] at hscale
    rw [if_pos hneg]
    rwa [show -(exponent.natAbs : Int) = exponent by omega] at hscale
  · have hscale := ScaleOf.up (digits_padded 2 exponent.natAbs) (by omega)
    rw [hvalue] at hscale
    rw [if_neg hneg]
    rwa [show (exponent.natAbs : Int) = exponent by omega] at hscale

/-- The scientific layout spells its decimal. -/
theorem spells_scientific (negative : Bool) {d : Decimal}
    (h : (d.exponent + (decimalLength d.digits - 1 : Nat)).natAbs < 1000) :
    Spells negative d (signText negative ++ scientific d) := by
  obtain ⟨first, rest, heq⟩ := List.exists_cons_of_ne_nil (isNumeral_toDigits d.digits).ne_nil
  have hdigits := isDigit_toDigits d.digits
  have hvalue := digitsValue_toDigits d.digits
  rw [decimalLength, heq] at h
  rw [heq] at hdigits hvalue
  have hinteger : IsNumeral [first] := isNumeral_singleton (hdigits first List.mem_cons_self)
  have hfraction : FractionOf (if rest.isEmpty then [] else '.' :: rest) rest := by
    cases rest with
    | nil => exact .none
    | cons c rest =>
        exact .some ⟨by simp, fun c hc => hdigits c (List.mem_cons_of_mem first hc)⟩
  have hspells : Spells negative _ _ := .mk hinteger hfraction (scaleOf_natAbs h)
  have hdecimal : (⟨digitsValue ([first] ++ rest),
      d.exponent + ((first :: rest).length - 1 : Nat) - rest.length⟩ : Decimal) = d := by
    rw [List.singleton_append, hvalue, List.length_cons, Nat.add_sub_cancel, Int.add_sub_cancel]
  rw [hdecimal] at hspells
  rw [scientific, heq]
  exact hspells

/-- The positional layout spells a decimal with digits behind the point. -/
theorem spells_fraction (negative : Bool) {d : Decimal} (h : d.exponent < 0) :
    Spells negative d (signText negative ++ positional d) := by
  rw [positional, if_neg (Int.not_le.mpr h)]
  have hplaces : d.exponent = 0 - ((-d.exponent).toNat : Int) := by omega
  obtain ⟨n, exponent⟩ := d
  simp only at h hplaces ⊢
  generalize (-exponent).toNat = places at hplaces ⊢
  have hinteger := isNumeral_take_padded places n
  have hpadded := digits_padded (places + 1) n
  have hvalue := digitsValue_padded (places + 1) n
  have hlength : places < (padded (places + 1) n).length := by
    rw [padded, List.length_append, List.length_replicate]
    omega
  generalize padded (places + 1) n = digits at *
  have hdrop : (digits.drop (digits.length - places)).length = places := by
    rw [List.length_drop]
    omega
  have hfraction : Digits (digits.drop (digits.length - places)) := by
    refine ⟨?_, fun c hc => hpadded.isDigit c (List.mem_of_mem_drop hc)⟩
    rw [← List.length_pos_iff, hdrop]
    omega
  have hspells : Spells negative _ _ := .mk hinteger (.some hfraction) .none
  rwa [List.take_append_drop, hvalue, hdrop, ← hplaces, List.append_nil] at hspells

/-- A decimal without places after the point gets one. -/
theorem exists_spells_integer (negative : Bool) {d : Decimal} (h : 0 ≤ d.exponent)
    (hzero : d.digits = 0 → d.exponent = 0) :
    ∃ spelled, spelled.value = d.value ∧
      Spells negative spelled (signText negative ++ (positional d ++ ['.', '0'])) := by
  have hinteger : IsNumeral (positional d) := by
    rw [positional, if_pos h]
    by_cases hdigits : d.digits = 0
    · rw [hdigits, hzero hdigits]
      exact isNumeral_toDigits 0
    · obtain ⟨hne, hdigit, hhead⟩ := isNumeral_toDigits d.digits
      refine ⟨List.append_ne_nil_of_left_ne_nil hne _, ?_, ?_⟩
      · rw [List.forall_mem_append]
        refine ⟨hdigit, fun c hc => ?_⟩
        rw [List.eq_of_mem_replicate hc]
        rfl
      · intro hfirst
        rw [List.head?_append_of_ne_nil _ hne] at hfirst
        have hvalue := digitsValue_toDigits d.digits
        rw [hhead hfirst] at hvalue
        exact absurd hvalue.symm hdigits
  have hfraction : Digits ['0'] := ⟨by simp, by simp⟩
  have hspells : Spells negative _ _ := .mk hinteger (.some hfraction) .none
  rw [List.append_nil] at hspells
  refine ⟨_, ?_, hspells⟩
  have hvalue : digitsValue (positional d) = d.digits * 10 ^ d.exponent.toNat := by
    rw [positional, if_pos h, digitsValue_append, digitsValue_toDigits, digitsValue_replicate,
      List.length_replicate, Nat.add_zero]
  have hzero : digitsValue ['0'] = 0 := rfl
  rw [Decimal.value, Decimal.value, digitsValue_append, hvalue, hzero]
  obtain ⟨n, hn⟩ := Int.eq_ofNat_of_zero_le h
  rw [hn]
  push_cast
  simp

/-- Whether a layout shows that the number is no integer. -/
def isFractional (digits : List Char) : Bool := digits.any fun c => c = '.' || c = 'e'

theorem isFractional_scientific (d : Decimal) : isFractional (scientific d) = true := by
  rw [isFractional, List.any_eq_true]
  exact ⟨'e', by simp [scientific], rfl⟩

/-- A positional layout has a point exactly if there are digits behind it. -/
theorem isFractional_positional (d : Decimal) :
    isFractional (positional d) = decide (d.exponent < 0) := by
  by_cases hneg : d.exponent < 0
  · rw [positional, if_neg (Int.not_le.mpr hneg), isFractional, decide_eq_true hneg,
      List.any_eq_true]
    exact ⟨'.', by simp, rfl⟩
  · rw [positional, if_pos (Int.not_lt.mp hneg), isFractional, decide_eq_false hneg,
      List.any_eq_false]
    intro c hc
    have hdigit : c.isDigit = true := by
      obtain hc | hc := List.mem_append.mp hc
      · exact isDigit_toDigits d.digits c hc
      · rw [List.eq_of_mem_replicate hc]
        rfl
    simp only [Bool.or_eq_true, decide_eq_true_eq]
    rintro (rfl | rfl) <;> cases hdigit

/-- Zero has one decimal. -/
theorem exponent_shortest_of_digits {mantissa : Nat} {exponent : Int}
    (h : IsNormal mantissa exponent) (hdigits : (shortest mantissa exponent).digits = 0) :
    (shortest mantissa exponent).exponent = 0 := by
  by_cases hzero : mantissa = 0
  · rw [shortest, if_pos hzero]
  · obtain ⟨hlow, -, -⟩ := shortest_bounds h (Nat.pos_of_ne_zero hzero)
    have hpositive : (0 : Rat) < 2 ^ exponent := by positivity
    rw [Decimal.value, hdigits, Nat.cast_zero, zero_mul, mul_zero] at hlow
    exact absurd hlow (not_le.mpr hpositive)

/-- The text of a finite double spells a decimal with the value of the shortest one. -/
theorem exists_spells_text? {mantissa : Nat} {exponent : Int} (negative : Bool)
    (h : IsNormal mantissa exponent) :
    ∃ text spelled, (finite negative mantissa exponent).text? = some (String.ofList text) ∧
      Spells negative spelled text ∧ spelled.value = (shortest mantissa exponent).value := by
  have hleading := natAbs_leading_lt h
  have hzero := exponent_shortest_of_digits h
  generalize hd : shortest mantissa exponent = d at *
  have htext : (finite negative mantissa exponent).text? = some (String.ofList (signText negative ++
      if isFractional (general d) then general d else general d ++ ['.', '0'])) := by
    rw [text?, hd]
    rfl
  rw [htext, general]
  by_cases hfar : d.exponent + (decimalLength d.digits - 1 : Nat) < -4 ∨
      6 ≤ d.exponent + (decimalLength d.digits - 1 : Nat)
  · rw [if_pos hfar, isFractional_scientific, if_pos rfl]
    exact ⟨_, d, rfl, spells_scientific negative hleading, rfl⟩
  · rw [if_neg hfar, isFractional_positional]
    by_cases hneg : d.exponent < 0
    · rw [decide_eq_true hneg, if_pos rfl]
      exact ⟨_, d, rfl, spells_fraction negative hneg, rfl⟩
    · rw [decide_eq_false hneg, if_neg (by decide)]
      -- Only here the text has one digit more than the decimal, the zero after the point.
      obtain ⟨spelled, hvalue, hspells⟩ :=
        exists_spells_integer negative (Int.not_lt.mp hneg) hzero
      exact ⟨_, spelled, rfl, hspells, hvalue⟩

/-! ## Integers -/

/-- An integer is a sign and its digits. -/
theorem int_eq (value : Int) :
    Json.int value = .num (String.ofList (signText (decide (value < 0)) ++
      Nat.toDigits 10 value.natAbs)) := by
  cases value with
  | ofNat n =>
      have hsign : decide (Int.ofNat n < 0) = false :=
        decide_eq_false (Int.not_lt.mpr (Int.natCast_nonneg n))
      rw [hsign]
      rfl
  | negSucc n =>
      rw [decide_eq_true (Int.negSucc_lt_zero n)]
      exact congrArg Json.num (String.toList_inj.mp (by simp [signText, Nat.repr]))

theorem spells_int (negative : Bool) (n : Nat) :
    Spells negative ⟨n, 0⟩ (signText negative ++ Nat.toDigits 10 n) := by
  have hspells : Spells negative _ _ := .mk (isNumeral_toDigits n) .none .none
  rwa [List.append_nil, List.append_nil, digitsValue_toDigits] at hspells

theorem int64Limit_le {k : Nat} (h : 63 ≤ k) : int64Limit ≤ 2 ^ k := by
  have hpower : 2 ^ 63 ≤ 2 ^ k := Nat.pow_le_pow_right (by decide) h
  exact hpower

/-- The integers of 64 bits are far below the overflow. -/
theorem int64_lt_overflow {n : Nat} (h : n ≤ int64Limit) :
    (⟨n, 0⟩ : Decimal).value < overflow := by
  have hlimit : int64Limit < overflow := by
    have hpower : 0 < int64Limit ∧ int64Limit ≤ 2 ^ 970 := ⟨by decide, int64Limit_le (by decide)⟩
    rw [overflow]
    generalize 2 ^ 970 = power at hpower ⊢
    omega
  rw [Decimal.value, zpow_zero, mul_one]
  exact_mod_cast h.trans_lt hlimit

end Double

end StoredProc
