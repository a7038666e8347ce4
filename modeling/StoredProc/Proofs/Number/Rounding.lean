import Mathlib.Algebra.Order.Field.Power
import Mathlib.Algebra.Order.Ring.Rat
import Mathlib.Tactic.Linarith
import Mathlib.Tactic.Positivity
import Mathlib.Tactic.Ring
import StoredProc.Number.Shortest

/-! # Numbers that round to a finite double

A number is rounded to an infinity only if it is at least half a unit above the
greatest double.
-/

namespace StoredProc

theorem powerOfTwo_eq (n : Nat) : powerOfTwo n = 2 ^ n := rfl

theorem powerOfTen_eq (n : Nat) : powerOfTen n = 10 ^ n := rfl

namespace Double

variable {num den : Nat}

/-- The least number that rounds to an infinity: half a unit above the greatest double. -/
def overflow : Nat := (2 ^ 54 - 1) * 2 ^ 970

theorem overflow_lt : overflow < 2 ^ 1024 := by
  have hpower : (2 : Nat) ^ 1024 = 2 ^ 54 * 2 ^ 970 := by rw [← pow_add]
  rw [overflow, hpower]
  exact Nat.mul_lt_mul_of_pos_right (by decide) (by positivity)

/-- A number is half a unit under its rounded value at least. -/
theorem le_of_roundHalfEven (num den : Nat) :
    (2 * roundHalfEven num den - 1) * den ≤ 2 * num := by
  have hdivide : den * (num / den) + num % den = num := Nat.div_add_mod num den
  rw [roundHalfEven]
  split
  next hup =>
    have hhalf : den ≤ 2 * (num % den) := by omega
    calc (2 * (num / den + 1) - 1) * den = 2 * (den * (num / den)) + den := by
          rw [show 2 * (num / den + 1) - 1 = 2 * (num / den) + 1 by omega]
          ring
      _ ≤ 2 * num := by omega
  next =>
    calc (2 * (num / den) - 1) * den ≤ 2 * (num / den) * den := Nat.mul_le_mul_right _ (by omega)
      _ = 2 * (den * (num / den)) := by ring
      _ ≤ 2 * num := by omega

/-- The exponent that a number is first tried with is not too great. -/
theorem guess_le (hden : 0 < den) (h : num < overflow * den) (hnum : num ≠ 0) :
    max ((Nat.log2 num : Int) - Nat.log2 den - 53) leastExponent ≤ greatestExponent := by
  by_contra hlarge
  have hlog : Nat.log2 den + 1025 ≤ Nat.log2 num := by
    rw [leastExponent, greatestExponent] at hlarge
    omega
  have hgreat : den * 2 ^ 1024 ≤ num := by
    calc den * 2 ^ 1024 ≤ 2 ^ (Nat.log2 den + 1) * 2 ^ 1024 :=
          Nat.mul_le_mul_right _ Nat.lt_log2_self.le
      _ = 2 ^ (Nat.log2 den + 1025) := by rw [← pow_add]
      _ ≤ 2 ^ Nat.log2 num := Nat.pow_le_pow_right (by decide) hlog
      _ ≤ num := Nat.log2_self_le hnum
  have hsmall : overflow * den < den * 2 ^ 1024 := by
    rw [Nat.mul_comm]
    exact Nat.mul_lt_mul_of_pos_left overflow_lt hden
  omega

/-- The exponent of a ratio is in the range of the doubles. -/
theorem exponentOf_le (hden : 0 < den) (h : num < overflow * den) (hnum : num ≠ 0) :
    exponentOf num den ≤ greatestExponent := by
  have hguess := guess_le hden h hnum
  rw [exponentOf]
  generalize max ((Nat.log2 num : Int) - Nat.log2 den - 53) leastExponent = guess at hguess ⊢
  split
  next n d heq =>
    obtain ⟨rfl, rfl⟩ := Prod.mk.inj heq
    split
    next hle =>
      refine Int.add_one_le_of_lt (lt_of_le_of_ne hguess ?_)
      rintro rfl
      have hlarge : den * 2 ^ 1024 ≤ num := by
        calc den * 2 ^ 1024 = den * powerOfTwo 971 * powerOfTwo 53 := by
              rw [powerOfTwo_eq, powerOfTwo_eq, Nat.mul_assoc, ← pow_add]
          _ ≤ num * powerOfTwo 0 := hle
          _ = num := Nat.mul_one num
      have hsmall := Nat.mul_lt_mul_of_pos_left overflow_lt hden
      rw [Nat.mul_comm] at hsmall
      omega
    next => exact hguess

/-- With the greatest exponent the mantissa does not overflow. -/
theorem rounded_ne (h : num < overflow * den) :
    roundHalfEven num (den * powerOfTwo 971) ≠ powerOfTwo 53 := by
  intro hrounded
  have hle := le_of_roundHalfEven num (den * powerOfTwo 971)
  rw [hrounded, powerOfTwo_eq, powerOfTwo_eq] at hle
  have htwice : (2 * 2 ^ 53 - 1) * (den * 2 ^ 971) = 2 * (overflow * den) := by
    rw [overflow, pow_succ' 2 970, ← pow_succ']
    simp only [Nat.mul_comm, Nat.mul_left_comm]
  omega

/-- What is below the overflow is rounded to a double that is finite. -/
theorem carried_le (h : num < overflow * den) {e : Int} (he : e ≤ greatestExponent) :
    (carried (roundHalfEven (scaled num den e).1 (scaled num den e).2) e).2 ≤
      greatestExponent := by
  rw [carried]
  split
  next hm =>
    refine Int.add_one_le_of_lt (lt_of_le_of_ne he ?_)
    rintro rfl
    refine rounded_ne h ?_
    rwa [scaled, show (-greatestExponent).toNat = 0 from rfl, powerOfTwo_eq 0, pow_zero,
      Nat.mul_one] at hm
  next => exact he

theorem ofRounded_isFinite (negative : Bool) {rounded : Nat × Int}
    (h : rounded.2 ≤ greatestExponent) : (ofRounded negative rounded).isFinite = true := by
  rw [ofRounded, if_neg (Int.not_lt.mpr h)]
  rfl

/-- A ratio under the overflow is rounded to a finite double. -/
theorem ofRatio_isFinite (negative : Bool) (hden : 0 < den) (h : num < overflow * den) :
    (ofRatio negative num den).isFinite = true := by
  rw [ofRatio]
  by_cases hnum : num = 0
  · rw [if_pos hnum]
    rfl
  · rw [if_neg hnum]
    exact ofRounded_isFinite negative (carried_le h (exponentOf_le hden h hnum))

/-! ## Decimals -/

theorem decimalLength_pos (n : Nat) : 0 < decimalLength n :=
  List.length_pos_iff.mpr Nat.toDigits_ne_nil

theorem lt_pow_decimalLength (n : Nat) : n < 10 ^ decimalLength n :=
  (Nat.length_toDigits_le_iff (by decide) (decimalLength_pos n)).mp (le_refl (decimalLength n))

/-- A number is at least the power of ten with as many digits. -/
theorem pow_le_of_ne_zero {n : Nat} (h : n ≠ 0) : 10 ^ (decimalLength n - 1) ≤ n := by
  by_cases hone : decimalLength n = 1
  · rw [hone, Nat.sub_self, pow_zero]
    exact Nat.one_le_iff_ne_zero.mpr h
  · by_contra hlt
    have hlength := decimalLength_pos n
    have hshort := (Nat.length_toDigits_le_iff (by decide) (by omega)).mpr (Nat.lt_of_not_le hlt)
    change decimalLength n ≤ decimalLength n - 1 at hshort
    omega

/-- A power with an integer exponent, as the ratio of two natural powers. -/
theorem zpow_mul_pow_toNat {base : Rat} (hbase : base ≠ 0) (e : Int) :
    base ^ e * base ^ (-e).toNat = base ^ e.toNat := by
  obtain ⟨n, rfl | rfl⟩ := e.eq_nat_or_neg
  · simp
  · simp [hbase]

theorem two_pow_le_ten_pow {n k : Nat} (h : n ≤ 3 * k) : 2 ^ n ≤ 10 ^ k := by
  calc 2 ^ n ≤ 2 ^ (3 * k) := Nat.pow_le_pow_right (by decide) h
    _ = (2 ^ 3) ^ k := by rw [pow_mul]
    _ ≤ 10 ^ k := Nat.pow_le_pow_left (by decide) k

theorem overflow_lt_pow : (overflow : Rat) < 10 ^ (400 : Int) := by
  have hlt : overflow < 10 ^ 400 := overflow_lt.trans_le (two_pow_le_ten_pow (by decide))
  exact_mod_cast hlt

end Double

namespace Decimal

open Double (decimalLength)

variable {d : Decimal}

/-- The number that a decimal stands for. -/
def value (d : Decimal) : Rat := d.digits * 10 ^ d.exponent

theorem pow_le_value (h : d.digits ≠ 0) :
    (10 : Rat) ^ (d.exponent + (decimalLength d.digits - 1 : Nat)) ≤ d.value := by
  rw [value, zpow_add₀ (by norm_num), zpow_natCast, mul_comm]
  gcongr
  exact_mod_cast Double.pow_le_of_ne_zero h

theorem value_lt_pow (d : Decimal) :
    d.value < (10 : Rat) ^ (d.exponent + decimalLength d.digits) := by
  rw [value, zpow_add₀ (by norm_num), zpow_natCast, mul_comm]
  gcongr
  exact_mod_cast Double.lt_pow_decimalLength d.digits

/-- A decimal under the overflow is rounded to a finite double. -/
theorem ofDecimal_isFinite (negative : Bool) (h : d.value < Double.overflow) :
    (Double.ofDecimal negative d.digits d.exponent).isFinite = true := by
  rw [Double.ofDecimal]
  by_cases hdigits : d.digits = 0
  · rw [if_pos hdigits]
    rfl
  · rw [if_neg hdigits]
    have hsize : ¬ 400 < d.exponent + decimalLength d.digits := by
      have hlt := (pow_le_value hdigits).trans_lt (h.trans Double.overflow_lt_pow)
      rw [zpow_lt_zpow_iff_right₀ (by norm_num)] at hlt
      have hlength := Double.decimalLength_pos d.digits
      omega
    dsimp only
    rw [if_neg hsize]
    split
    next => rfl
    next =>
      have hpositive : 0 < powerOfTen (-d.exponent).toNat := by
        rw [powerOfTen_eq]
        positivity
      refine Double.ofRatio_isFinite negative hpositive ?_
      have hscaled := mul_lt_mul_of_pos_right h
        (show (0 : Rat) < 10 ^ (-d.exponent).toNat by positivity)
      rw [value, mul_assoc, Double.zpow_mul_pow_toNat (by norm_num)] at hscaled
      rw [powerOfTen_eq, powerOfTen_eq]
      exact_mod_cast hscaled

end Decimal

/-! ## Integers -/

namespace Double

/-- The logarithm of a product is at least those of its factors together. -/
theorem add_le_log2 {a b c : Nat} (hpower : 2 ^ a ≤ c) (h : c * 2 ^ b ≤ num) :
    a + b ≤ Nat.log2 num := by
  have hle : 2 ^ a * 2 ^ b ≤ num := (Nat.mul_le_mul_right _ hpower).trans h
  have hnum : num ≠ 0 := (lt_of_lt_of_le (by positivity) hle).ne'
  rw [Nat.le_log2 hnum, Nat.pow_add]
  exact hle

theorem lt_pow_of_log2_lt {k : Nat} (h : Nat.log2 num < k) : num < 2 ^ k :=
  Nat.lt_log2_self.trans_le (Nat.pow_le_pow_right (by decide) h)

/-- The exponent of an integer of more than 53 bits leaves 53 bits. -/
theorem exponentOf_one (h : 53 ≤ Nat.log2 num) : exponentOf num 1 = (Nat.log2 num : Int) - 52 := by
  have hnum : num ≠ 0 := by
    rintro rfl
    simp at h
  have hguess : max ((Nat.log2 num : Int) - Nat.log2 1 - 53) leastExponent =
      (Nat.log2 num : Int) - 53 := by
    have hone : Nat.log2 1 = 0 := rfl
    rw [hone, leastExponent]
    omega
  have hscaled : scaled num 1 ((Nat.log2 num : Int) - 53) =
      (num, powerOfTwo (Nat.log2 num - 53)) := by
    have hneg : (-((Nat.log2 num : Int) - 53)).toNat = 0 := by omega
    have hpos : ((Nat.log2 num : Int) - 53).toNat = Nat.log2 num - 53 := by omega
    rw [scaled, hneg, hpos, powerOfTwo_eq 0, pow_zero, Nat.mul_one, Nat.one_mul]
  have hle : powerOfTwo (Nat.log2 num - 53) * powerOfTwo 53 ≤ num := by
    rw [powerOfTwo_eq, powerOfTwo_eq, ← pow_add, Nat.sub_add_cancel h]
    exact Nat.log2_self_le hnum
  rw [exponentOf, hguess]
  dsimp only
  rw [hscaled]
  dsimp only
  rw [if_pos hle]
  omega

/-- Between the overflow and the next power of two the mantissa overflows. -/
theorem rounded_eq_of_overflow_le (hle : overflow ≤ num) (hlt : num < 2 ^ 1024) :
    roundHalfEven num (powerOfTwo 971) = powerOfTwo 53 := by
  have hden : powerOfTwo 971 = 2 * 2 ^ 970 := by rw [powerOfTwo_eq, pow_succ']
  have hupper : (2 : Nat) ^ 1024 = 2 ^ 54 * 2 ^ 970 := by rw [← pow_add]
  rw [overflow] at hle
  rw [hupper] at hlt
  rw [hden]
  have hunit : 0 < 2 ^ 970 := by positivity
  generalize 2 ^ 970 = unit at hle hlt hunit ⊢
  have hquotient : num / (2 * unit) = 2 ^ 53 - 1 := by
    apply Nat.div_eq_of_lt_le
    · omega
    · omega
  have hrest : num % (2 * unit) = num - (2 * unit) * (2 ^ 53 - 1) := by
    rw [Nat.mod_eq_sub, hquotient]
  rw [roundHalfEven, powerOfTwo_eq, hquotient, hrest, if_pos]
  · rfl
  · omega

/-- An integer from the overflow on is rounded to an infinity. -/
theorem ofRatio_one_of_overflow_le (negative : Bool) (h : overflow ≤ num) :
    ofRatio negative num 1 = .infinite negative := by
  have hnum : num ≠ 0 := by
    rintro rfl
    exact absurd h (Nat.not_le_of_lt (by rw [overflow]; positivity))
  have hlog : 53 + 970 ≤ Nat.log2 num := add_le_log2 (by decide) h
  have hexponent := exponentOf_one (Nat.le_of_add_right_le hlog)
  rw [ofRatio, if_neg hnum]
  dsimp only
  rw [ofRounded, if_pos]
  rw [carried]
  by_cases hgreat : 1024 ≤ Nat.log2 num
  · have hlarge : greatestExponent < exponentOf num 1 := by
      rw [hexponent, greatestExponent]
      omega
    split
    · exact hlarge.trans (Int.lt_succ _)
    · exact hlarge
  · have hlast : exponentOf num 1 = greatestExponent := by
      rw [hexponent, greatestExponent]
      omega
    have hlt : num < 2 ^ 1024 := lt_pow_of_log2_lt (Nat.lt_of_not_le hgreat)
    have hscaled : scaled num 1 greatestExponent = (num, powerOfTwo 971) := by
      rw [scaled, show (-greatestExponent).toNat = 0 from rfl,
        show greatestExponent.toNat = 971 from rfl, powerOfTwo_eq 0, pow_zero, Nat.mul_one,
        Nat.one_mul]
    rw [hlast, hscaled, if_pos (rounded_eq_of_overflow_le h hlt)]
    exact Int.lt_succ _

/-- An integer is rounded to a finite double exactly if it is under the overflow. -/
theorem ofDecimal_zero_isFinite_iff (negative : Bool) (size : Nat) :
    (ofDecimal negative size 0).isFinite = true ↔ size < overflow := by
  constructor
  · intro h
    by_contra hlarge
    have hsize : size ≠ 0 := by
      rintro rfl
      exact hlarge (by rw [overflow]; positivity)
    rw [ofDecimal, if_neg hsize] at h
    dsimp only at h
    split at h
    · cases h
    · split at h
      · have := decimalLength_pos size
        omega
      · have hone : size * powerOfTen (0 : Int).toNat = size := Nat.mul_one size
        rw [hone, show powerOfTen (-(0 : Int)).toNat = 1 from rfl,
          ofRatio_one_of_overflow_le negative (Nat.le_of_not_lt hlarge)] at h
        cases h
  · intro h
    have hvalue : (Decimal.mk size 0).value = size := by simp [Decimal.value]
    have hlt : (Decimal.mk size 0).value < overflow := by
      rw [hvalue]
      exact Nat.cast_lt.mpr h
    exact Decimal.ofDecimal_isFinite negative hlt

end Double

end StoredProc
