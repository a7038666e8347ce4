import StoredProc.Proofs.Number.Rounding

/-! # The size of the shortest decimal

A double has 53 bits, so seventeen digits suffice: the decimal grid is then finer than
the distance of two doubles. The decimal that is found lies among the numbers that round
to the double, so it is not far from it.
-/

namespace StoredProc

namespace Decimal

/-- Zeros at the end are moved to the exponent. -/
theorem value_stripZeros (fuel : Nat) (d : Decimal) : (d.stripZeros fuel).value = d.value := by
  induction fuel generalizing d with
  | zero => rfl
  | succ fuel ih =>
      rw [stripZeros]
      split
      next h =>
        rw [ih, value, value, zpow_add₀ (by norm_num), zpow_one]
        have hdigits : d.digits / 10 * 10 = d.digits :=
          Nat.div_mul_cancel (Nat.dvd_of_mod_eq_zero h.2)
        have hcast : ((d.digits / 10 : Nat) : Rat) * 10 = d.digits := by exact_mod_cast hdigits
        rw [← hcast]
        ring
      next => rfl

end Decimal

namespace Double

variable {mantissa num den : Nat} {exponent leading : Int}

/-- A finite double in its normal form: 53 bits, or the least exponent. -/
structure IsNormal (mantissa : Nat) (exponent : Int) : Prop where
  mantissa_lt : mantissa < 2 ^ 53
  least_le : leastExponent ≤ exponent
  le_greatest : exponent ≤ greatestExponent
  full_or_least : 2 ^ 52 ≤ mantissa ∨ exponent = leastExponent

/-- The leading digit of a ratio has at most this exponent. -/
theorem pow_leadingExponent_le (den : Nat) (hnum : num ≠ 0) :
    (10 : Rat) ^ leadingExponent num den * den ≤ num := by
  rw [leadingExponent]
  split
  next h =>
    generalize (decimalLength num : Int) - decimalLength den = guess at h ⊢
    have hscaled : (den : Rat) * 10 ^ guess.toNat ≤ num * 10 ^ (-guess).toNat := by
      rw [powerOfTen_eq, powerOfTen_eq] at h
      exact_mod_cast h
    rw [← zpow_mul_pow_toNat (by norm_num), ← mul_assoc] at hscaled
    have hpositive : (0 : Rat) < 10 ^ (-guess).toNat := by positivity
    have := le_of_mul_le_mul_right hscaled hpositive
    linarith
  next =>
    have hlength := decimalLength_pos num
    calc (10 : Rat) ^ ((decimalLength num : Int) - decimalLength den - 1) * den
        ≤ 10 ^ ((decimalLength num : Int) - decimalLength den - 1) * 10 ^ decimalLength den := by
          gcongr
          exact_mod_cast (lt_pow_decimalLength den).le
      _ = 10 ^ (decimalLength num - 1) := by
          rw [← zpow_natCast, ← zpow_natCast, ← zpow_add₀ (by norm_num)]
          congr 1
          omega
      _ ≤ num := by exact_mod_cast pow_le_of_ne_zero hnum

/-! ## The two neighbours on a grid -/

/-- Only what is accepted is found. -/
theorem accepts_of_nearest? {accepts : Nat → Bool} {d : Nat}
    (h : nearest? accepts num den = some d) : accepts d = true := by
  unfold nearest? at h
  dsimp only at h
  split at h
  next hfloor hnext =>
    split at h <;> obtain rfl := Option.some.inj h
    · exact hfloor
    · exact hnext
  next hfloor _ =>
    obtain rfl := Option.some.inj h
    exact hfloor
  next _ hnext =>
    obtain rfl := Option.some.inj h
    exact hnext
  next => cases h

/-- Something is found if one of the two neighbours is accepted. -/
theorem isSome_nearest? {accepts : Nat → Bool}
    (h : accepts (num / den) = true ∨ accepts (num / den + 1) = true) :
    (nearest? accepts num den).isSome = true := by
  unfold nearest?
  dsimp only
  split
  next => split <;> rfl
  next => rfl
  next => rfl
  next hfloor hnext =>
    rw [hfloor, hnext] at h
    simp at h

/-- What is near lies between the bounds, and below the upper one for an odd mantissa. -/
theorem le_of_isNear {low high x : Nat} (h : isNear mantissa low high x = true) :
    low ≤ x ∧ x ≤ high ∧ (mantissa % 2 = 1 → x < high) := by
  unfold isNear at h
  split at h
  next heven =>
    simp only [Bool.and_eq_true, decide_eq_true_eq] at h
    exact ⟨h.1, h.2, by omega⟩
  next =>
    simp only [Bool.and_eq_true, decide_eq_true_eq] at h
    exact ⟨h.1.le, h.2.le, fun _ => h.2⟩

theorem isNear_of_lt {low high x : Nat} (hlow : low < x) (hhigh : x < high) :
    isNear mantissa low high x = true := by
  unfold isNear
  split <;> simp only [Bool.and_eq_true, decide_eq_true_eq]
  · exact ⟨hlow.le, hhigh.le⟩
  · exact ⟨hlow, hhigh⟩

/-- The scales of both sides of a comparison, by which quarters of a unit are compared
with numbers of a grid. -/
theorem exists_scale (exponent grid : Int) : ∃ scale : Rat, 0 < scale ∧
    ((powerOfTwo (exponent - 2).toNat * powerOfTen (-grid).toNat : Nat) : Rat) =
      2 ^ (exponent - 2) * scale ∧
    ((powerOfTwo (2 - exponent).toNat * powerOfTen grid.toNat : Nat) : Rat) =
      10 ^ grid * scale := by
  refine ⟨2 ^ (2 - exponent).toNat * 10 ^ (-grid).toNat, by positivity, ?_, ?_⟩
  · have hpower := zpow_mul_pow_toNat (show (2 : Rat) ≠ 0 by norm_num) (exponent - 2)
    rw [show -(exponent - 2) = 2 - exponent by ring] at hpower
    rw [powerOfTwo_eq, powerOfTen_eq]
    push_cast
    rw [← hpower]
    ring
  · have hpower := zpow_mul_pow_toNat (show (10 : Rat) ≠ 0 by norm_num) grid
    rw [powerOfTwo_eq, powerOfTen_eq]
    push_cast
    rw [← hpower]
    ring

/-- A unit is four quarters. -/
theorem two_zpow_eq (exponent : Int) : (2 : Rat) ^ exponent = 4 * 2 ^ (exponent - 2) := by
  rw [zpow_sub₀ (by norm_num)]
  norm_num
  ring

/-- The decimal that is found lies among the numbers that round to the double. -/
theorem onGrid?_bounds {count : Nat} {d : Decimal} (hmantissa : 0 < mantissa)
    (h : onGrid? mantissa exponent leading count = some d) :
    (2 : Rat) ^ exponent ≤ 2 * d.value ∧ 2 * d.value ≤ (2 * mantissa + 1) * 2 ^ exponent ∧
      (mantissa % 2 = 1 → 2 * d.value < (2 * mantissa + 1) * 2 ^ exponent) := by
  rw [onGrid?, neighbourhood] at h
  obtain ⟨digits, hdigits, rfl⟩ := Option.map_eq_some_iff.mp h
  have hnear := accepts_of_nearest? hdigits
  obtain ⟨hlow, hhigh, hstrict⟩ := le_of_isNear hnear
  have hbelow : 2 ≤ 4 * mantissa -
      (if mantissa = powerOfTwo 52 ∧ exponent ≠ leastExponent then 1 else 2) := by
    split <;> omega
  obtain ⟨scale, hscale, hup, hdown⟩ := exists_scale exponent (leading - count + 1)
  generalize powerOfTwo (exponent - 2).toNat * powerOfTen (-(leading - count + 1)).toNat = up,
    powerOfTwo (2 - exponent).toNat * powerOfTen (leading - count + 1).toNat = down at *
  rw [Decimal.value, two_zpow_eq exponent]
  have hlow' : 2 * up ≤ digits * down := le_trans (Nat.mul_le_mul_right _ hbelow) hlow
  have hlow' : (2 : Rat) * up ≤ digits * down := by exact_mod_cast hlow'
  have hhigh' : (digits : Rat) * down ≤ (4 * mantissa + 2) * up := by exact_mod_cast hhigh
  have hstrict' : mantissa % 2 = 1 → (digits : Rat) * down < (4 * mantissa + 2) * up := by
    intro hodd
    exact_mod_cast hstrict hodd
  rw [hup, hdown] at hlow' hhigh' hstrict'
  refine ⟨?_, ?_, fun hodd => ?_⟩
  · have hcancel := le_of_mul_le_mul_right
      (show 2 * 2 ^ (exponent - 2) * scale ≤ digits * 10 ^ (leading - count + 1) * scale by
        linarith) hscale
    linarith
  · have hcancel := le_of_mul_le_mul_right
      (show digits * 10 ^ (leading - count + 1) * scale ≤
        (4 * mantissa + 2) * 2 ^ (exponent - 2) * scale by linarith) hscale
    linarith
  · have hcancel := lt_of_mul_lt_mul_right
      (show digits * 10 ^ (leading - count + 1) * scale <
        (4 * mantissa + 2) * 2 ^ (exponent - 2) * scale by linarith [hstrict' hodd]) hscale.le
    linarith

/-- On a grid with steps of less than a unit, one of the two neighbours of a double is
rounded to it. A step is less than half a unit where the doubles below are closer. -/
theorem isNear_neighbour {up down low : Nat} (hmantissa : 0 < mantissa)
    (hbits : mantissa < 2 ^ 53) (hup : 0 < up) (hdown : 0 < down)
    (hgrid : down * 10 ^ 16 ≤ 4 * mantissa * up)
    (hlow : low = 4 * mantissa - 2 ∨ low = 4 * mantissa - 1 ∧ mantissa = 2 ^ 52) :
    isNear mantissa (low * up) ((4 * mantissa + 2) * up) (4 * mantissa * up / down * down) = true ∨
    isNear mantissa (low * up) ((4 * mantissa + 2) * up)
      ((4 * mantissa * up / down + 1) * down) = true := by
  have hfloor := Nat.div_mul_le_self (4 * mantissa * up) down
  have hnext := Nat.lt_mul_div_succ (4 * mantissa * up) hdown
  have hsize : mantissa * up < 2 ^ 53 * up := Nat.mul_lt_mul_of_pos_right hbits hup
  have hunit : up ≤ mantissa * up := Nat.le_mul_of_pos_left up hmantissa
  have hhigh : (4 * mantissa + 2) * up = 4 * (mantissa * up) + 2 * up := by ring
  have hupper : (4 * mantissa * up / down + 1) * down = 4 * mantissa * up / down * down + down := by
    ring
  rw [Nat.mul_comm down, hupper] at hnext
  rw [hhigh, hupper]
  rw [Nat.mul_assoc 4] at *
  generalize 4 * (mantissa * up) / down * down = floor at *
  obtain hlow | ⟨hlow, hpower⟩ := hlow
  · have hbelow : low * up = 4 * (mantissa * up) - 2 * up := by
      rw [hlow, Nat.sub_mul, Nat.mul_assoc]
    by_cases hclose : 4 * (mantissa * up) < floor + 2 * up
    · exact .inl (isNear_of_lt (by omega) (by omega))
    · exact .inr (isNear_of_lt (by omega) (by omega))
  · have hbelow : low * up = 4 * (mantissa * up) - up := by
      rw [hlow, Nat.sub_mul, Nat.mul_assoc, Nat.one_mul]
    have hpower : mantissa * up = 2 ^ 52 * up := by rw [hpower]
    exact .inr (isNear_of_lt (by omega) (by omega))

/-- Seventeen digits suffice for 53 bits. -/
theorem isSome_onGrid? (hmantissa : 0 < mantissa) (hbits : mantissa < 2 ^ 53)
    (hleading : (10 : Rat) ^ leading ≤ mantissa * 2 ^ exponent) :
    (onGrid? mantissa exponent leading 17).isSome = true := by
  obtain ⟨scale, hscale, hup, hdown⟩ := exists_scale exponent (leading - (17 : Nat) + 1)
  rw [onGrid?, neighbourhood]
  dsimp only
  rw [Option.isSome_map]
  apply isSome_nearest?
  generalize powerOfTwo (exponent - 2).toNat * powerOfTen (-(leading - (17 : Nat) + 1)).toNat = up,
    powerOfTwo (2 - exponent).toNat * powerOfTen (leading - (17 : Nat) + 1).toNat = down at *
  apply isNear_neighbour hmantissa hbits
  · have hpositive : (0 : Rat) < up := by rw [hup]; positivity
    exact_mod_cast hpositive
  · have hpositive : (0 : Rat) < down := by rw [hdown]; positivity
    exact_mod_cast hpositive
  · have hsteps : (10 : Rat) ^ (leading - (17 : Nat) + 1) * 10 ^ 16 = 10 ^ leading := by
      rw [← zpow_natCast, ← zpow_add₀ (by norm_num)]
      congr 1
      push_cast
      ring
    have hquarters : (2 : Rat) ^ exponent = 4 * 2 ^ (exponent - 2) := two_zpow_eq exponent
    have hgrid : (down : Rat) * 10 ^ 16 ≤ 4 * mantissa * up := by
      calc (down : Rat) * 10 ^ 16 = 10 ^ leading * scale := by rw [hdown, ← hsteps]; ring
        _ ≤ mantissa * 2 ^ exponent * scale := by gcongr
        _ = 4 * mantissa * up := by rw [hup, hquarters]; ring
    exact_mod_cast hgrid
  · split
    next h => exact .inr ⟨rfl, h.1⟩
    next => exact .inl rfl

/-- The shortest decimal of a double lies among the numbers that round to it. -/
theorem shortest_bounds (h : IsNormal mantissa exponent) (hmantissa : 0 < mantissa) :
    (2 : Rat) ^ exponent ≤ 2 * (shortest mantissa exponent).value ∧
      2 * (shortest mantissa exponent).value ≤ (2 * mantissa + 1) * 2 ^ exponent ∧
      (mantissa % 2 = 1 →
        2 * (shortest mantissa exponent).value < (2 * mantissa + 1) * 2 ^ exponent) := by
  rw [shortest, if_neg (by omega)]
  dsimp only
  rw [Decimal.value_stripZeros]
  have hleading : (10 : Rat) ^ leadingExponent (mantissa * powerOfTwo exponent.toNat)
      (powerOfTwo (-exponent).toNat) ≤ mantissa * 2 ^ exponent := by
    have hnum : mantissa * powerOfTwo exponent.toNat ≠ 0 := by
      rw [powerOfTwo_eq]
      positivity
    have hle := pow_leadingExponent_le (powerOfTwo (-exponent).toNat) hnum
    generalize leadingExponent (mantissa * powerOfTwo exponent.toNat)
      (powerOfTwo (-exponent).toNat) = leading at hle ⊢
    rw [powerOfTwo_eq, powerOfTwo_eq] at hle
    push_cast at hle
    rw [← zpow_mul_pow_toNat (by norm_num) exponent, ← mul_assoc] at hle
    exact le_of_mul_le_mul_right hle (by positivity)
  generalize leadingExponent (mantissa * powerOfTwo exponent.toNat)
      (powerOfTwo (-exponent).toNat) = leading at hleading ⊢
  have hfound : ((List.range 17).findSome? fun i =>
      onGrid? mantissa exponent leading (i + 1)).isSome = true := by
    rw [List.findSome?_isSome_iff]
    exact ⟨16, by decide, isSome_onGrid? hmantissa h.mantissa_lt hleading⟩
  obtain ⟨d, hd⟩ := Option.isSome_iff_exists.mp hfound
  obtain ⟨i, -, hi⟩ := List.exists_of_findSome?_eq_some hd
  rw [hd, Option.getD_some]
  exact onGrid?_bounds hmantissa hi

/-- The shortest decimal of a double is under the overflow. -/
theorem shortest_lt (h : IsNormal mantissa exponent) :
    (shortest mantissa exponent).value < overflow := by
  by_cases hzero : mantissa = 0
  · have hpositive : (0 : Rat) < overflow := by
      rw [overflow]
      positivity
    have hvalue : (⟨0, 0⟩ : Decimal).value = 0 := by simp [Decimal.value]
    rw [shortest, if_pos hzero, hvalue]
    exact hpositive
  · obtain ⟨-, hle, hlt⟩ := shortest_bounds h (Nat.pos_of_ne_zero hzero)
    have hunit : (2 : Rat) ^ exponent ≤ 2 * 2 ^ 970 := by
      calc (2 : Rat) ^ exponent ≤ 2 ^ (971 : Int) :=
            zpow_le_zpow_right₀ (by norm_num) h.le_greatest
        _ = 2 * 2 ^ 970 := by
            rw [show (971 : Int) = ((970 + 1 : Nat) : Int) from rfl, zpow_natCast, pow_succ']
    have hunit' : (0 : Rat) < 2 ^ exponent := by positivity
    have hoverflow : (overflow : Rat) = (2 ^ 54 - 1) * 2 ^ 970 := by
      have hbits : ((2 ^ 54 - 1 : Nat) : Rat) = 2 ^ 54 - 1 := by norm_num
      rw [overflow, Nat.cast_mul, hbits, Nat.cast_pow, Nat.cast_ofNat]
    have hbits := h.mantissa_lt
    generalize (shortest mantissa exponent).value = value at hle hlt ⊢
    generalize (2 : Rat) ^ exponent = unit at *
    rw [hoverflow]
    generalize (2 : Rat) ^ 970 = power at *
    rcases Nat.mod_two_eq_zero_or_one mantissa with heven | hodd
    · have hmantissa : (mantissa : Rat) ≤ 2 ^ 53 - 2 := by
        have hle : mantissa + 2 ≤ 2 ^ 53 := by omega
        have hle : ((mantissa + 2 : Nat) : Rat) ≤ ((2 ^ 53 : Nat) : Rat) := by exact_mod_cast hle
        push_cast at hle
        linarith
      nlinarith
    · have hmantissa : (mantissa : Rat) ≤ 2 ^ 53 - 1 := by
        have hle : ((mantissa + 1 : Nat) : Rat) ≤ ((2 ^ 53 : Nat) : Rat) := by exact_mod_cast hbits
        push_cast at hle
        linarith
      have := hlt hodd
      nlinarith

/-- The exponent of the leading digit of the shortest decimal has at most three digits. -/
theorem natAbs_leading_lt (h : IsNormal mantissa exponent) :
    ((shortest mantissa exponent).exponent +
      (decimalLength (shortest mantissa exponent).digits - 1 : Nat)).natAbs < 1000 := by
  by_cases hzero : mantissa = 0
  · rw [shortest, if_pos hzero]
    decide
  · obtain ⟨hlow, -, -⟩ := shortest_bounds h (Nat.pos_of_ne_zero hzero)
    have hhigh := (shortest_lt h).trans overflow_lt_pow
    have hleast : (10 : Rat) ^ (-400 : Int) < (shortest mantissa exponent).value := by
      have hpower : (10 : Rat) ^ (-400 : Int) ≤ 2 ^ (-1080 : Int) := by
        rw [zpow_neg, zpow_neg]
        apply inv_anti₀ (by positivity)
        exact_mod_cast two_pow_le_ten_pow (n := 1080) (k := 400) (by decide)
      have hdouble : (2 : Rat) ^ (-1080 : Int) * 2 < 2 ^ exponent := by
        rw [← zpow_add_one₀ (by norm_num), zpow_lt_zpow_iff_right₀ (by norm_num)]
        have hexponent := h.least_le
        rw [leastExponent] at hexponent
        omega
      linarith
    generalize shortest mantissa exponent = d at hhigh hleast ⊢
    have hdigits : d.digits ≠ 0 := by
      intro hzero
      have hpositive : (0 : Rat) < 10 ^ (-400 : Int) := by positivity
      rw [Decimal.value, hzero, Nat.cast_zero, zero_mul] at hleast
      exact lt_asymm hpositive hleast
    have hupper := (Decimal.pow_le_value hdigits).trans_lt hhigh
    have hlower := hleast.trans d.value_lt_pow
    rw [zpow_lt_zpow_iff_right₀ (by norm_num)] at hupper hlower
    have hlength := decimalLength_pos d.digits
    omega

end Double

end StoredProc
