import StoredProc.Proofs.Machine.Payloads

/-! # Written integers

An integer is written as a sign, or none, and decimal digits. A text is read as an integer
exactly if it is written so and the integer has 64 bits; as a double such a text is read as
the double next to the integer, and that one is finite up to the overflow.
-/

namespace StoredProc

/-! ## Texts of integers -/

/-- An integer as it is written, the highest digit first. -/
structure WrittenInteger where
  sign : Sign
  digits : List (Fin 10)
  digits_ne_nil : digits ≠ []

namespace WrittenInteger

/-- The digits of a written integer as characters. -/
def digitTexts (n : WrittenInteger) : List Char := n.digits.map fun d => Nat.digitChar d.val

def text (n : WrittenInteger) : String := String.ofList (n.sign.text ++ n.digitTexts)

/-- The number that the digits spell. -/
def size (n : WrittenInteger) : Nat := Nat.ofDigits 10 (n.digits.reverse.map Fin.val)

/-- The integer that is written. -/
def value (n : WrittenInteger) : Int := if n.sign.isNegative then -(n.size : Int) else n.size

end WrittenInteger

/-! ## Digits -/

theorem isDigit_digitChar (d : Fin 10) : (Nat.digitChar d.val).isDigit = true := by
  revert d
  decide

theorem digit_digitChar (d : Fin 10) : Text.digit (Nat.digitChar d.val) = d.val := by
  revert d
  decide

theorem exists_digitChar_eq {c : Char} (h : c.isDigit = true) :
    ∃ d : Fin 10, Nat.digitChar d.val = c := by
  refine ⟨⟨Text.digit c, Text.digit_lt h⟩, ?_⟩
  exact Text.digit_inj (isDigit_digitChar _) h (digit_digitChar _)

/-- Characters that are digits come from digits. -/
theorem exists_digits_eq {cs : List Char} (h : ∀ c ∈ cs, c.isDigit = true) :
    ∃ digits : List (Fin 10), digits.map (fun d => Nat.digitChar d.val) = cs := by
  induction cs with
  | nil => exact ⟨[], rfl⟩
  | cons c rest ih =>
      obtain ⟨hc, hrest⟩ := List.forall_mem_cons.mp h
      obtain ⟨d, hd⟩ := exists_digitChar_eq hc
      obtain ⟨digits, hdigits⟩ := ih hrest
      exact ⟨d :: digits, by rw [List.map_cons, hd, hdigits]⟩

namespace WrittenInteger

variable (n : WrittenInteger)

theorem isDigit_digitTexts : ∀ c ∈ n.digitTexts, c.isDigit = true := by
  intro c hc
  obtain ⟨d, -, rfl⟩ := List.mem_map.mp hc
  exact isDigit_digitChar d

theorem digitTexts_ne_nil : n.digitTexts ≠ [] := by
  simpa [digitTexts] using n.digits_ne_nil

theorem digitsValue_digitTexts : digitsValue n.digitTexts = n.size := by
  rw [Text.digitsValue_eq_ofDigits, digitTexts, ← List.map_reverse, List.map_map, size]
  congr 2
  funext d
  exact digit_digitChar d

end WrittenInteger

/-- What is behind the sign of a text. -/
theorem exists_sign_eq (cs : List Char) :
    ∃ sign : Sign, cs = sign.text ++ (takeSign cs).2 ∧ (takeSign cs).1 = sign.isNegative := by
  unfold takeSign
  split
  · exact ⟨.minus, rfl, rfl⟩
  · exact ⟨.plus, rfl, rfl⟩
  · exact ⟨.absent, rfl, rfl⟩

/-! ## Reading integers -/

/-- A written integer is read exactly if it fits in 64 bits, which reach one further down than
up. -/
theorem readInt64?_text (n : WrittenInteger) :
    readInt64? n.text =
      if n.sign.isNegative then
        if n.size ≤ int64Limit then some (-(n.size : Int)) else none
      else if n.size < int64Limit then some (n.size : Int) else none := by
  have hvalue := n.digitsValue_digitTexts
  have hall : n.digitTexts.all Char.isDigit = true := List.all_eq_true.mpr n.isDigit_digitTexts
  have hdigit := n.isDigit_digitTexts
  rw [readInt64?, WrittenInteger.text, String.toList_ofList]
  obtain ⟨first, rest, heq⟩ := List.exists_cons_of_ne_nil n.digitTexts_ne_nil
  rw [heq] at hvalue hall hdigit ⊢
  rw [takeSign_text _ (hdigit first List.mem_cons_self)]
  simp only [List.isEmpty_cons, hall, hvalue, Bool.not_true, Bool.or_self, Bool.false_eq_true,
    if_false]

/-- An integer that is written is read if it has 64 bits. -/
theorem readInt64?_text_eq_some_iff {n : WrittenInteger} {value : Int} :
    readInt64? n.text = some value ↔ n.value = value ∧ IsInt64 value := by
  have hlimit : (int64Limit : Int) = 9223372036854775808 := rfl
  rw [readInt64?_text, WrittenInteger.value, IsInt64]
  cases n.sign.isNegative with
  | true =>
      simp only [if_true, Option.ite_none_right_eq_some, Option.some.injEq]
      omega
  | false =>
      simp only [Bool.false_eq_true, if_false, Option.ite_none_right_eq_some, Option.some.injEq]
      omega

/-- Only integers are read as integers. -/
theorem exists_text_eq_of_readInt64? {text : String} {value : Int}
    (h : readInt64? text = some value) : ∃ n : WrittenInteger, n.text = text := by
  obtain ⟨sign, hcs, -⟩ := exists_sign_eq text.toList
  rw [readInt64?] at h
  generalize takeSign text.toList = taken at hcs h
  dsimp only at h
  split at h
  next => cases h
  next hcondition =>
    simp only [Bool.or_eq_true, Bool.not_eq_true', not_or, Bool.not_eq_true, Bool.not_eq_false,
      List.isEmpty_eq_false_iff, List.all_eq_true] at hcondition
    obtain ⟨digits, hmap⟩ := exists_digits_eq hcondition.2
    have hne : digits ≠ [] := by
      rintro rfl
      exact hcondition.1 hmap.symm
    refine ⟨⟨sign, digits, hne⟩, ?_⟩
    rw [WrittenInteger.text, WrittenInteger.digitTexts, hmap, ← hcs, String.ofList_toList]

/-! ## Reading doubles -/

namespace Double

/-- A written integer is read as the double next to it. -/
theorem read?_text (n : WrittenInteger) :
    read? n.text = some (ofDecimal n.sign.isNegative n.size 0) := by
  have hread := read?_number n.sign ⟨n.digitTexts_ne_nil, n.isDigit_digitTexts⟩ .none
    readsScale_nil
  rwa [List.append_nil, List.append_nil, n.digitsValue_digitTexts] at hread

end Double

end StoredProc
