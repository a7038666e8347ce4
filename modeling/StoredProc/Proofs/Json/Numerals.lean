import StoredProc.Json.Parser
import StoredProc.Proofs.Text.NaturalOrder

/-! # Written numbers

The grammar of numbers, and that the scan of a number takes exactly a number of the
grammar when nothing behind it could belong to it.
-/

namespace StoredProc.Json

open Text (IsNumeral)

/-- One digit at least, and nothing else. -/
structure Digits (digits : List Char) : Prop where
  ne_nil : digits ≠ []
  isDigit : ∀ c ∈ digits, c.isDigit = true

/-- An exponent after its mark: an optional sign and digits. -/
inductive IsExponent : List Char → Prop
  | plain {mark : Char} {digits : List Char} (hmark : mark = 'e' ∨ mark = 'E')
      (hdigits : Digits digits) : IsExponent (mark :: digits)
  | signed {mark sign : Char} {digits : List Char} (hmark : mark = 'e' ∨ mark = 'E')
      (hsign : sign = '+' ∨ sign = '-') (hdigits : Digits digits) :
      IsExponent (mark :: sign :: digits)

/-- A number: a sign, an integer without needless zeros, a fraction and an exponent. -/
inductive IsNumber : List Char → Prop
  | mk {sign integer fraction exponent : List Char} (hsign : sign = [] ∨ sign = ['-'])
      (hinteger : IsNumeral integer)
      (hfraction : fraction = [] ∨ ∃ digits, Digits digits ∧ fraction = '.' :: digits)
      (hexponent : exponent = [] ∨ IsExponent exponent) :
      IsNumber (sign ++ integer ++ fraction ++ exponent)

/-- Nothing at the front could be part of a number. -/
def Stops (rest : List Char) : Prop :=
  ∀ c ∈ rest.head?, c.isDigit = false ∧ c ≠ '.' ∧ c ≠ 'e' ∧ c ≠ 'E'

theorem stops_nil : Stops [] := by
  intro c hc
  cases hc

theorem Stops.isDigit {rest : List Char} (h : Stops rest) : ∀ c ∈ rest.head?, c.isDigit = false :=
  fun c hc => (h c hc).1

theorem stops_cons {c : Char} (h : c.isDigit = false ∧ c ≠ '.' ∧ c ≠ 'e' ∧ c ≠ 'E')
    (rest : List Char) : Stops (c :: rest) := by
  intro d hd
  cases hd
  exact h

theorem IsExponent.exists_cons {exponent : List Char} (h : IsExponent exponent) :
    ∃ mark tail, exponent = mark :: tail ∧ (mark = 'e' ∨ mark = 'E') := by
  cases h with
  | @plain mark digits hmark _ => exact ⟨mark, digits, rfl, hmark⟩
  | @signed mark sign digits hmark _ _ => exact ⟨mark, sign :: digits, rfl, hmark⟩

/-! ## Scanning the parts -/

theorem scanDigits_append {digits rest : List Char} (hdigits : ∀ c ∈ digits, c.isDigit = true)
    (hrest : ∀ c ∈ rest.head?, c.isDigit = false) :
    scanDigits (digits ++ rest) = (digits, rest) :=
  Text.span_append hdigits hrest

theorem digits_of_scanDigits {cs digits rest : List Char} (h : scanDigits cs = (digits, rest)) :
    ∀ c ∈ digits, c.isDigit = true := by
  rw [scanDigits, List.span_eq_takeWhile_dropWhile, Prod.mk.injEq] at h
  rw [← h.1]
  exact fun c hc => List.mem_takeWhile_imp hc

/-- An integer in front of anything but a digit is taken as a whole. -/
theorem scanInteger_append {integer rest : List Char} (hinteger : IsNumeral integer)
    (hrest : ∀ c ∈ rest.head?, c.isDigit = false) :
    scanInteger (integer ++ rest) = some (integer, rest) := by
  by_cases hzero : integer.head? = some '0'
  · rw [hinteger.no_leading_zero hzero]
    rfl
  · obtain ⟨c, tail, rfl⟩ := List.exists_cons_of_ne_nil hinteger.ne_nil
    have hc : c ≠ '0' := fun h => hzero (by rw [h]; rfl)
    have hscan := scanDigits_append hinteger.isDigit hrest
    rw [List.cons_append] at hscan ⊢
    rw [scanInteger, hscan]
    exact fun _ h => hc (List.cons.inj h).1

/-- The scan of an integer takes no needless zeros. -/
theorem isNumeral_of_scanInteger {cs integer rest : List Char}
    (h : scanInteger cs = some (integer, rest)) : IsNumeral integer := by
  unfold scanInteger at h
  split at h
  · cases h
    exact ⟨by decide, List.forall_mem_singleton.mpr rfl, fun _ => rfl⟩
  · next hzero =>
      split at h
      · cases h
      · next found hne =>
          have hscan : scanDigits cs = (integer, rest) := Option.some.inj h
          refine ⟨fun hnil => hne rest (by rw [hscan, hnil]), digits_of_scanDigits hscan, ?_⟩
          intro hhead
          -- The digits are taken from the front, and no zero stands there.
          rw [scanDigits, List.span_eq_takeWhile_dropWhile, Prod.mk.injEq] at hscan
          rw [← hscan.1] at hhead
          cases cs with
          | nil => cases hhead
          | cons c tail =>
              by_cases hc : c.isDigit = true
              · rw [List.takeWhile_cons_of_pos hc] at hhead
                cases hhead
                exact absurd rfl (hzero tail)
              · rw [List.takeWhile_cons_of_neg hc] at hhead
                cases hhead

theorem scanFraction_append {digits rest : List Char} (hdigits : Digits digits)
    (hrest : ∀ c ∈ rest.head?, c.isDigit = false) :
    scanFraction ('.' :: digits ++ rest) = some ('.' :: digits, rest) := by
  obtain ⟨c, tail, rfl⟩ := List.exists_cons_of_ne_nil hdigits.ne_nil
  rw [List.cons_append, scanFraction, scanDigits_append hdigits.isDigit hrest]

theorem scanFraction_nil {rest : List Char} (hrest : ∀ c ∈ rest.head?, c ≠ '.') :
    scanFraction rest = some ([], rest) := by
  unfold scanFraction
  split
  · exact absurd rfl (hrest '.' rfl)
  · rfl

/-- The scan of a fraction takes a point with digits, or nothing. -/
theorem fraction_of_scanFraction {cs fraction rest : List Char}
    (h : scanFraction cs = some (fraction, rest)) :
    fraction = [] ∨ ∃ digits, Digits digits ∧ fraction = '.' :: digits := by
  unfold scanFraction at h
  split at h
  · next tail =>
      split at h
      · cases h
      · next digits after hne hscan =>
          cases h
          exact .inr ⟨digits, ⟨hne, digits_of_scanDigits hscan⟩, rfl⟩
  · cases h
    exact .inl rfl

/-- An exponent in front of anything but a digit is taken as a whole. -/
theorem scanExponent_append {exponent rest : List Char} (hexponent : IsExponent exponent)
    (hrest : ∀ c ∈ rest.head?, c.isDigit = false) :
    scanExponent (exponent ++ rest) = some (exponent, rest) := by
  cases hexponent with
  | @plain mark digits hmark hdigits =>
      obtain ⟨c, tail, rfl⟩ := List.exists_cons_of_ne_nil hdigits.ne_nil
      have hc := hdigits.isDigit c List.mem_cons_self
      have hplus : c ≠ '+' := by
        rintro rfl
        cases hc
      have hminus : c ≠ '-' := by
        rintro rfl
        cases hc
      have hscan := scanDigits_append hdigits.isDigit hrest
      simp only [List.cons_append] at hscan ⊢
      simp [scanExponent, hmark, hplus, hminus, hscan]
  | @signed mark sign digits hmark hsign hdigits =>
      obtain ⟨c, tail, rfl⟩ := List.exists_cons_of_ne_nil hdigits.ne_nil
      have hscan := scanDigits_append hdigits.isDigit hrest
      simp only [List.cons_append] at hscan ⊢
      rcases hsign with rfl | rfl <;> simp [scanExponent, hmark, hscan]

theorem scanExponent_nil {rest : List Char} (hrest : Stops rest) :
    scanExponent rest = some ([], rest) := by
  cases rest with
  | nil => rfl
  | cons c tail =>
      obtain ⟨_, _, he, hE⟩ := hrest c rfl
      simp [scanExponent, he, hE]

/-- The scan of an exponent takes one of the grammar, or nothing. -/
theorem exponent_of_scanExponent {cs exponent rest : List Char}
    (h : scanExponent cs = some (exponent, rest)) : exponent = [] ∨ IsExponent exponent := by
  unfold scanExponent at h
  split at h
  · next mark tail =>
      split at h
      · next hmark =>
          have hmark' : mark = 'e' ∨ mark = 'E' := by simpa using hmark
          dsimp only at h
          split at h
          · cases h
          · next digits after hne hscan =>
              cases h
              have hdigits : Digits digits := ⟨hne, digits_of_scanDigits hscan⟩
              right
              split
              · exact .signed hmark' (.inl rfl) hdigits
              · exact .signed hmark' (.inr rfl) hdigits
              · exact .plain hmark' hdigits
      · cases h
        exact .inl rfl
  · cases h
    exact .inl rfl

/-! ## Scanning a number -/

/-- The scan takes a number from the front of a text that does not go on with one. -/
theorem IsNumber.scan {text rest : List Char} (h : IsNumber text) (hrest : Stops rest) :
    scanNumber (text ++ rest) = some (text, rest) := by
  obtain @⟨sign, integer, fraction, exponent, hsign, hinteger, hfraction, hexponent⟩ := h
  have hscanExponent : scanExponent (exponent ++ rest) = some (exponent, rest) := by
    rcases hexponent with rfl | hexponent
    · exact scanExponent_nil hrest
    · exact scanExponent_append hexponent hrest.isDigit
  have hafterFraction : ∀ c ∈ (exponent ++ rest).head?, c.isDigit = false ∧ c ≠ '.' := by
    intro c hc
    rcases hexponent with rfl | hexponent
    · exact ⟨(hrest c hc).1, (hrest c hc).2.1⟩
    · obtain ⟨mark, tail, rfl, hmark⟩ := hexponent.exists_cons
      cases hc
      rcases hmark with rfl | rfl <;> decide
  have hscanFraction : scanFraction (fraction ++ (exponent ++ rest)) =
      some (fraction, exponent ++ rest) := by
    rcases hfraction with rfl | ⟨digits, hdigits, rfl⟩
    · exact scanFraction_nil fun c hc => (hafterFraction c hc).2
    · exact scanFraction_append hdigits fun c hc => (hafterFraction c hc).1
  have hafterInteger : ∀ c ∈ (fraction ++ (exponent ++ rest)).head?, c.isDigit = false := by
    intro c hc
    rcases hfraction with rfl | ⟨digits, _, rfl⟩
    · exact (hafterFraction c hc).1
    · cases hc
      rfl
  have hscanInteger := scanInteger_append hinteger hafterInteger
  have hfront : ∀ c ∈ integer.head?, c ≠ '-' := by
    rintro c hc rfl
    cases hinteger.isDigit '-' (List.mem_of_mem_head? hc)
  rcases hsign with rfl | rfl
  · obtain ⟨c, tail, rfl⟩ := List.exists_cons_of_ne_nil hinteger.ne_nil
    have hc : c ≠ '-' := hfront c rfl
    simp only [List.cons_append, List.nil_append, List.append_assoc] at hscanInteger ⊢
    simp [scanNumber, hc, hscanInteger, hscanFraction, hscanExponent]
  · simp only [List.cons_append, List.nil_append, List.append_assoc]
    simp [scanNumber, hscanInteger, hscanFraction, hscanExponent]

/-- What the scan takes is a number. -/
theorem isNumber_of_scanNumber {cs text rest : List Char}
    (h : scanNumber cs = some (text, rest)) : IsNumber text := by
  unfold scanNumber at h
  simp only [Option.bind_eq_bind, Option.pure_def, Option.bind_eq_some_iff, Option.some.injEq,
    Prod.mk.injEq] at h
  obtain ⟨⟨integer, afterInteger⟩, hinteger, ⟨fraction, afterFraction⟩, hfraction,
    ⟨exponent, afterExponent⟩, hexponent, rfl, _⟩ := h
  refine .mk ?_ (isNumeral_of_scanInteger hinteger) (fraction_of_scanFraction hfraction)
    (exponent_of_scanExponent hexponent)
  split
  · exact .inr rfl
  · exact .inl rfl

/-- A number starts with its sign or with a digit. -/
theorem IsNumber.exists_cons {text : List Char} (h : IsNumber text) :
    ∃ c tail, text = c :: tail ∧ (c = '-' ∨ c.isDigit = true) := by
  obtain @⟨sign, integer, fraction, exponent, hsign, hinteger, -, -⟩ := h
  obtain ⟨c, tail, rfl⟩ := List.exists_cons_of_ne_nil hinteger.ne_nil
  rcases hsign with rfl | rfl
  · exact ⟨c, _, rfl, .inr (hinteger.isDigit c List.mem_cons_self)⟩
  · exact ⟨'-', _, rfl, .inl rfl⟩

end StoredProc.Json
