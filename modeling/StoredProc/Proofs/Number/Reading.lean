import StoredProc.Json.Range
import StoredProc.Proofs.Json.Numerals
import StoredProc.Proofs.Number.Rounding

/-! # Reading written numbers

A written number is read as the double next to the decimal that its digits and its
exponent spell.
-/

namespace StoredProc

open Text (IsNumeral)
open Json (Digits)

/-! ## Digits -/

theorem digitsValue_append (digits rest : List Char) :
    digitsValue (digits ++ rest) = digitsValue digits * 10 ^ rest.length + digitsValue rest := by
  rw [Text.digitsValue_eq_ofDigits, Text.digitsValue_eq_ofDigits, Text.digitsValue_eq_ofDigits,
    List.reverse_append, List.map_append, Nat.ofDigits_append, List.length_map, List.length_reverse]
  ring

theorem digitsValue_toDigits (n : Nat) : digitsValue (Nat.toDigits 10 n) = n := by
  have hvalue : Nat.ofDigitChars 10 (Nat.toDigits 10 n) 0 = n :=
    Nat.ofDigitChars_toDigits (by decide) (by decide)
  rw [Nat.ofDigitChars] at hvalue
  rw [digitsValue]
  simpa only [Nat.mul_comm] using hvalue

theorem digitsValue_replicate (count : Nat) : digitsValue (List.replicate count '0') = 0 := by
  induction count with
  | zero => rfl
  | succ count ih =>
      rw [List.replicate_succ', digitsValue_append, ih]
      rfl

theorem isDigit_toDigits (n : Nat) : ∀ c ∈ Nat.toDigits 10 n, c.isDigit = true :=
  fun _ hc => Nat.isDigit_of_mem_toDigits (by decide) (by decide) hc

/-- Only zero has a zero in front. -/
theorem isNumeral_toDigits (n : Nat) : IsNumeral (Nat.toDigits 10 n) := by
  refine ⟨Nat.toDigits_ne_nil, isDigit_toDigits n, ?_⟩
  induction n using Nat.strong_induction_on with
  | _ n ih =>
      by_cases hlt : n < 10
      · rw [Nat.toDigits_of_lt_base hlt]
        intro hhead
        simpa using hhead
      · intro hhead
        rw [Nat.toDigits_of_base_le (by decide) (by omega),
          List.head?_append_of_ne_nil _ Nat.toDigits_ne_nil] at hhead
        have hzero := digitsValue_toDigits (n / 10)
        rw [ih (n / 10) (by omega) hhead] at hzero
        have hvalue : digitsValue ['0'] = 0 := rfl
        omega

/-! ## Signs -/

/-- The signs in front of a number. -/
inductive Sign where
  | absent
  | plus
  | minus
  deriving DecidableEq, Inhabited, Repr

namespace Sign

def text : Sign → List Char
  | absent => []
  | plus => ['+']
  | minus => ['-']

def isNegative : Sign → Bool
  | minus => true
  | absent | plus => false

/-- The sign that is written in front of a number. -/
def ofNegative (negative : Bool) : Sign := if negative then minus else absent

theorem isNegative_ofNegative (negative : Bool) : (ofNegative negative).isNegative = negative := by
  cases negative <;> rfl

end Sign

/-- A sign is taken from in front of a digit. -/
theorem takeSign_text (sign : Sign) {first : Char} (h : first.isDigit = true) (rest : List Char) :
    takeSign (sign.text ++ first :: rest) = (sign.isNegative, first :: rest) := by
  cases sign with
  | plus | minus => rfl
  | absent =>
      have hminus : first ≠ '-' := by
        rintro rfl
        cases h
      have hplus : first ≠ '+' := by
        rintro rfl
        cases h
      rw [Sign.text, List.nil_append, takeSign]
      · rfl
      · intro tail heq
        exact hminus (List.cons.inj heq).1
      · intro tail heq
        exact hplus (List.cons.inj heq).1

/-! ## Reading the parts of a number -/

namespace Double

theorem toLower_of_isDigit {c : Char} (h : c.isDigit = true) : c.toLower = c := by
  have hrange := Text.isDigit_iff.mp h
  have hupper : ¬('A'.val ≤ c.val ∧ c.val ≤ 'Z'.val) := by
    rintro ⟨hupper, -⟩
    have hupper : 'A'.toNat ≤ c.toNat := hupper
    have hletter : 'A'.toNat = 65 := rfl
    omega
  exact dif_neg hupper

theorem digitValue?_of_isDigit {c : Char} (h : c.isDigit = true) :
    digitValue? false c = some (Text.digit c) := by
  simp only [digitValue?, toLower_of_isDigit h, h, if_true]
  rfl

/-- A mantissa with more digits behind it. -/
def Mantissa.push (m : Mantissa) (digits : List Char) : Mantissa where
  value := m.value * 10 ^ digits.length + digitsValue digits
  count := m.count + digits.length
  places := m.places.map (· + digits.length)

/-- Digits are pushed onto the mantissa one by one. -/
theorem readMantissa_append {digits : List Char} (hdigits : ∀ c ∈ digits, c.isDigit = true)
    (m : Mantissa) (rest : List Char) :
    readMantissa false m (digits ++ rest) = readMantissa false (m.push digits) rest := by
  induction digits generalizing m with
  | nil =>
      obtain ⟨value, count, places⟩ := m
      simp [Mantissa.push, digitsValue]
  | cons c digits ih =>
      have hc := hdigits c List.mem_cons_self
      have hrange := Text.isDigit_iff.mp hc
      have hunderscore : c ≠ '_' := by
        rintro rfl
        cases hc
      have hpoint : c ≠ '.' := by
        rintro rfl
        cases hc
      rw [List.cons_append, readMantissa, if_neg hunderscore, if_neg (by simp [hpoint]),
        digitValue?_of_isDigit hc]
      dsimp only
      rw [ih fun d hd => hdigits d (List.mem_cons_of_mem c hd)]
      congr 1
      have hvalue : digitsValue (c :: digits) =
          Text.digit c * 10 ^ digits.length + digitsValue digits := by
        rw [← List.singleton_append, digitsValue_append]
        simp [digitsValue, Text.digit]
      simp only [Mantissa.push, hvalue, List.length_cons, Mantissa.mk.injEq, Option.map_map]
      refine ⟨?_, by omega, ?_⟩
      · rw [if_neg (by simp)]
        ring
      · congr 1
        funext places
        simp only [Function.comp_apply]
        omega

theorem readMantissa_point (m : Mantissa) (h : m.places = none) (rest : List Char) :
    readMantissa false m ('.' :: rest) = readMantissa false { m with places := some 0 } rest := by
  rw [readMantissa, if_neg (by decide), if_pos ⟨rfl, h⟩]

/-- What the text of a fraction adds to the digits in front of it. -/
inductive FractionOf : List Char → List Char → Prop
  | none : FractionOf [] []
  | some {digits : List Char} (h : Digits digits) : FractionOf ('.' :: digits) digits

/-- The exponent that a text of one gives. -/
inductive ScaleOf : List Char → Int → Prop
  | none : ScaleOf [] 0
  | up {digits : List Char} (h : Digits digits) (hlt : digitsValue digits < 10000) :
      ScaleOf ('e' :: '+' :: digits) (digitsValue digits)
  | down {digits : List Char} (h : Digits digits) (hlt : digitsValue digits < 10000) :
      ScaleOf ('e' :: '-' :: digits) (-(digitsValue digits : Int))

/-- The digits in front of an exponent, with a point among them or not. -/
theorem readMantissa_number {integer fraction exponent digits : List Char}
    (hinteger : ∀ c ∈ integer, c.isDigit = true) (hfraction : FractionOf fraction digits)
    (hexponent : ∀ m, readMantissa false m exponent = (m, exponent)) :
    ∃ m : Mantissa, readMantissa false {} (integer ++ fraction ++ exponent) = (m, exponent) ∧
      m.value = digitsValue (integer ++ digits) ∧ m.count = integer.length + digits.length ∧
      m.places.getD 0 = digits.length := by
  rw [List.append_assoc, readMantissa_append hinteger]
  cases hfraction with
  | none =>
      rw [List.nil_append, hexponent]
      exact ⟨_, rfl, by simp [Mantissa.push], by simp [Mantissa.push], rfl⟩
  | some h =>
      rw [List.cons_append, readMantissa_point _ rfl, readMantissa_append h.isDigit, hexponent]
      refine ⟨_, rfl, ?_, ?_, ?_⟩
      · rw [digitsValue_append]
        simp [Mantissa.push]
      · simp [Mantissa.push]
      · simp [Mantissa.push]

theorem le_foldl_digits (digits : List Char) (n : Nat) :
    n ≤ digits.foldl (fun n d => n * 10 + (d.toNat - '0'.toNat)) n := by
  induction digits generalizing n with
  | nil => exact le_refl n
  | cons d digits ih =>
      rw [List.foldl_cons]
      exact le_trans (by omega) (ih (n * 10 + (d.toNat - '0'.toNat)))

theorem foldl_capped {limit n : Nat} {digits : List Char}
    (h : digits.foldl (fun n d => n * 10 + (d.toNat - '0'.toNat)) n < limit) :
    digits.foldl (fun n d => if n < limit then n * 10 + (d.toNat - '0'.toNat) else n) n =
      digits.foldl (fun n d => n * 10 + (d.toNat - '0'.toNat)) n := by
  induction digits generalizing n with
  | nil => rfl
  | cons d digits ih =>
      have hle := le_foldl_digits (d :: digits) n
      rw [List.foldl_cons, List.foldl_cons, if_pos (by omega)]
      exact ih h

theorem isNumberChar_of_isDigit {c : Char} (h : c.isDigit = true) : isNumberChar c = true := by
  simp [isNumberChar, h]

/-- A number character is neither the mark of a base nor a divider. -/
theorem toLower_ne_of_isNumberChar {c : Char} (h : isNumberChar c = true) :
    c.toLower ≠ 'x' ∧ c ≠ '_' := by
  simp only [isNumberChar, Bool.or_eq_true, decide_eq_true_eq] at h
  obtain ((((hdigit | rfl) | rfl) | rfl) | rfl) | rfl := h
  · rw [toLower_of_isDigit hdigit]
    constructor <;> rintro rfl <;> cases hdigit
  all_goals decide

/-- Behind its sign an exponent is read up to its last digit. -/
theorem readExponent_text (sign : Sign) {digits : List Char} (h : Digits digits) :
    readExponent (sign.text ++ digits) =
      some (if sign.isNegative then
          -((digits.foldl (fun n d => if n < 10000 then n * 10 + (d.toNat - '0'.toNat) else n)
            0 : Nat) : Int)
        else (digits.foldl (fun n d => if n < 10000 then n * 10 + (d.toNat - '0'.toNat) else n)
          0 : Nat), []) := by
  have hspan : digits.span (fun c => c.isDigit || c = '_') = (digits, []) := by
    rw [List.span_eq_takeWhile_dropWhile, List.takeWhile_eq_self_iff.mpr,
      List.dropWhile_eq_nil_iff.mpr]
    · exact fun c hc => by simp [h.isDigit c hc]
    · exact fun c hc => by simp [h.isDigit c hc]
  have hfilter : digits.filter Char.isDigit = digits := List.filter_eq_self.mpr h.isDigit
  obtain ⟨first, rest, rfl⟩ := List.exists_cons_of_ne_nil h.ne_nil
  have hfirst := h.isDigit first List.mem_cons_self
  rw [readExponent, takeSign_text sign hfirst]
  simp only [hfirst, Bool.not_true, Bool.false_eq_true, if_false, hspan, hfilter]

/-- Exponents of up to four digits are read in full. -/
theorem readExponent_digits (sign : Sign) {digits : List Char} (h : Digits digits)
    (hlt : digitsValue digits < 10000) :
    readExponent (sign.text ++ digits) =
      some (if sign.isNegative then -(digitsValue digits : Int) else digitsValue digits, []) := by
  rw [readExponent_text sign h, foldl_capped (n := 0) hlt]
  rfl

/-- A text that is read as an exponent, and as no part of the digits in front of it. -/
structure ReadsScale (text : List Char) (scale : Int) : Prop where
  stops : ∀ m, readMantissa false m text = (m, text)
  takes : takeExponent false text = some (scale, [])
  chars : ∀ c ∈ text, isNumberChar c = true

theorem readsScale_nil : ReadsScale [] 0 := ⟨fun _ => rfl, rfl, by simp⟩

/-- The mark of an exponent ends the digits in front of it. -/
theorem readsScale_cons {mark : Char} (hmark : mark = 'e' ∨ mark = 'E') (sign : Sign)
    {digits : List Char} (h : Digits digits) {scale : Int}
    (hread : readExponent (sign.text ++ digits) = some (scale, [])) :
    ReadsScale (mark :: (sign.text ++ digits)) scale where
  stops m := by
    obtain rfl | rfl := hmark <;>
      rw [readMantissa, if_neg (by decide), if_neg (by simp)] <;> rfl
  takes := by
    obtain rfl | rfl := hmark <;> exact hread
  chars := by
    refine List.forall_mem_cons.mpr ⟨?_, List.forall_mem_append.mpr ⟨?_, ?_⟩⟩
    · obtain rfl | rfl := hmark <;> rfl
    · cases sign <;> simp [Sign.text, isNumberChar]
    · exact fun c hc => isNumberChar_of_isDigit (h.isDigit c hc)

/-- An exponent of up to four digits is read as what it is. -/
theorem ScaleOf.reads {text : List Char} {scale : Int} (h : ScaleOf text scale) :
    ReadsScale text scale := by
  cases h with
  | none => exact readsScale_nil
  | up h hlt => exact readsScale_cons (.inl rfl) .plus h (readExponent_digits .plus h hlt)
  | down h hlt => exact readsScale_cons (.inl rfl) .minus h (readExponent_digits .minus h hlt)

def signText (negative : Bool) : List Char := if negative then ['-'] else []

theorem signText_eq (negative : Bool) : signText negative = (Sign.ofNegative negative).text := by
  cases negative <;> rfl

/-- The texts of a number: a sign, an integer, a fraction and an exponent. -/
inductive Spells (negative : Bool) : Decimal → List Char → Prop
  | mk {integer fraction exponent digits : List Char} {scale : Int} (hinteger : IsNumeral integer)
      (hfraction : FractionOf fraction digits) (hexponent : ScaleOf exponent scale) :
      Spells negative ⟨digitsValue (integer ++ digits), scale - digits.length⟩
        (signText negative ++ (integer ++ fraction ++ exponent))

/-- Behind the sign there are number characters alone. -/
theorem isNumberChar_body {integer fraction exponent digits : List Char} {scale : Int}
    (hinteger : ∀ c ∈ integer, c.isDigit = true) (hfraction : FractionOf fraction digits)
    (hexponent : ReadsScale exponent scale) :
    ∀ c ∈ integer ++ fraction ++ exponent, isNumberChar c = true := by
  simp only [List.forall_mem_append]
  refine ⟨⟨fun c hc => isNumberChar_of_isDigit (hinteger c hc), ?_⟩, hexponent.chars⟩
  cases hfraction with
  | none => simp
  | some h =>
      exact List.forall_mem_cons.mpr ⟨rfl, fun c hc => isNumberChar_of_isDigit (h.isDigit c hc)⟩

/-- No text of a number is the name of an infinity, or of no number. -/
theorem special?_text (sign : Sign) {first : Char} (h : first.isDigit = true)
    (rest : List Char) : special? (sign.text ++ first :: rest) = none := by
  have hname : ∀ name : String, (∀ c ∈ name.toList.head?, c.isDigit = false) →
      decide (String.ofList ((first :: rest).map Char.toLower) = name) = false := by
    intro name hhead
    rw [decide_eq_false_iff_not]
    rintro rfl
    have hfirst := hhead first
    simp [toLower_of_isDigit h, h] at hfirst
  have hinfinity := hname "inf" (by simp)
  have hinfinity' := hname "infinity" (by simp)
  have hnan := of_decide_eq_false (hname "nan" (by simp))
  cases sign with
  | plus | minus =>
      rw [Sign.text, List.singleton_append, special?]
      simp only [hinfinity, hinfinity', Bool.or_self, Bool.false_eq_true, if_false]
  | absent =>
      rw [Sign.text, List.nil_append, special?]
      · simp only [hinfinity, hinfinity', Bool.or_self, Bool.false_eq_true, if_false, if_neg hnan]
      · rintro tail heq
        rw [(List.cons.inj heq).1] at h
        cases h
      · rintro tail heq
        rw [(List.cons.inj heq).1] at h
        cases h

theorem takeBase_eq {body : List Char} (h : ∀ c ∈ body, isNumberChar c = true) :
    takeBase body = (false, body) := by
  unfold takeBase
  split
  next x rest =>
    have hx := (toLower_ne_of_isNumberChar (h x (by simp))).1
    rw [if_neg (by simp [hx])]
  next => rfl

/-- A number is read as the double next to the decimal that its parts give. -/
theorem read?_number (sign : Sign) {integer fraction exponent digits : List Char} {scale : Int}
    (hinteger : Digits integer) (hfraction : FractionOf fraction digits)
    (hexponent : ReadsScale exponent scale) :
    read? (String.ofList (sign.text ++ (integer ++ fraction ++ exponent))) =
      some (ofDecimal sign.isNegative (digitsValue (integer ++ digits))
        (scale - digits.length)) := by
  obtain ⟨m, hm, hvalue, hcount, hplaces⟩ :=
    readMantissa_number hinteger.isDigit hfraction hexponent.stops
  have hchars := isNumberChar_body hinteger.isDigit hfraction hexponent
  obtain ⟨first, tail, rfl⟩ := List.exists_cons_of_ne_nil hinteger.ne_nil
  have hfirst := hinteger.isDigit first List.mem_cons_self
  have hunderscore : (sign.text ++ (first :: tail ++ fraction ++ exponent)).contains '_' =
      false := by
    rw [List.contains_eq_mem, decide_eq_false_iff_not, List.mem_append, not_or]
    exact ⟨by cases sign <;> decide,
      fun hmem => (toLower_ne_of_isNumberChar (hchars '_' hmem)).2 rfl⟩
  have hcount' : m.count ≠ 0 := by
    rw [hcount, List.length_cons]
    omega
  rw [Double.read?, String.toList_ofList, List.cons_append, List.cons_append,
    special?_text sign hfirst]
  dsimp only
  rw [number?, takeSign_text sign hfirst]
  dsimp only
  rw [List.cons_append, List.cons_append] at hm hchars hunderscore
  rw [takeBase_eq hchars]
  dsimp only
  rw [hm]
  dsimp only
  rw [hexponent.takes, hunderscore, hvalue, hplaces]
  simp only [ne_eq, hcount', not_false_eq_true, guard_true, Option.pure_def, Option.bind_eq_bind,
    Option.bind_some, List.isEmpty_nil, Bool.not_false, Bool.true_or, Bool.false_eq_true, if_false,
    List.cons_append]

/-- A number is read as the double next to its decimal. -/
theorem Spells.read? {negative : Bool} {d : Decimal} {text : List Char}
    (h : Spells negative d text) :
    Double.read? (String.ofList text) = some (ofDecimal negative d.digits d.exponent) := by
  obtain @⟨integer, fraction, exponent, digits, scale, hinteger, hfraction, hexponent⟩ := h
  have hread := read?_number (Sign.ofNegative negative) ⟨hinteger.ne_nil, hinteger.isDigit⟩
    hfraction hexponent.reads
  rwa [← signText_eq, Sign.isNegative_ofNegative] at hread

/-- The spelling of a decimal is a number of the grammar. -/
theorem Spells.isNumber {negative : Bool} {d : Decimal} {text : List Char}
    (h : Spells negative d text) : Json.IsNumber text := by
  obtain @⟨integer, fraction, exponent, digits, scale, hinteger, hfraction, hexponent⟩ := h
  have hsign : signText negative = [] ∨ signText negative = ['-'] := by
    cases negative with
    | false => exact .inl rfl
    | true => exact .inr rfl
  have hfraction' : fraction = [] ∨ ∃ digits, Digits digits ∧ fraction = '.' :: digits := by
    cases hfraction with
    | none => exact .inl rfl
    | some h => exact .inr ⟨digits, h, rfl⟩
  have hexponent' : exponent = [] ∨ Json.IsExponent exponent := by
    cases hexponent with
    | none => exact .inl rfl
    | up h => exact .inr (.signed (.inl rfl) (.inl rfl) h)
    | down h => exact .inr (.signed (.inl rfl) (.inr rfl) h)
  rw [← List.append_assoc, ← List.append_assoc]
  exact .mk hsign hinteger hfraction' hexponent'

/-- The parts of a number of a document, each as it is read. -/
theorem exists_parts_of_isNumber {text : List Char} (h : Json.IsNumber text) :
    ∃ (sign : Sign) (integer fraction exponent digits : List Char) (scale : Int),
      text = sign.text ++ (integer ++ fraction ++ exponent) ∧ Digits integer ∧
        FractionOf fraction digits ∧ ReadsScale exponent scale := by
  obtain @⟨sign, integer, fraction, exponent, hsign, hinteger, hfraction, hexponent⟩ := h
  obtain ⟨digits, hfraction⟩ : ∃ digits, FractionOf fraction digits := by
    rcases hfraction with rfl | ⟨digits, hdigits, rfl⟩
    · exact ⟨[], .none⟩
    · exact ⟨digits, .some hdigits⟩
  obtain ⟨scale, hscale⟩ : ∃ scale, ReadsScale exponent scale := by
    rcases hexponent with rfl | hexponent
    · exact ⟨0, readsScale_nil⟩
    · cases hexponent with
      | plain hmark hdigits =>
          exact ⟨_, readsScale_cons hmark .absent hdigits (readExponent_text .absent hdigits)⟩
      | signed hmark hsign hdigits =>
          rcases hsign with rfl | rfl
          · exact ⟨_, readsScale_cons hmark .plus hdigits (readExponent_text .plus hdigits)⟩
          · exact ⟨_, readsScale_cons hmark .minus hdigits (readExponent_text .minus hdigits)⟩
  obtain ⟨sign, rfl⟩ : ∃ s : Sign, s.text = sign := by
    rcases hsign with rfl | rfl
    · exact ⟨.absent, rfl⟩
    · exact ⟨.minus, rfl⟩
  refine ⟨sign, integer, fraction, exponent, digits, scale, ?_,
    ⟨hinteger.ne_nil, hinteger.isDigit⟩, hfraction, hscale⟩
  simp only [List.append_assoc]

/-- Every number of a document is read as a double, finite or not. -/
theorem exists_read?_of_isNumber {text : List Char} (h : Json.IsNumber text) :
    ∃ value, Double.read? (String.ofList text) = some value := by
  obtain ⟨sign, _, _, _, _, _, rfl, hinteger, hfraction, hscale⟩ := exists_parts_of_isNumber h
  exact ⟨_, read?_number sign hinteger hfraction hscale⟩

/-- A number of a document is written with number characters alone. -/
theorem isNumberChar_of_isNumber {text : List Char} (h : Json.IsNumber text) :
    ∀ c ∈ text, isNumberChar c = true := by
  obtain ⟨sign, _, _, _, _, _, rfl, hinteger, hfraction, hscale⟩ := exists_parts_of_isNumber h
  refine List.forall_mem_append.mpr ⟨?_, isNumberChar_body hinteger.isDigit hfraction hscale⟩
  cases sign <;> simp [Sign.text, isNumberChar]

/-- A number under the overflow is in range. -/
theorem Spells.inRange {negative : Bool} {d : Decimal} {text : List Char}
    (h : Spells negative d text) (hlt : d.value < overflow) :
    Json.numberInRange (String.ofList text) = true := by
  rw [Json.numberInRange, h.read?]
  exact Decimal.ofDecimal_isFinite negative hlt

end Double

end StoredProc
