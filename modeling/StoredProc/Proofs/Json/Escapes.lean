import Mathlib.Data.List.Basic
import StoredProc.Json.Parser

/-! # Written strings

A string that the program writes is read back: the scan for the closing quote stops
where the written string ends, and undoing the escapes gives the string. Spelling the
characters of HTML by their code points leaves such a string as it is.
-/

namespace StoredProc.Json

/-- A text that may stand between quotes: whatever follows, the scan stops at its end. -/
def Written (written : List Char) : Prop :=
  ∀ rest, scanString (written ++ '"' :: rest) = some (written, rest)

/-- A character that stands for itself between quotes. -/
def isPlain (c : Char) : Bool := c ≠ '"' && c ≠ '\\' && c.toNat ≠ 0

/-- A character that a document spells by its code point. -/
def isMarkup (c : Char) : Bool :=
  c = '<' || c = '>' || c = '&' || c.toNat = 0x2028 || c.toNat = 0x2029

/-! ## Hexadecimal digits -/

theorem hexDigits_four (n : Nat) : Text.hexDigits 4 n =
    [Nat.digitChar (n / 16 / 16 / 16 % 16), Nat.digitChar (n / 16 / 16 % 16),
      Nat.digitChar (n / 16 % 16), Nat.digitChar (n % 16)] := rfl

theorem hexDigit_cases : ∀ digit < 16, hexValue? (Nat.digitChar digit) = some digit ∧
    isPlain (Nat.digitChar digit) = true ∧ isMarkup (Nat.digitChar digit) = false := by
  decide

theorem unit?_hexDigits {n : Nat} (h : n < 0x10000) :
    unit? (Nat.digitChar (n / 16 / 16 / 16 % 16)) (Nat.digitChar (n / 16 / 16 % 16))
      (Nat.digitChar (n / 16 % 16)) (Nat.digitChar (n % 16)) = some n := by
  have hdigit : ∀ k, hexValue? (Nat.digitChar (k % 16)) = some (k % 16) := fun k =>
    (hexDigit_cases (k % 16) (Nat.mod_lt _ (by decide))).1
  simp only [unit?, hdigit, Option.bind_eq_bind, Option.bind_some, Option.pure_def,
    Option.some.injEq]
  omega

theorem of_mem_hexDigits {n : Nat} {c : Char} (h : c ∈ Text.hexDigits 4 n) :
    isPlain c = true ∧ isMarkup c = false := by
  have hdigit : ∀ k, isPlain (Nat.digitChar (k % 16)) = true ∧
      isMarkup (Nat.digitChar (k % 16)) = false := fun k =>
    (hexDigit_cases (k % 16) (Nat.mod_lt _ (by decide))).2
  rw [hexDigits_four] at h
  simp only [List.mem_cons, List.not_mem_nil, or_false] at h
  rcases h with rfl | rfl | rfl | rfl <;> exact hdigit _

/-! ## Scanning -/

theorem isPlain_of_not {c : Char} (hquote : c = '"' → False)
    (h : ¬(decide (c = '\\') || decide (c.toNat = 0)) = true) : isPlain c = true := by
  simp only [Bool.or_eq_true, decide_eq_true_eq, not_or] at h
  simp [isPlain, h.1, h.2, show c ≠ '"' from hquote]

theorem scanString_plain {c : Char} (hc : isPlain c = true) (rest : List Char) :
    scanString (c :: rest) = (scanString rest).map fun found => (c :: found.1, found.2) := by
  simp only [isPlain, Bool.and_eq_true, decide_eq_true_eq] at hc
  obtain ⟨⟨hquote, hback⟩, hnull⟩ := hc
  rw [scanString.eq_4 c rest hquote (fun _ _ h => absurd h hback)]
  simp [hback, hnull]

/-- Plain characters in front are passed over. -/
theorem scanString_append_plain {cs : List Char} (hcs : ∀ c ∈ cs, isPlain c = true)
    (rest : List Char) :
    scanString (cs ++ rest) = (scanString rest).map fun found => (cs ++ found.1, found.2) := by
  induction cs with
  | nil => simp
  | cons c cs ih =>
      rw [List.forall_mem_cons] at hcs
      rw [List.cons_append, scanString_plain hcs.1, ih hcs.2, Option.map_map]
      rfl

theorem scanString_pair (c : Char) (rest : List Char) :
    scanString ('\\' :: c :: rest) =
      (scanString rest).map fun found => ('\\' :: c :: found.1, found.2) := rfl

theorem scanString_unit (n : Nat) (rest : List Char) :
    scanString ('\\' :: 'u' :: Text.hexDigits 4 n ++ rest) = (scanString rest).map fun found =>
      ('\\' :: 'u' :: Text.hexDigits 4 n ++ found.1, found.2) := by
  simp only [List.cons_append, scanString_pair]
  rw [scanString_append_plain (fun c hc => (of_mem_hexDigits hc).1), Option.map_map]
  rfl

theorem written_nil : Written [] := fun _ => rfl

/-- What a scan that finds the closing quote has passed over, and what follows it. -/
inductive Scanned : List Char → List Char → List Char → Prop
  | close (rest : List Char) : Scanned ('"' :: rest) [] rest
  | pair (c : Char) {cs written rest : List Char} (h : Scanned cs written rest) :
      Scanned ('\\' :: c :: cs) ('\\' :: c :: written) rest
  | plain {c : Char} {cs written rest : List Char} (hc : isPlain c = true)
      (h : Scanned cs written rest) : Scanned (c :: cs) (c :: written) rest

/-- A scan that stops has found the closing quote. -/
theorem scanned_of_scanString {cs written rest : List Char}
    (h : scanString cs = some (written, rest)) : Scanned cs written rest := by
  induction cs using scanString.induct generalizing written rest with
  | case1 => cases h
  | case2 =>
      cases h
      exact .close _
  | case3 c tail ih =>
      obtain ⟨found, hfound, heq⟩ := Option.map_eq_some_iff.mp h
      cases heq
      exact .pair c (ih hfound)
  | case4 c tail hquote hpair hc =>
      rw [scanString.eq_4 c tail hquote hpair, if_pos hc] at h
      cases h
  | case5 c tail hquote hpair hc ih =>
      rw [scanString.eq_4 c tail hquote hpair, if_neg hc] at h
      obtain ⟨found, hfound, heq⟩ := Option.map_eq_some_iff.mp h
      cases heq
      exact .plain (isPlain_of_not hquote hc) (ih hfound)

/-- Every scanned string may stand between quotes. -/
theorem written_of_scanString {cs written rest : List Char}
    (h : scanString cs = some (written, rest)) : Written written := by
  replace h := scanned_of_scanString h
  induction h with
  | close => exact written_nil
  | pair c _ ih =>
      intro rest
      rw [List.cons_append, List.cons_append, scanString_pair, ih rest]
      rfl
  | plain hc _ ih =>
      intro rest
      rw [List.cons_append, scanString_plain hc, ih rest]
      rfl

/-! ## The spelling of one character -/

/-- A written character is a pair, a code point or itself. -/
theorem escapeChar_cases (c : Char) :
    (∃ letter, escapeChar c = ['\\', letter] ∧ letter ≠ 'u' ∧ shortEscape? letter = some c ∧
      isMarkup letter = false) ∨
    (escapeChar c = '\\' :: 'u' :: Text.hexDigits 4 c.toNat ∧ c.toNat < 0xd800) ∨
    (escapeChar c = [c] ∧ isPlain c = true ∧ isMarkup c = false) := by
  unfold escapeChar
  split
  · next h => exact .inl ⟨'"', rfl, by decide, by rw [h]; rfl, rfl⟩
  split
  · next h => exact .inl ⟨'\\', rfl, by decide, by rw [h]; rfl, rfl⟩
  split
  · next h => exact .inl ⟨'n', rfl, by decide, by rw [h]; rfl, rfl⟩
  split
  · next h => exact .inl ⟨'r', rfl, by decide, by rw [h]; rfl, rfl⟩
  split
  · next h => exact .inl ⟨'t', rfl, by decide, by rw [h]; rfl, rfl⟩
  split
  · next h =>
      refine .inr (.inl ⟨rfl, ?_⟩)
      simp only [Bool.or_eq_true, decide_eq_true_eq] at h
      rcases h with ((((h | rfl) | rfl) | rfl) | h) | h
      · omega
      · decide
      · decide
      · decide
      · omega
      · omega
  · next hquote hback _ _ _ h =>
      simp only [Bool.or_eq_true, decide_eq_true_eq, not_or] at h
      obtain ⟨⟨⟨⟨⟨hlow, hless⟩, hgreater⟩, hand⟩, hline⟩, hparagraph⟩ := h
      refine .inr (.inr ⟨rfl, ?_, ?_⟩)
      · have hnull : c.toNat ≠ 0 := by omega
        simp [isPlain, hquote, hback, hnull]
      · simp [isMarkup, hless, hgreater, hand, hline, hparagraph]

/-- An escaped character may stand in front of what is written. -/
theorem written_escapeChar (c : Char) {written : List Char} (h : Written written) :
    Written (escapeChar c ++ written) := by
  intro rest
  rcases escapeChar_cases c with ⟨letter, heq, _⟩ | ⟨heq, _⟩ | ⟨heq, hplain, _⟩
  · simp only [heq, List.cons_append, List.nil_append, scanString_pair, h rest]
    rfl
  · rw [heq, List.append_assoc, scanString_unit, h rest]
    rfl
  · simp only [heq, List.cons_append, List.nil_append, scanString_plain hplain, h rest]
    rfl

/-- An escaped character is read back as it was. -/
theorem unescapeFrom_escapeChar (c : Char) (rest : List Char) :
    unescapeFrom none (escapeChar c ++ rest) = (unescapeFrom none rest).map (c :: ·) := by
  rcases escapeChar_cases c with ⟨letter, heq, hne, hshort, _⟩ | ⟨heq, hlow⟩ | ⟨heq, hplain, _⟩
  · rw [heq, List.cons_append, List.cons_append, List.nil_append,
      unescapeFrom.eq_3 none letter rest (fun _ _ _ _ _ h => absurd h hne), hshort]
    simp
  · have hunit := unit?_hexDigits (n := c.toNat) (by omega)
    have hhigh : isHighSurrogate c.toNat = false := by
      simp only [isHighSurrogate, Bool.and_eq_false_imp, decide_eq_true_eq, decide_eq_false_iff_not]
      omega
    have hchar : ofUnit c.toNat = c := by
      have hnot : (0xd800 ≤ c.toNat && c.toNat < 0xe000) = false := by
        simp only [Bool.and_eq_false_imp, decide_eq_true_eq, decide_eq_false_iff_not]
        omega
      rw [ofUnit, hnot]
      exact Char.ofNat_toNat c
    rw [heq, hexDigits_four]
    simp only [List.cons_append, List.nil_append]
    rw [unescapeFrom.eq_2, hunit]
    simp [hhigh, hchar]
  · have hback : c ≠ '\\' := by
      rintro rfl
      cases hplain
    rw [heq, List.cons_append, List.nil_append,
      unescapeFrom.eq_4 none c rest (fun _ _ _ _ _ h => absurd h hback)
        (fun _ _ h => absurd h hback), if_neg hback]
    simp

/-! ## The spelling of a string -/

theorem toList_escape (s : String) : (escape s).toList = s.toList.flatMap escapeChar := by
  rw [escape, String.toList_ofList]

theorem written_escape (s : String) : Written (escape s).toList := by
  rw [toList_escape]
  induction s.toList with
  | nil => exact written_nil
  | cons c cs ih => exact written_escapeChar c ih

theorem unescapeFrom_flatMap (cs : List Char) :
    unescapeFrom none (cs.flatMap escapeChar) = some cs := by
  induction cs with
  | nil => rfl
  | cons c cs ih => rw [List.flatMap_cons, unescapeFrom_escapeChar, ih, Option.map_some]

@[simp] theorem unescape?_escape (s : String) : unescape? (escape s) = some s := by
  rw [unescape?, toList_escape, unescapeFrom_flatMap, Option.map_some, String.ofList_toList]

theorem escape_injective {s t : String} (h : escape s = escape t) : s = t := by
  have hunescape := congrArg unescape? h
  simpa using hunescape

/-! ## Markup -/

/-- The spelling of one character of a string that is already written. -/
def markupChar (c : Char) : List Char :=
  if isMarkup c then '\\' :: 'u' :: Text.hexDigits 4 c.toNat else [c]

theorem markupChar_of_not_markup {c : Char} (h : isMarkup c = false) : markupChar c = [c] := by
  rw [markupChar, h]
  rfl

theorem toList_escapeMarkup (written : String) :
    (escapeMarkup written).toList = written.toList.flatMap markupChar := by
  rw [escapeMarkup, String.toList_ofList]
  rfl

theorem escapeMarkup_eq_self {written : String}
    (h : ∀ c ∈ written.toList, isMarkup c = false) : escapeMarkup written = written := by
  rw [← String.toList_inj, toList_escapeMarkup]
  calc written.toList.flatMap markupChar = written.toList.flatMap fun c => [c] :=
        List.flatMap_congr fun c hc => markupChar_of_not_markup (h c hc)
    _ = written.toList := List.flatMap_singleton' written.toList

/-- No markup is left of a character. -/
theorem isMarkup_of_mem_markupChar {c d : Char} (h : d ∈ markupChar c) : isMarkup d = false := by
  by_cases hc : isMarkup c = true
  · rw [markupChar, if_pos hc] at h
    rcases List.mem_cons.mp h with rfl | h
    · rfl
    rcases List.mem_cons.mp h with rfl | h
    · rfl
    · exact (of_mem_hexDigits h).2
  · rw [markupChar, if_neg hc] at h
    rw [List.mem_singleton.mp h]
    exact Bool.eq_false_iff.mpr hc

theorem escapeMarkup_escapeMarkup (written : String) :
    escapeMarkup (escapeMarkup written) = escapeMarkup written := by
  apply escapeMarkup_eq_self
  intro d hd
  rw [toList_escapeMarkup, List.mem_flatMap] at hd
  obtain ⟨c, _, hmem⟩ := hd
  exact isMarkup_of_mem_markupChar hmem

/-- After a backslash a spelled character is the end of a pair, with plain ones behind it. -/
theorem written_pair_markupChar (c : Char) {written : List Char} (h : Written written) :
    Written ('\\' :: (markupChar c ++ written)) := by
  intro rest
  by_cases hc : isMarkup c = true
  · have hplain : ∀ d ∈ 'u' :: Text.hexDigits 4 c.toNat, isPlain d = true :=
      List.forall_mem_cons.mpr ⟨rfl, fun d hd => (of_mem_hexDigits hd).1⟩
    rw [markupChar, if_pos hc, List.cons_append, List.cons_append, List.cons_append,
      scanString_pair, List.append_assoc, scanString_append_plain hplain, h rest]
    rfl
  · rw [markupChar, if_neg hc, List.singleton_append, List.cons_append, List.cons_append,
      scanString_pair, h rest]
    rfl

/-- A plain character stays so when markup is spelled out. -/
theorem written_markupChar {c : Char} (hplain : isPlain c = true) {written : List Char}
    (h : Written written) : Written (markupChar c ++ written) := by
  intro rest
  by_cases hc : isMarkup c = true
  · rw [markupChar, if_pos hc, List.append_assoc, scanString_unit, h rest]
    rfl
  · rw [markupChar, if_neg hc, List.singleton_append, List.cons_append, scanString_plain hplain,
      h rest]
    rfl

/-- What was scanned may still stand between quotes when its markup is spelled out. -/
-- By what the scan passes over: a markup character may be the second one of a pair, where
-- its code point does not stand alone.
theorem written_flatMap_markupChar {cs written rest : List Char}
    (h : scanString cs = some (written, rest)) : Written (written.flatMap markupChar) := by
  replace h := scanned_of_scanString h
  induction h with
  | close => exact written_nil
  | pair c _ ih => exact written_pair_markupChar c ih
  | plain hc _ ih => exact written_markupChar hc ih

theorem written_escapeMarkup {written : String} (h : Written written.toList) :
    Written (escapeMarkup written).toList := by
  rw [toList_escapeMarkup]
  exact written_flatMap_markupChar (h [])

/-- An escaped character has no markup. -/
theorem isMarkup_of_mem_escapeChar {c d : Char} (h : d ∈ escapeChar c) : isMarkup d = false := by
  rcases escapeChar_cases c with ⟨letter, heq, _, _, hletter⟩ | ⟨heq, _⟩ | ⟨heq, _, hc⟩
  · rw [heq] at h
    simp only [List.mem_cons, List.not_mem_nil, or_false] at h
    rcases h with rfl | rfl
    · rfl
    · exact hletter
  · rw [heq] at h
    rcases List.mem_cons.mp h with rfl | h
    · rfl
    rcases List.mem_cons.mp h with rfl | h
    · rfl
    · exact (of_mem_hexDigits h).2
  · rw [heq] at h
    obtain rfl := List.mem_singleton.mp h
    exact hc

@[simp] theorem escapeMarkup_escape (s : String) : escapeMarkup (escape s) = escape s := by
  apply escapeMarkup_eq_self
  intro d hd
  rw [toList_escape, List.mem_flatMap] at hd
  obtain ⟨c, _, hmem⟩ := hd
  exact isMarkup_of_mem_escapeChar hmem

end StoredProc.Json
