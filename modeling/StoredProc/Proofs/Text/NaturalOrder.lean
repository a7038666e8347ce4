import Mathlib.Data.List.Lex
import Mathlib.Data.List.SplitBy
import Mathlib.Data.List.TakeDrop
import Mathlib.Data.List.TakeWhile
import Mathlib.Data.Nat.Digits.Defs
import Mathlib.Data.Prod.Lex
import StoredProc.Proofs.Text.InsertionSort

/-! # Where natural order is an order

Natural order passes over numbers that are spelled differently, such as `1` and `01`,
and compares numbers of more than 64 bits by their characters. So it is not an order of
all names. It is one of the names that have neither: these are compared as the lists of
their pieces, which are numbers and single characters. A number stands between the
characters in front of the digits and those behind them.
-/

namespace StoredProc.Text

/-! ## Digits -/

theorem isDigit_iff {c : Char} : c.isDigit = true ↔ 48 ≤ c.toNat ∧ c.toNat ≤ 57 := by
  simp only [Char.isDigit, Bool.and_eq_true, decide_eq_true_eq, ge_iff_le,
    UInt32.le_iff_toNat_le]
  exact Iff.rfl

theorem isDigit_eq_false_iff {c : Char} : c.isDigit = false ↔ c.toNat < 48 ∨ 57 < c.toNat := by
  rw [← Bool.not_eq_true, isDigit_iff]
  omega

/-- The value of a digit. -/
def digit (c : Char) : Nat := c.toNat - '0'.toNat

theorem digit_lt {c : Char} (h : c.isDigit = true) : digit c < 10 := by
  have hrange := isDigit_iff.mp h
  have hzero : '0'.toNat = 48 := rfl
  unfold digit
  omega

theorem digit_inj {c d : Char} (hc : c.isDigit = true) (hd : d.isDigit = true)
    (h : digit c = digit d) : c = d := by
  have hrange := isDigit_iff.mp hc
  have hrange' := isDigit_iff.mp hd
  have hzero : '0'.toNat = 48 := rfl
  unfold digit at h
  exact Char.toNat_inj.mp (by omega)

theorem digitsValue_eq_ofDigits (digits : List Char) :
    digitsValue digits = Nat.ofDigits 10 (digits.reverse.map digit) := by
  rw [Nat.ofDigits_eq_foldr, List.foldr_map, ← List.foldl_reverse, List.reverse_reverse,
    digitsValue]
  congr 1
  funext n c
  simp only [digit, Nat.cast_id]
  omega

/-- Lists are told apart by their images if their items are. -/
theorem eq_of_map_eq {α β : Type} {f : α → β} {first second : List α}
    (hinj : ∀ a ∈ first, ∀ b ∈ second, f a = f b → a = b) (h : first.map f = second.map f) :
    first = second := by
  induction first generalizing second with
  | nil => exact (List.map_eq_nil_iff.mp h.symm).symm
  | cons a rest ih =>
      cases second with
      | nil => cases h
      | cons b others =>
          obtain ⟨hhead, htail⟩ := List.cons.inj h
          rw [hinj a List.mem_cons_self b List.mem_cons_self hhead,
            ih (fun x hx y hy => hinj x (List.mem_cons_of_mem _ hx) y (List.mem_cons_of_mem _ hy))
              htail]

/-- Digits, and no zero in front of other digits. -/
structure IsNumeral (digits : List Char) : Prop where
  ne_nil : digits ≠ []
  isDigit : ∀ c ∈ digits, c.isDigit = true
  no_leading_zero : digits.head? = some '0' → digits = ['0']

namespace IsNumeral

variable {digits other : List Char}

/-- A numeral that does not start with zero has the digits of its value. -/
theorem digits_value (h : IsNumeral digits) (hhead : digits.head? ≠ some '0') :
    Nat.digits 10 (digitsValue digits) = digits.reverse.map digit := by
  rw [digitsValue_eq_ofDigits]
  refine Nat.digits_ofDigits 10 (by decide) _ ?_ ?_
  · intro value hvalue
    obtain ⟨c, hc, rfl⟩ := List.mem_map.mp hvalue
    exact digit_lt (h.isDigit c (List.mem_reverse.mp hc))
  · intro hne hzero
    rw [List.getLast_map, List.getLast_reverse] at hzero
    have hfirst := h.isDigit _ (List.head_mem h.ne_nil)
    have hhead' : digits.head h.ne_nil = '0' := digit_inj hfirst rfl hzero
    exact hhead (by rw [List.head?_eq_some_head h.ne_nil, hhead'])

/-- A number is spelled in one way. -/
theorem value_inj (h : IsNumeral digits) (h' : IsNumeral other)
    (hvalue : digitsValue digits = digitsValue other) : digits = other := by
  -- Zero is the only number that has a zero in front.
  have hpositive : ∀ {digits : List Char}, IsNumeral digits → digits.head? ≠ some '0' →
      digitsValue digits ≠ digitsValue ['0'] := by
    intro digits h hhead hzero
    have hdigits := h.digits_value hhead
    rw [hzero] at hdigits
    simpa [digitsValue, h.ne_nil] using hdigits.symm
  by_cases hhead : digits.head? = some '0'
  · have hzero := h.no_leading_zero hhead
    by_cases hhead' : other.head? = some '0'
    · rw [hzero, h'.no_leading_zero hhead']
    · exact absurd (hzero ▸ hvalue.symm) (hpositive h' hhead')
  · by_cases hhead' : other.head? = some '0'
    · exact absurd (h'.no_leading_zero hhead' ▸ hvalue) (hpositive h hhead)
    · have hmap : digits.reverse.map digit = other.reverse.map digit := by
        rw [← h.digits_value hhead, ← h'.digits_value hhead', hvalue]
      refine List.reverse_inj.mp (eq_of_map_eq (fun c hc d hd => ?_) hmap)
      exact digit_inj (h.isDigit c (List.mem_reverse.mp hc)) (h'.isDigit d (List.mem_reverse.mp hd))

end IsNumeral

/-! ## Pieces of names -/

/-- Runs of digits, and all other characters one by one. -/
def pieces (name : List Char) : List (List Char) :=
  name.splitBy fun a b => a.isDigit && b.isDigit

/-- A character that is no digit, or a number of 64 bits without zeros in front. -/
def isPlainPiece : List Char → Bool
  | [] => true
  | first :: rest =>
    !first.isDigit ||
      (first ≠ '0' || rest.isEmpty) && decide (digitsValue (first :: rest) < word64Limit)

/-- Whether all numbers in a name have 64 bits and no zeros in front. -/
def isPlain (name : List Char) : Bool := (pieces name).all isPlainPiece

/-- Where a piece stands among all pieces. Numbers stand where the digits stand among
the characters. -/
def rank : List Char → ℕ ×ₗ ℕ
  | [] => toLex (0, 0)
  | first :: rest =>
    if first.isDigit then toLex (48, digitsValue (first :: rest)) else toLex (first.toNat, 0)

/-- The places of the pieces of a name. -/
def key (name : List Char) : List (ℕ ×ₗ ℕ) := (pieces name).map rank

theorem pieces_cons {c : Char} (h : c.isDigit = false) (rest : List Char) :
    pieces (c :: rest) = [c] :: pieces rest := by
  have happend := List.splitBy_append (r := fun a b => a.isDigit && b.isDigit) (l := [c])
    (m := rest) (by simp [h])
  exact happend

/-- A run of digits that ends there. -/
theorem pieces_append {digits rest : List Char} (hne : digits ≠ [])
    (hdigits : ∀ c ∈ digits, c.isDigit = true) (hrest : ∀ c ∈ rest.head?, c.isDigit = false) :
    pieces (digits ++ rest) = digits :: pieces rest := by
  have hchain : digits.IsChain fun a b => (a.isDigit && b.isDigit) = true := by
    refine List.Pairwise.isChain (List.pairwise_of_forall_mem_list fun a ha b hb => ?_)
    rw [hdigits a ha, hdigits b hb]
    rfl
  rw [pieces, List.splitBy_append (by
    intro a _ b hb
    rw [hrest b hb, Bool.and_false]), List.splitBy_of_isChain hne hchain]
  rfl

/-- A name that goes on with a digit goes on with a run of digits. -/
theorem exists_run {c : Char} (h : c.isDigit = true) (rest : List Char) :
    ∃ digits after, (c :: rest).span Char.isDigit = (digits, after) ∧
      c :: rest = digits ++ after ∧ digits ≠ [] ∧ (∀ d ∈ digits, d.isDigit = true) ∧
      pieces (c :: rest) = digits :: pieces after := by
  have hne : (c :: rest).takeWhile Char.isDigit ≠ [] := by
    rw [List.takeWhile_cons_of_pos h]
    exact List.cons_ne_nil _ _
  have hdigits : ∀ d ∈ (c :: rest).takeWhile Char.isDigit, d.isDigit = true :=
    fun d hd => List.mem_takeWhile_imp hd
  have hafter : ∀ d ∈ ((c :: rest).dropWhile Char.isDigit).head?, d.isDigit = false := by
    intro d hd
    have hhead := List.head?_dropWhile_not Char.isDigit (c :: rest)
    rwa [Option.mem_def.mp hd] at hhead
  have heq := List.takeWhile_append_dropWhile (p := Char.isDigit) (l := c :: rest)
  refine ⟨_, _, List.span_eq_takeWhile_dropWhile _ _, heq.symm, hne, hdigits, ?_⟩
  rw [← pieces_append hne hdigits hafter, heq]

/-- A run that starts with a digit is all digits. -/
theorem isDigit_of_isChain {first : Char} {rest : List Char} (hfirst : first.isDigit = true)
    (h : (first :: rest).IsChain fun a b => (a.isDigit && b.isDigit) = true) :
    ∀ c ∈ first :: rest, c.isDigit = true := by
  induction rest generalizing first with
  | nil => simpa using hfirst
  | cons second rest ih =>
      obtain ⟨hjoined, hrest⟩ := List.isChain_cons_cons.mp h
      rw [hfirst, Bool.true_and] at hjoined
      exact List.forall_mem_cons.mpr ⟨hfirst, ih hjoined hrest⟩

/-- What a piece of a name is. -/
theorem piece_cases {name piece : List Char} (h : piece ∈ pieces name) :
    (∃ c, piece = [c] ∧ c.isDigit = false) ∨
      piece ≠ [] ∧ ∀ c ∈ piece, c.isDigit = true := by
  have hchain := List.isChain_of_mem_splitBy h
  have hne := List.ne_nil_of_mem_splitBy h
  cases piece with
  | nil => exact absurd rfl hne
  | cons first rest =>
      cases hfirst : first.isDigit with
      | false =>
          refine Or.inl ⟨first, ?_, hfirst⟩
          cases rest with
          | nil => rfl
          | cons second rest => simp [hfirst] at hchain
      | true => exact Or.inr ⟨hne, isDigit_of_isChain hfirst hchain⟩

/-- A plain run of digits is a numeral of 64 bits. -/
theorem isNumeral_of_isPlainPiece {digits : List Char} (hne : digits ≠ [])
    (hdigits : ∀ c ∈ digits, c.isDigit = true) (h : isPlainPiece digits = true) :
    IsNumeral digits ∧ digitsValue digits < word64Limit := by
  cases digits with
  | nil => exact absurd rfl hne
  | cons first rest =>
      have hfirst := hdigits first List.mem_cons_self
      simp only [isPlainPiece, hfirst, Bool.not_true, Bool.false_or, Bool.and_eq_true,
        Bool.or_eq_true, decide_eq_true_eq, List.isEmpty_iff] at h
      refine ⟨⟨hne, hdigits, ?_⟩, h.2⟩
      intro hzero
      cases hzero
      rw [h.1.resolve_left (by simp)]

theorem rank_of_isDigit {digits : List Char} (hne : digits ≠ [])
    (hdigits : ∀ c ∈ digits, c.isDigit = true) : rank digits = toLex (48, digitsValue digits) := by
  cases digits with
  | nil => exact absurd rfl hne
  | cons first rest => rw [rank, if_pos (hdigits first List.mem_cons_self)]

theorem rank_singleton {c : Char} (h : c.isDigit = false) : rank [c] = toLex (c.toNat, 0) := by
  rw [rank, if_neg (by simp [h])]

/-- No two pieces have one place. -/
theorem rank_inj {name other piece second : List Char} (hpiece : piece ∈ pieces name)
    (hsecond : second ∈ pieces other) (hplain : isPlainPiece piece = true)
    (hplain' : isPlainPiece second = true) (h : rank piece = rank second) : piece = second := by
  rcases piece_cases hpiece with ⟨c, rfl, hc⟩ | ⟨hne, hdigits⟩ <;>
    rcases piece_cases hsecond with ⟨d, rfl, hd⟩ | ⟨hne', hdigits'⟩
  · rw [rank_singleton hc, rank_singleton hd, toLex_inj, Prod.mk.injEq] at h
    rw [Char.toNat_inj.mp h.1]
  · rw [rank_singleton hc, rank_of_isDigit hne' hdigits', toLex_inj, Prod.mk.injEq] at h
    have hrange := isDigit_eq_false_iff.mp hc
    omega
  · rw [rank_of_isDigit hne hdigits, rank_singleton hd, toLex_inj, Prod.mk.injEq] at h
    have hrange := isDigit_eq_false_iff.mp hd
    omega
  · rw [rank_of_isDigit hne hdigits, rank_of_isDigit hne' hdigits', toLex_inj,
      Prod.mk.injEq] at h
    exact (isNumeral_of_isPlainPiece hne hdigits hplain).1.value_inj
      (isNumeral_of_isPlainPiece hne' hdigits' hplain').1 h.2

/-- Plain names are told apart by their pieces. -/
theorem key_inj {name other : List Char} (h : isPlain name = true) (h' : isPlain other = true)
    (hkey : key name = key other) : name = other := by
  have hpieces : pieces name = pieces other := by
    refine eq_of_map_eq (fun piece hpiece second hsecond => ?_) hkey
    exact rank_inj hpiece hsecond (List.all_eq_true.mp h piece hpiece)
      (List.all_eq_true.mp h' second hsecond)
  rw [← List.flatten_splitBy (fun a b => a.isDigit && b.isDigit) name,
    ← List.flatten_splitBy (fun a b => a.isDigit && b.isDigit) other]
  exact congrArg List.flatten hpieces

/-! ## Comparing plain names -/

/-- Two names without what they share at first: one of them ends, or one of them goes on
with a digit, or they go on differently. -/
theorem exists_dropCommon_eq (as bs : List Char) :
    ∃ shared first second, dropCommon as bs = (first, second) ∧ as = shared ++ first ∧
      bs = shared ++ second ∧ (∀ c ∈ shared, c.isDigit = false) ∧
      ∀ a ∈ first.head?, ∀ b ∈ second.head?, a.isDigit = true ∨ b.isDigit = true ∨ a ≠ b := by
  fun_induction dropCommon as bs with
  | case1 a as b bs hstop =>
      refine ⟨[], a :: as, b :: bs, rfl, rfl, rfl, by simp, ?_⟩
      simpa [or_assoc] using hstop
  | case2 a as b bs hstop ih =>
      obtain ⟨shared, first, second, heq, has, hbs, hshared, hheads⟩ := ih
      simp only [Bool.or_eq_true, decide_eq_true_eq, not_or, Bool.not_eq_true, Decidable.not_not]
        at hstop
      obtain ⟨⟨ha, _⟩, rfl⟩ := hstop
      exact ⟨a :: shared, first, second, heq, by rw [has]; rfl, by rw [hbs]; rfl,
        List.forall_mem_cons.mpr ⟨ha, hshared⟩, hheads⟩
  | case3 as bs hnot =>
      refine ⟨[], as, bs, rfl, rfl, rfl, by simp, ?_⟩
      intro a ha b hb
      cases as with
      | nil => cases ha
      | cons a' as =>
          cases bs with
          | nil => cases hb
          | cons b' bs => exact absurd rfl (hnot a' as b' bs rfl)

/-- What stands in front and has no digits does not matter. -/
theorem isPlain_shared {shared : List Char} (h : ∀ c ∈ shared, c.isDigit = false)
    (rest : List Char) : isPlain (shared ++ rest) = isPlain rest := by
  induction shared with
  | nil => rfl
  | cons c shared ih =>
      obtain ⟨hc, hshared⟩ := List.forall_mem_cons.mp h
      rw [← ih hshared, isPlain, List.cons_append, pieces_cons hc, List.all_cons]
      simp [isPlainPiece, hc, isPlain]

/-- Names that start alike, without digits, are compared by what follows. -/
theorem key_shared_lt {shared : List Char} (h : ∀ c ∈ shared, c.isDigit = false)
    (first second : List Char) :
    key (shared ++ first) < key (shared ++ second) ↔ key first < key second := by
  induction shared with
  | nil => rfl
  | cons c shared ih =>
      obtain ⟨hc, hshared⟩ := List.forall_mem_cons.mp h
      rw [← ih hshared, key, key, List.cons_append, List.cons_append, pieces_cons hc,
        pieces_cons hc, List.map_cons, List.map_cons, List.cons_lt_cons_iff]
      simp [key]

/-- Where a character stands, with all digits in one place. -/
def place (c : Char) : Nat := if c.isDigit then 48 else c.toNat

/-- Characters of which one is no digit stand as they do among all characters. -/
theorem place_lt_iff {a b : Char} (hne : a ≠ b) (hdigit : a.isDigit = false ∨ b.isDigit = false) :
    place a ≠ place b ∧ (place a < place b ↔ a < b) := by
  have hcode : a.toNat ≠ b.toNat := fun heq => hne (Char.toNat_inj.mp heq)
  have hlt : a < b ↔ a.toNat < b.toNat := Iff.rfl
  rw [hlt, place, place]
  cases ha : a.isDigit <;> cases hb : b.isDigit <;>
    simp only [Bool.false_eq_true, if_false, if_true]
  · exact ⟨hcode, trivial⟩
  · have hfirst := isDigit_eq_false_iff.mp ha
    have hsecond := isDigit_iff.mp hb
    omega
  · have hfirst := isDigit_iff.mp ha
    have hsecond := isDigit_eq_false_iff.mp hb
    omega
  · simp [ha, hb] at hdigit

/-- The first place of a key is that of the first character. -/
theorem exists_key_cons (c : Char) (rest : List Char) :
    ∃ number more, key (c :: rest) = toLex (place c, number) :: more := by
  cases hc : c.isDigit with
  | false =>
      refine ⟨0, key rest, ?_⟩
      rw [key, pieces_cons hc, List.map_cons, rank_singleton hc, place, if_neg (by simp [hc]), key]
  | true =>
      obtain ⟨digits, after, _, _, hne, hdigits, hpieces⟩ := exists_run hc rest
      refine ⟨digitsValue digits, key after, ?_⟩
      rw [key, hpieces, List.map_cons, rank_of_isDigit hne hdigits, place, if_pos hc, key]

/-- Names that do not both go on with digits are compared by their characters. -/
theorem lt_iff_key_lt {first second : List Char}
    (h : ∀ a ∈ first.head?, ∀ b ∈ second.head?, a ≠ b ∧ (a.isDigit = false ∨ b.isDigit = false)) :
    first < second ↔ key first < key second := by
  cases first with
  | nil =>
      cases second with
      | nil => exact iff_of_false (List.not_lt_nil _) (List.not_lt_nil _)
      | cons b bs =>
          obtain ⟨number, more, hkey⟩ := exists_key_cons b bs
          rw [hkey]
          exact iff_of_true (List.nil_lt_cons _ _) (List.nil_lt_cons _ _)
  | cons a as =>
      cases second with
      | nil => exact iff_of_false (List.not_lt_nil _) (List.not_lt_nil _)
      | cons b bs =>
          obtain ⟨hne, hdigit⟩ := h a rfl b rfl
          obtain ⟨number, more, hkey⟩ := exists_key_cons a as
          obtain ⟨number', more', hkey'⟩ := exists_key_cons b bs
          have hplace := place_lt_iff hne hdigit
          rw [hkey, hkey', List.cons_lt_cons_iff, List.cons_lt_cons_iff, Prod.Lex.toLex_lt_toLex,
            toLex_inj, Prod.mk.injEq]
          simp only [hplace, hne, false_and, or_false]

theorem append_lt_append_iff {shared first second : List Char} :
    shared ++ first < shared ++ second ↔ first < second := by
  induction shared with
  | nil => rfl
  | cons c shared ih => simp [ih]

theorem runValue?_eq_some {digits : List Char} (h : digitsValue digits < word64Limit) :
    runValue? digits = some (digitsValue digits) := by
  rw [runValue?, if_pos h]

theorem lt_iff {as bs : List Char} : String.ofList as < String.ofList bs ↔ as < bs := by
  change (String.ofList as).toList < (String.ofList bs).toList ↔ as < bs
  rw [String.toList_ofList, String.toList_ofList]

theorem span_of_head {p : Char → Bool} {name : List Char} (h : ∀ c ∈ name.head?, p c = false) :
    name.span p = ([], name) := by
  cases name with
  | nil => rfl
  | cons c rest => simp [List.span_eq_takeWhile_dropWhile, h c rfl]

/-- A run in front of what does not go on with it is cut off as a whole. -/
theorem span_append {p : Char → Bool} {run rest : List Char} (hrun : ∀ c ∈ run, p c = true)
    (hrest : ∀ c ∈ rest.head?, p c = false) : (run ++ rest).span p = (run, rest) := by
  have hstop := span_of_head hrest
  rw [List.span_eq_takeWhile_dropWhile, Prod.mk.injEq] at hstop
  rw [List.span_eq_takeWhile_dropWhile, List.takeWhile_append_of_pos hrun,
    List.dropWhile_append_of_pos hrun, hstop.1, hstop.2, List.append_nil]

/-- A name goes on with a digit or not. -/
theorem head_cases (name : List Char) :
    (∀ c ∈ name.head?, c.isDigit = false) ∨
      ∃ c rest, name = c :: rest ∧ c.isDigit = true := by
  cases name with
  | nil => exact Or.inl (by simp)
  | cons c rest =>
      cases hc : c.isDigit with
      | false => exact Or.inl (by simpa using hc)
      | true => exact Or.inr ⟨c, rest, rfl, hc⟩

section Step

variable {fuel : Nat} {as bs first second : List Char}

/-- Unless both names go on with digits, they are compared as texts. -/
theorem naturalLessFrom_of_span_nil (hdrop : dropCommon as bs = (first, second))
    (h : first.span Char.isDigit = ([], first) ∨ second.span Char.isDigit = ([], second)) :
    naturalLessFrom (fuel + 1) as bs = decide (first < second) := by
  rw [naturalLessFrom, hdrop]
  rcases h with h | h <;>
    simp only [h, List.isEmpty_nil, Bool.true_or, Bool.or_true, if_true, lt_iff]

/-- Two runs of digits are compared by value, and by what follows if they are equal. -/
theorem naturalLessFrom_of_runs {digits rest digits' rest' : List Char}
    (hdrop : dropCommon as bs = (first, second))
    (hfirst : first.span Char.isDigit = (digits, rest)) (hne : digits ≠ [])
    (hvalue : digitsValue digits < word64Limit)
    (hsecond : second.span Char.isDigit = (digits', rest')) (hne' : digits' ≠ [])
    (hvalue' : digitsValue digits' < word64Limit) :
    naturalLessFrom (fuel + 1) as bs =
      if digitsValue digits ≠ digitsValue digits' then
        decide (digitsValue digits < digitsValue digits')
      else if !rest.isEmpty && !rest'.isEmpty then naturalLessFrom fuel rest rest'
      else decide (first < second) := by
  rw [naturalLessFrom, hdrop]
  simp only [hfirst, hsecond]
  rw [if_neg (by simp [hne, hne'])]
  simp only [runValue?_eq_some hvalue, runValue?_eq_some hvalue', lt_iff]

end Step

/-- The run of digits at the front of a plain name. -/
theorem exists_plain_run {c : Char} (h : c.isDigit = true) {rest : List Char}
    (hplain : isPlain (c :: rest) = true) :
    ∃ digits after, (c :: rest).span Char.isDigit = (digits, after) ∧ c :: rest = digits ++ after ∧
      IsNumeral digits ∧ digitsValue digits < word64Limit ∧ isPlain after = true ∧
      key (c :: rest) = toLex (48, digitsValue digits) :: key after := by
  obtain ⟨digits, after, hspan, heq, hne, hdigits, hpieces⟩ := exists_run h rest
  rw [isPlain, hpieces, List.all_cons, Bool.and_eq_true] at hplain
  obtain ⟨hnumeral, hvalue⟩ := isNumeral_of_isPlainPiece hne hdigits hplain.1
  refine ⟨digits, after, hspan, heq, hnumeral, hvalue, hplain.2, ?_⟩
  rw [key, hpieces, List.map_cons, rank_of_isDigit hne hdigits, key]

/-- Two names that go on with numbers. Equal numbers are spelled alike, so what follows
them decides. -/
theorem runs_eq {less : Bool} {digits rest digits' rest' : List Char} (h : IsNumeral digits)
    (h' : IsNumeral digits')
    (hless : rest ≠ [] → rest' ≠ [] → less = decide (key rest < key rest')) :
    (if digitsValue digits ≠ digitsValue digits' then
        decide (digitsValue digits < digitsValue digits')
      else if !rest.isEmpty && !rest'.isEmpty then less
      else decide (digits ++ rest < digits' ++ rest')) =
      decide (toLex (48, digitsValue digits) :: key rest <
        toLex (48, digitsValue digits') :: key rest') := by
  split
  next hne =>
    rw [decide_eq_decide, List.cons_lt_cons_iff, Prod.Lex.toLex_lt_toLex, toLex_inj,
      Prod.mk.injEq]
    simp [hne]
  next heq =>
    obtain rfl := h.value_inj h' (not_not.mp heq)
    rw [decide_eq_decide.mpr (show toLex (48, digitsValue digits) :: key rest <
      toLex (48, digitsValue digits) :: key rest' ↔ key rest < key rest' by simp)]
    split
    next hboth =>
      simp only [Bool.and_eq_true, Bool.not_eq_true', List.isEmpty_eq_false_iff] at hboth
      exact hless hboth.1 hboth.2
    next hboth =>
      rw [decide_eq_decide, append_lt_append_iff]
      refine lt_iff_key_lt fun a ha b hb => absurd ?_ hboth
      cases rest with
      | nil => cases ha
      | cons c rest =>
          cases rest' with
          | nil => cases hb
          | cons c' rest' => rfl

/-- Plain names are compared by their pieces. -/
theorem naturalLessFrom_eq {fuel : Nat} {as bs : List Char} (hfuel : as.length < fuel)
    (has : isPlain as = true) (hbs : isPlain bs = true) :
    naturalLessFrom fuel as bs = decide (key as < key bs) := by
  induction fuel generalizing as bs with
  | zero => omega
  | succ fuel ih =>
      obtain ⟨shared, first, second, hdrop, rfl, rfl, hshared, hheads⟩ :=
        exists_dropCommon_eq as bs
      rw [isPlain_shared hshared] at has hbs
      have hkey : decide (key (shared ++ first) < key (shared ++ second)) =
          decide (key first < key second) := decide_eq_decide.mpr (key_shared_lt hshared _ _)
      have hplain : ((∀ a ∈ first.head?, a.isDigit = false) ∨
          ∀ b ∈ second.head?, b.isDigit = false) →
            naturalLessFrom (fuel + 1) (shared ++ first) (shared ++ second) =
              decide (key first < key second) := by
        intro hdigit
        rw [naturalLessFrom_of_span_nil hdrop (hdigit.imp span_of_head span_of_head),
          decide_eq_decide]
        refine lt_iff_key_lt fun a ha b hb => ?_
        have hor : a.isDigit = false ∨ b.isDigit = false := hdigit.imp (· a ha) (· b hb)
        refine ⟨?_, hor⟩
        rintro rfl
        have hnot : a.isDigit = false := hor.elim id id
        simpa [hnot] using hheads a ha a hb
      rw [hkey]
      rcases head_cases first with hfirst | ⟨a, first, rfl, ha⟩
      · exact hplain (Or.inl hfirst)
      rcases head_cases second with hsecond | ⟨b, second, rfl, hb⟩
      · exact hplain (Or.inr hsecond)
      obtain ⟨digits, rest, hspan, heq, hnumeral, hvalue, hrest, hkey⟩ := exists_plain_run ha has
      obtain ⟨digits', rest', hspan', heq', hnumeral', hvalue', hrest', hkey'⟩ :=
        exists_plain_run hb hbs
      rw [naturalLessFrom_of_runs hdrop hspan hnumeral.ne_nil hvalue hspan' hnumeral'.ne_nil
        hvalue', hkey, hkey', heq, heq']
      refine runs_eq hnumeral hnumeral' fun _ _ => ih ?_ hrest hrest'
      have hpos := List.length_pos_iff.mpr hnumeral.ne_nil
      rw [heq, List.length_append, List.length_append] at hfuel
      omega

theorem naturalLess_eq {a b : String} (ha : isPlain a.toList = true)
    (hb : isPlain b.toList = true) :
    naturalLess a b = decide (key a.toList < key b.toList) := by
  rw [naturalLess]
  refine naturalLessFrom_eq ?_ ha hb
  rw [String.length_toList]
  exact Nat.lt_succ_self _

/-! ## Names in order -/

/-- No name comes before itself. -/
theorem naturalLessFrom_self (fuel : Nat) (name : List Char) :
    naturalLessFrom fuel name name = false := by
  have hplain : ∀ rest : List Char, decide (String.ofList rest < String.ofList rest) = false := by
    simp
  induction fuel generalizing name with
  | zero => exact hplain name
  | succ fuel ih =>
      obtain ⟨shared, first, second, hdrop, hfirst, hsecond, _⟩ := exists_dropCommon_eq name name
      obtain rfl : first = second := List.append_cancel_left (hfirst.symm.trans hsecond)
      rw [naturalLessFrom, hdrop]
      cases first.span Char.isDigit with
      | mk digits rest =>
          simp only [hplain, ih]
          grind

/-- No name comes before itself. -/
theorem naturalLess_self (name : String) : naturalLess name name = false :=
  naturalLessFrom_self _ _

/-- Natural order is a strict order of plain names. -/
theorem strictOn_of_isPlain {names : List String}
    (h : ∀ name ∈ names, isPlain name.toList = true) : StrictOn naturalLess names where
  irrefl name _ := naturalLess_self name
  total a ha b hb hne := by
    have hkey : key a.toList ≠ key b.toList := fun heq =>
      hne (String.toList_inj.mp (key_inj (h a ha) (h b hb) heq))
    rw [naturalLess_eq (h a ha) (h b hb), naturalLess_eq (h b hb) (h a ha), ← decide_not,
      decide_eq_decide, not_lt]
    exact ⟨le_of_lt, fun hle => lt_of_le_of_ne hle hkey.symm⟩
  trans a ha b hb c hc hab hbc := by
    rw [naturalLess_eq (h a ha) (h b hb), decide_eq_true_eq] at hab
    rw [naturalLess_eq (h b hb) (h c hc), decide_eq_true_eq] at hbc
    rw [naturalLess_eq (h a ha) (h c hc), decide_eq_true_eq]
    exact lt_trans hab hbc

end StoredProc.Text
