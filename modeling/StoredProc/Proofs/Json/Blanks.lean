import StoredProc.Proofs.Json.Embedding

/-! # Texts without blanks

The blanks outside the strings of a text separate its tokens and mean nothing else: what
is read from a text has, in the compact spelling, the text that is left without them. So
two texts that differ in such blanks only spell one value.
-/

namespace StoredProc.Json

/-- A text without the blanks outside its strings; `quoted` tells whether it starts within
a string. -/
def unspacedFrom : Bool → List Char → List Char
  | _, [] => []
  | true, '\\' :: c :: rest => '\\' :: c :: unspacedFrom true rest
  | true, c :: rest => c :: unspacedFrom (c ≠ '"') rest
  | false, c :: rest =>
    if isBlank c then unspacedFrom false rest else c :: unspacedFrom (c = '"') rest

/-- A text without the blanks outside its strings. -/
def unspaced (source : String) : String := String.ofList (unspacedFrom false source.toList)

/-! ## Tokens -/

/-- A character that neither is dropped nor starts a string. -/
def isToken (c : Char) : Bool := !isBlank c && c ≠ '"'

theorem unspacedFrom_blank {c : Char} (h : isBlank c = true) (rest : List Char) :
    unspacedFrom false (c :: rest) = unspacedFrom false rest := by
  rw [unspacedFrom, if_pos h]

theorem unspacedFrom_token {c : Char} (h : isToken c = true) (rest : List Char) :
    unspacedFrom false (c :: rest) = c :: unspacedFrom false rest := by
  simp only [isToken, Bool.and_eq_true, Bool.not_eq_true', decide_eq_true_eq] at h
  rw [unspacedFrom, if_neg (by simp [h.1]), decide_eq_false h.2]

theorem unspacedFrom_tokens {token : List Char} (h : ∀ c ∈ token, isToken c = true)
    (rest : List Char) :
    unspacedFrom false (token ++ rest) = token ++ unspacedFrom false rest := by
  induction token with
  | nil => rfl
  | cons c token ih =>
      rw [List.forall_mem_cons] at h
      rw [List.cons_append, unspacedFrom_token h.1, ih h.2, List.cons_append]

theorem unspacedFrom_quote (rest : List Char) :
    unspacedFrom false ('"' :: rest) = '"' :: unspacedFrom true rest :=
  rfl

/-- To skip blanks takes away nothing that is kept. -/
theorem unspacedFrom_skipBlanks (cs : List Char) :
    unspacedFrom false (skipBlanks cs) = unspacedFrom false cs := by
  induction cs with
  | nil => rfl
  | cons c rest ih =>
      cases hblank : isBlank c with
      | true =>
          rw [unspacedFrom_blank hblank, ← ih, skipBlanks, List.dropWhile_cons_of_pos hblank,
            skipBlanks]
      | false => rw [skipBlanks_cons hblank]

/-- The scan of a string stops behind the closing quote. -/
theorem append_of_scanString {cs written rest : List Char}
    (h : scanString cs = some (written, rest)) : cs = written ++ '"' :: rest := by
  replace h := scanned_of_scanString h
  induction h with
  | close => rfl
  | pair c _ ih | plain _ _ ih =>
      rw [ih]
      rfl

/-- A string is kept as it is written. -/
theorem unspacedFrom_string {cs written rest : List Char}
    (h : scanString cs = some (written, rest)) :
    unspacedFrom true cs = written ++ '"' :: unspacedFrom false rest := by
  replace h := scanned_of_scanString h
  induction h with
  | close => rfl
  | pair c _ ih =>
      rw [unspacedFrom, ih]
      rfl
  | @plain c _ _ _ hc _ ih =>
      simp only [isPlain, Bool.and_eq_true, decide_eq_true_eq] at hc
      obtain ⟨⟨hquote, hbackslash⟩, _⟩ := hc
      rw [unspacedFrom, decide_eq_true hquote, ih, List.cons_append]
      exact fun _ _ hc _ => hbackslash hc

/-! ## Numbers -/

theorem append_of_scanDigits {cs digits rest : List Char}
    (h : scanDigits cs = (digits, rest)) : cs = digits ++ rest := by
  rw [scanDigits, List.span_eq_takeWhile_dropWhile, Prod.mk.injEq] at h
  rw [← h.1, ← h.2, List.takeWhile_append_dropWhile]

theorem append_of_scanInteger {cs integer rest : List Char}
    (h : scanInteger cs = some (integer, rest)) : cs = integer ++ rest := by
  unfold scanInteger at h
  split at h
  next =>
    cases h
    rfl
  next =>
    split at h
    next => cases h
    next => exact append_of_scanDigits (Option.some.inj h)

theorem append_of_scanFraction {cs fraction rest : List Char}
    (h : scanFraction cs = some (fraction, rest)) : cs = fraction ++ rest := by
  unfold scanFraction at h
  split at h
  next =>
    split at h
    next => cases h
    next hscan =>
      cases h
      rw [List.cons_append, ← append_of_scanDigits hscan]
  next =>
    cases h
    rfl

/-- The exponent is taken from the front: its mark, its sign and its digits. -/
theorem append_of_scanExponent {cs exponent rest : List Char}
    (h : scanExponent cs = some (exponent, rest)) : cs = exponent ++ rest := by
  unfold scanExponent at h
  split at h
  next mark tail =>
    split at h
    next =>
      dsimp only at h
      split at h
      next => cases h
      next hscan =>
        cases h
        rw [List.cons_append, List.cons_append, List.append_assoc, ← append_of_scanDigits hscan]
        split <;> rfl
    next =>
      cases h
      rfl
  next =>
    cases h
    rfl

/-- The scan of a number takes it from the front. -/
theorem append_of_scanNumber {cs number rest : List Char}
    (h : scanNumber cs = some (number, rest)) : cs = number ++ rest := by
  unfold scanNumber at h
  simp only [Option.bind_eq_bind, Option.pure_def, Option.bind_eq_some_iff, Option.some.injEq,
    Prod.mk.injEq] at h
  obtain ⟨⟨integer, afterInteger⟩, hinteger, ⟨fraction, afterFraction⟩, hfraction,
    ⟨exponent, afterExponent⟩, hexponent, rfl, rfl⟩ := h
  rw [List.append_assoc, List.append_assoc, ← append_of_scanExponent hexponent, List.append_assoc,
    ← append_of_scanFraction hfraction, ← append_of_scanInteger hinteger]
  split <;> rfl

theorem isToken_of_isDigit {c : Char} (h : c.isDigit = true) : isToken c = true := by
  rw [isToken, Bool.and_eq_true, Bool.not_eq_true', decide_eq_true_eq]
  constructor
  · by_contra hblank
    simp only [isBlank, Bool.or_eq_true, decide_eq_true_eq, Bool.not_eq_false] at hblank
    rcases hblank with ((rfl | rfl) | rfl) | rfl <;> cases h
  · rintro rfl
    cases h

/-- A number is written with tokens alone. -/
theorem IsNumber.isToken {number : List Char} (h : IsNumber number) :
    ∀ c ∈ number, isToken c = true := by
  obtain @⟨sign, integer, fraction, exponent, hsign, hinteger, hfraction, hexponent⟩ := h
  simp only [List.forall_mem_append]
  refine ⟨⟨⟨?_, fun c hc => isToken_of_isDigit (hinteger.isDigit c hc)⟩, ?_⟩, ?_⟩
  · rcases hsign with rfl | rfl
    · simp
    · exact List.forall_mem_singleton.mpr rfl
  · rcases hfraction with rfl | ⟨digits, hdigits, rfl⟩
    · simp
    · exact List.forall_mem_cons.mpr ⟨rfl, fun c hc => isToken_of_isDigit (hdigits.isDigit c hc)⟩
  · rcases hexponent with rfl | hexponent
    · simp
    · cases hexponent with
      | plain hmark hdigits =>
          refine List.forall_mem_cons.mpr
            ⟨?_, fun c hc => isToken_of_isDigit (hdigits.isDigit c hc)⟩
          rcases hmark with rfl | rfl <;> rfl
      | signed hmark hsign hdigits =>
          refine List.forall_mem_cons.mpr ⟨?_, List.forall_mem_cons.mpr
            ⟨?_, fun c hc => isToken_of_isDigit (hdigits.isDigit c hc)⟩⟩
          · rcases hmark with rfl | rfl <;> rfl
          · rcases hsign with rfl | rfl <;> rfl

/-! ## Values -/

/-- Members whose values are in the compact spelling. -/
def compactMembers (members : List (String × Json)) : List (String × Json) :=
  members.map fun member => (member.1, member.2.compact)

theorem compact_arr (source : String) (items : List Json) :
    compact (.arr source items) = array (items.map compact) := by
  rw [compact, respell, respellItems_eq_map]
  rfl

theorem compact_obj (source : String) (members : List (String × Json)) :
    compact (.obj source members) = written (compactMembers members) := by
  rw [compact, respell, respellMembers_eq_map]
  rfl

/-- A value whose lists and objects, at any depth, are spelled from a bracket or a brace
on. -/
inductive Delimited : Json → Prop
  | null : Delimited .null
  | bool (value : Bool) : Delimited (.bool value)
  | num (text : String) : Delimited (.num text)
  | str (written : String) : Delimited (.str written)
  | arr {source : String} {items : List Json} (hsource : ∃ rest, source.toList = '[' :: rest)
      (hitems : ∀ item ∈ items, Delimited item) : Delimited (.arr source items)
  | obj {source : String} {members : List (String × Json)}
      (hsource : ∃ rest, source.toList = '\x7b' :: rest)
      (hvalues : ∀ member ∈ members, Delimited member.2) : Delimited (.obj source members)

/-- What the three readers take with this fuel is, without blanks, the compact spelling of
what they give, in front of what they leave. -/
structure TakesSpelling (fuel : Nat) : Prop where
  value : ∀ cs value rest, readValue fuel cs = some (value, rest) →
    rest.length ≤ cs.length ∧ Delimited value ∧
      unspacedFrom false cs = value.compact.text.toList ++ unspacedFrom false rest
  items : ∀ cs items rest, readItems fuel cs = some (items, rest) →
    rest.length ≤ cs.length ∧ (∀ item ∈ items, Delimited item) ∧
      unspacedFrom false cs = itemsText (items.map compact) ++ ']' :: unspacedFrom false rest
  members : ∀ cs members rest, readMembers fuel cs = some (members, rest) →
    rest.length ≤ cs.length ∧ (∀ member ∈ members, Delimited member.2) ∧
      unspacedFrom false cs =
        membersText (compactMembers members) ++ '\x7d' :: unspacedFrom false rest

theorem takesSpelling_zero : TakesSpelling 0 := by
  constructor <;> intro cs taken rest h <;> cases h

/-- Blanks in front of a token are dropped. -/
theorem unspacedFrom_of_skipBlanks {c : Char} {cs rest : List Char} (h : skipBlanks cs = c :: rest)
    (hc : isToken c = true) : unspacedFrom false cs = c :: unspacedFrom false rest := by
  rw [← unspacedFrom_skipBlanks, h, unspacedFrom_token hc]

theorem length_skipBlanks_le (cs : List Char) : (skipBlanks cs).length ≤ cs.length :=
  List.length_dropWhile_le ..

theorem length_lt_of_skipBlanks {c : Char} {cs rest : List Char} (h : skipBlanks cs = c :: rest) :
    rest.length < cs.length := by
  have hlength := length_skipBlanks_le cs
  rw [h] at hlength
  exact hlength

/-- What is consumed starts where the reader started. -/
theorem exists_toList_consumed {c : Char} {tail after : List Char}
    (h : after.length ≤ tail.length) :
    ∃ rest, (consumed (c :: tail) after).toList = c :: rest := by
  refine ⟨tail.take (tail.length - after.length), ?_⟩
  rw [consumed, String.toList_ofList, List.length_cons, Nat.succ_sub h, List.take_succ_cons]

theorem toList_text_compact_arr (source : String) (items : List Json) :
    (compact (.arr source items)).text.toList = '[' :: itemsText (items.map compact) ++ [']'] := by
  rw [compact_arr, toList_text_array]

theorem toList_text_compact_obj (source : String) (members : List (String × Json)) :
    (compact (.obj source members)).text.toList =
      '\x7b' :: membersText (compactMembers members) ++ ['\x7d'] := by
  rw [compact_obj, toList_text_written]

/-- One step of the reader: what it takes is spelled as the value, whatever kind of value it
is. -/
theorem spelling_of_readValue_succ {fuel : Nat} (ih : TakesSpelling fuel) {cs rest : List Char}
    {value : Json} (h : readValue (fuel + 1) cs = some (value, rest)) :
    rest.length ≤ cs.length ∧ Delimited value ∧
      unspacedFrom false cs = value.compact.text.toList ++ unspacedFrom false rest := by
  cases takes_of_readValue h with
  | null | truth | falsity => exact ⟨by simp only [List.length_cons]; omega, by constructor, rfl⟩
  | string hfound =>
      refine ⟨?_, .str _, ?_⟩
      · rw [append_of_scanString hfound]
        simp only [List.length_cons, List.length_append]
        omega
      · rw [unspacedFrom_quote, unspacedFrom_string hfound]
        simp [compact, respell, text]
  | @noItems tail _ hafter =>
      have hlength := length_lt_of_skipBlanks hafter
      refine ⟨by rw [List.length_cons]; omega, ?_, ?_⟩
      · exact .arr (exists_toList_consumed hlength.le) (by simp)
      · rw [unspacedFrom_token rfl tail, unspacedFrom_of_skipBlanks hafter rfl,
          toList_text_compact_arr]
        rfl
  | @items tail _ _ _ hitems =>
      obtain ⟨hlength, hdelimited, hspelling⟩ := ih.items _ _ _ hitems
      have hskip := length_skipBlanks_le tail
      refine ⟨by simp only [List.length_cons]; omega, ?_, ?_⟩
      · exact .arr (exists_toList_consumed (hlength.trans hskip)) hdelimited
      · rw [unspacedFrom_token rfl tail, ← unspacedFrom_skipBlanks tail, hspelling,
          toList_text_compact_arr]
        simp
  | @noMembers tail _ hafter =>
      have hlength := length_lt_of_skipBlanks hafter
      refine ⟨by rw [List.length_cons]; omega, ?_, ?_⟩
      · exact .obj (exists_toList_consumed hlength.le) (by simp)
      · rw [unspacedFrom_token rfl tail, unspacedFrom_of_skipBlanks hafter rfl,
          toList_text_compact_obj]
        rfl
  | @members tail _ _ _ hmembers =>
      obtain ⟨hlength, hdelimited, hspelling⟩ := ih.members _ _ _ hmembers
      have hskip := length_skipBlanks_le tail
      refine ⟨by simp only [List.length_cons]; omega, ?_, ?_⟩
      · exact .obj (exists_toList_consumed (hlength.trans hskip)) hdelimited
      · rw [unspacedFrom_token rfl tail, ← unspacedFrom_skipBlanks tail, hspelling,
          toList_text_compact_obj]
        simp
  | number hfound =>
      rw [append_of_scanNumber hfound, unspacedFrom_tokens (isNumber_of_scanNumber hfound).isToken]
      exact ⟨by simp, .num _, by simp [compact, respell, text]⟩

theorem exists_cons_of_readItems {fuel : Nat} {cs rest : List Char} {items : List Json}
    (h : readItems fuel cs = some (items, rest)) : ∃ item others, items = item :: others := by
  cases fuel with
  | zero => cases h
  | succ fuel =>
      obtain ⟨item, _, _, ⟨_, others, _, _, rfl⟩ | ⟨_, rfl⟩⟩ := exists_of_readItems h
      · exact ⟨item, others, rfl⟩
      · exact ⟨item, [], rfl⟩

/-- An object whose members are read has one at least. -/
theorem exists_cons_of_readMembers {fuel : Nat} {cs rest : List Char}
    {members : List (String × Json)} (h : readMembers fuel cs = some (members, rest)) :
    ∃ member others, members = member :: others := by
  cases fuel with
  | zero => cases h
  | succ fuel =>
      obtain ⟨_, name, _, _, value, _, _, _, _, _, ⟨_, others, _, _, rfl⟩ | ⟨_, rfl⟩⟩ :=
        exists_of_readMembers h
      · exact ⟨(String.ofList name, value), others, rfl⟩
      · exact ⟨(String.ofList name, value), [], rfl⟩

/-- One more unit of fuel lets each reader call the others. -/
-- The items and members after the first decide whether a comma stands, so they are split too.
theorem takesSpelling_succ {fuel : Nat} (ih : TakesSpelling fuel) : TakesSpelling (fuel + 1) := by
  refine ⟨fun cs value rest => spelling_of_readValue_succ ih, ?_, ?_⟩
  · intro cs items rest h
    obtain ⟨item, after, hitem, hitems⟩ := exists_of_readItems h
    obtain ⟨hlength, hdelimited, hspelling⟩ := ih.value _ _ _ hitem
    rw [hspelling]
    rcases hitems with ⟨tail, others, htail, hothers, rfl⟩ | ⟨htail, rfl⟩
    · obtain ⟨hshorter, hrest, hspellings⟩ := ih.items _ _ _ hothers
      have hcomma := length_lt_of_skipBlanks htail
      have hskip := length_skipBlanks_le tail
      refine ⟨by omega, List.forall_mem_cons.mpr ⟨hdelimited, hrest⟩, ?_⟩
      rw [unspacedFrom_of_skipBlanks htail rfl, ← unspacedFrom_skipBlanks tail, hspellings]
      obtain ⟨next, others, rfl⟩ := exists_cons_of_readItems hothers
      simp only [List.map_cons, itemsText_cons_cons, List.append_assoc, List.cons_append]
    · have hbracket := length_lt_of_skipBlanks htail
      refine ⟨by omega, List.forall_mem_singleton.mpr hdelimited, ?_⟩
      rw [unspacedFrom_of_skipBlanks htail rfl, List.map_singleton, itemsText_singleton]
  · intro cs members rest h
    obtain ⟨quoted, name, afterName, colon, value, after, rfl, hname, hcolon, hvalue, hmembers⟩ :=
      exists_of_readMembers h
    obtain ⟨hlength, hdelimited, hspelling⟩ := ih.value _ _ _ hvalue
    have hquote := congrArg List.length (append_of_scanString hname)
    have hmark := length_lt_of_skipBlanks hcolon
    have hgap := length_skipBlanks_le colon
    simp only [List.length_append, List.length_cons] at hquote ⊢
    rw [unspacedFrom_quote, unspacedFrom_string hname, unspacedFrom_of_skipBlanks hcolon rfl,
      ← unspacedFrom_skipBlanks colon, hspelling]
    rcases hmembers with ⟨tail, others, htail, hothers, rfl⟩ | ⟨htail, rfl⟩
    · obtain ⟨hshorter, hrest, hspellings⟩ := ih.members _ _ _ hothers
      have hcomma := length_lt_of_skipBlanks htail
      have hskip := length_skipBlanks_le tail
      refine ⟨by omega, List.forall_mem_cons.mpr ⟨hdelimited, hrest⟩, ?_⟩
      rw [unspacedFrom_of_skipBlanks htail rfl, ← unspacedFrom_skipBlanks tail, hspellings]
      obtain ⟨next, others, rfl⟩ := exists_cons_of_readMembers hothers
      simp [compactMembers, membersText_cons_cons, toList_memberText]
    · have hbrace := length_lt_of_skipBlanks htail
      refine ⟨by omega, List.forall_mem_singleton.mpr hdelimited, ?_⟩
      rw [unspacedFrom_of_skipBlanks htail rfl]
      simp [compactMembers, membersText_singleton, toList_memberText]

theorem takesSpelling (fuel : Nat) : TakesSpelling fuel := by
  induction fuel with
  | zero => exact takesSpelling_zero
  | succ fuel ih => exact takesSpelling_succ ih

section Documents

variable {source : String} {value other : Json} {rest : List Char}

/-- A text that spells one value is, without blanks, the compact spelling of that value. -/
theorem unspaced_of_parseFirst? (h : parseFirst? source = some (value, rest))
    (hrest : (skipBlanks rest).isEmpty = true) : unspaced source = value.compact.text := by
  obtain ⟨-, -, hspelling⟩ := (takesSpelling _).value _ _ _ h
  have hempty : unspacedFrom false rest = [] := by
    rw [← unspacedFrom_skipBlanks, List.isEmpty_iff.mp hrest]
    rfl
  rw [unspacedFrom_skipBlanks, hempty, List.append_nil] at hspelling
  rw [unspaced, hspelling, String.ofList_toList]

theorem delimited_of_parseFirst? (h : parseFirst? source = some (value, rest)) :
    Delimited value :=
  ((takesSpelling _).value _ _ _ h).2.1

theorem compact_of_parseFirst? (h : parseFirst? source = some (value, rest)) :
    Compact value.compact :=
  ((takesReadable _).value _ _ _ h).compact_respell id

/-- Compact values are told apart by their texts. -/
theorem Compact.eq_of_text (h : Compact value) (hother : Compact other)
    (htext : value.text = other.text) : value = other := by
  have hparse := h.parse?_text
  rw [htext, hother.parse?_text] at hparse
  exact (Option.some.inj hparse).symm

end Documents

end StoredProc.Json
