import StoredProc.Json.Indent
import StoredProc.Proofs.Json.Blanks
import StoredProc.Proofs.Number.Reading

/-! # Indenting while reading

The indenter reads a text on its own, from front to back. Where the text is a document, it
takes the same values as the reader and writes each of them indented, up to the first
number that is beyond the doubles.
-/

namespace StoredProc.Json

/-! ## The numbers of a value -/

mutual

/-- The numbers of a value, as they are written and in the order of the text. -/
def numbers : Json → List String
  | .num written => [written]
  | .arr _ items => itemsNumbers items
  | .obj _ members => membersNumbers members
  | _ => []

def itemsNumbers : List Json → List String
  | [] => []
  | item :: rest => item.numbers ++ itemsNumbers rest

def membersNumbers : List (String × Json) → List String
  | [] => []
  | (_, value) :: rest => value.numbers ++ membersNumbers rest

end

mutual

theorem inRange_eq_all (value : Json) : value.inRange = value.numbers.all numberInRange := by
  cases value with
  | null | bool | str => rfl
  | num written => simp [inRange, numbers]
  | arr source items => exact itemsInRange_eq_all items
  | obj source members => exact membersInRange_eq_all members

theorem itemsInRange_eq_all (items : List Json) :
    itemsInRange items = (itemsNumbers items).all numberInRange := by
  cases items with
  | nil => rfl
  | cons item rest =>
      rw [itemsInRange, itemsNumbers, List.all_append, inRange_eq_all item,
        itemsInRange_eq_all rest]

theorem membersInRange_eq_all (members : List (String × Json)) :
    membersInRange members = (membersNumbers members).all numberInRange := by
  cases members with
  | nil => rfl
  | cons member rest =>
      cases member with
      | mk name value =>
          rw [membersInRange, membersNumbers, List.all_append, inRange_eq_all value,
            membersInRange_eq_all rest]

end

/-- The first number that is out of range. -/
def overflow? (numbers : List String) : Option String :=
  numbers.find? fun written => !numberInRange written

theorem overflow?_eq_none_iff {value : Json} :
    overflow? value.numbers = none ↔ value.inRange = true := by
  rw [inRange_eq_all, overflow?, List.find?_eq_none, List.all_eq_true]
  simp

/-! ## What comes of indenting -/

/-- The indented text and what follows it, or the first of the numbers that is out of
range. -/
def indenting (numbers : List String) (text : String) (rest : List Char) :
    Except TextFault (String × List Char) :=
  match overflow? numbers with
  | some written => .error (.numeral written .overflow)
  | none => .ok (text, rest)

/-- Of two parts the first one with a number out of range is reported. -/
theorem indenting_bind {numbers others : List String} {text lines : String}
    {rest after : List Char} {next : String × List Char → Except TextFault (String × List Char)}
    (h : next (text, rest) = indenting others lines after) :
    (indenting numbers text rest >>= next) = indenting (numbers ++ others) lines after := by
  simp only [indenting, overflow?, List.find?_append] at h ⊢
  cases numbers.find? fun written => !numberInRange written with
  | some written => rfl
  | none => exact h

/-- A part without numbers may be written around a part that is indented. -/
theorem indenting_map {numbers : List String} {text lines : String} {rest after : List Char}
    {next : String × List Char → Except TextFault (String × List Char)}
    (h : next (text, rest) = .ok (lines, after)) :
    (indenting numbers text rest >>= next) = indenting numbers lines after := by
  have hall : (indenting numbers text rest >>= next) = indenting (numbers ++ []) lines after :=
    indenting_bind h
  rwa [List.append_nil] at hall

/-! ## Numbers -/

/-- Nothing at the front goes on with a number. -/
def EndsNumber (rest : List Char) : Prop := ∀ c ∈ rest.head?, Double.isNumberChar c = false

theorem not_isNumberChar_of_isBlank {c : Char} (h : isBlank c = true) :
    Double.isNumberChar c = false := by
  simp only [isBlank, Bool.or_eq_true, decide_eq_true_eq] at h
  obtain ((rfl | rfl) | rfl) | rfl := h <;> rfl

/-- Blanks end a number, and behind them nothing goes on with it. -/
theorem EndsNumber.of_skipBlanks {rest : List Char} (h : EndsNumber (skipBlanks rest)) :
    EndsNumber rest := by
  cases rest with
  | nil => exact h
  | cons first rest =>
      cases hblank : isBlank first with
      | false => rwa [skipBlanks_cons hblank] at h
      | true =>
          intro c hc
          cases hc
          exact not_isNumberChar_of_isBlank hblank

/-- A mark that is no part of a number ends it, with blanks in front or without. -/
theorem endsNumber_of_skipBlanks {rest tail : List Char} {mark : Char}
    (h : skipBlanks rest = mark :: tail) (hmark : Double.isNumberChar mark = false) :
    EndsNumber rest := by
  refine .of_skipBlanks ?_
  rw [h]
  intro c hc
  cases hc
  exact hmark

/-- The end of a text ends a number, with blanks in front or without. -/
theorem endsNumber_of_isEmpty {rest : List Char} (h : (skipBlanks rest).isEmpty = true) :
    EndsNumber rest := by
  refine .of_skipBlanks ?_
  rw [List.isEmpty_iff.mp h]
  simp [EndsNumber]

/-- A number in front of what ends it is taken as a whole. -/
theorem takeNumeral_append {number rest : List Char} (hnumber : IsNumber number)
    (hrest : EndsNumber rest) :
    takeNumeral (number ++ rest) =
      indenting [String.ofList number] (String.ofList number) rest := by
  have hspan := Text.span_append (Double.isNumberChar_of_isNumber hnumber) hrest
  obtain ⟨value, hvalue⟩ := Double.exists_read?_of_isNumber hnumber
  simp only [takeNumeral, hspan, hvalue, indenting, overflow?, numberInRange,
    List.find?_cons, List.find?_nil]
  cases value.isFinite <;> rfl

/-- A text that starts with a sign or a digit is indented as a number. -/
theorem reindentValue_number {indent : String} {fuel depth : Nat} {c : Char} {tail : List Char}
    (hc : c = '-' ∨ c.isDigit = true) :
    reindentValue indent (fuel + 1) depth (c :: tail) = takeNumeral (c :: tail) := by
  have hnumber : (decide (c = '-') || c.isDigit) = true := by simpa using hc
  have hne : ∀ d : Char, (decide (d = '-') || d.isDigit) = false → c ≠ d := by
    rintro d hd rfl
    rw [hnumber] at hd
    cases hd
  rw [reindentValue, if_pos hnumber]
  · exact fun _ h _ => hne 'n' rfl h
  · exact fun _ h _ => hne 't' rfl h
  · exact fun _ h _ => hne 'f' rfl h
  · exact hne '"' rfl
  · exact hne '[' rfl
  · exact hne '\x7b' rfl

/-! ## Lines -/

/-- The items of a list, each on a line of its own. -/
def itemLines (indent : String) (depth : Nat) : List Json → String
  | [] => ""
  | item :: rest =>
    breakLine indent depth ++ item.indentAt indent depth ++ indentItems indent depth rest

/-- The members of an object, each on a line of its own. -/
def memberLines (indent : String) (depth : Nat) : List (String × Json) → String
  | [] => ""
  | (name, value) :: rest =>
    breakLine indent depth ++ "\"" ++ name ++ "\": " ++ value.indentAt indent depth
      ++ indentMembers indent depth rest

section Lines

variable {indent : String} {depth : Nat}

theorem indentAt_arr {source : String} {items : List Json} (h : items ≠ []) :
    (Json.arr source items).indentAt indent depth =
      "[" ++ itemLines indent (depth + 1) items ++ breakLine indent depth ++ "]" := by
  obtain ⟨item, rest, rfl⟩ := List.exists_cons_of_ne_nil h
  simp only [indentAt, itemLines, String.append_assoc]

theorem indentAt_obj {source : String} {members : List (String × Json)} (h : members ≠ []) :
    (Json.obj source members).indentAt indent depth =
      "\x7b" ++ memberLines indent (depth + 1) members ++ breakLine indent depth ++ "\x7d" := by
  obtain ⟨⟨name, value⟩, rest, rfl⟩ := List.exists_cons_of_ne_nil h
  simp only [indentAt, memberLines, String.append_assoc]

theorem itemLines_cons {item : Json} {items : List Json} (h : items ≠ []) :
    itemLines indent depth (item :: items) =
      breakLine indent depth ++ item.indentAt indent depth ++ "," ++
        itemLines indent depth items := by
  obtain ⟨next, rest, rfl⟩ := List.exists_cons_of_ne_nil h
  simp only [itemLines, indentItems, String.append_assoc]

theorem memberLines_cons {name : String} {value : Json} {members : List (String × Json)}
    (h : members ≠ []) :
    memberLines indent depth ((name, value) :: members) =
      breakLine indent depth ++ "\"" ++ name ++ "\": " ++ value.indentAt indent depth ++ "," ++
        memberLines indent depth members := by
  obtain ⟨⟨next, other⟩, rest, rfl⟩ := List.exists_cons_of_ne_nil h
  simp only [memberLines, indentMembers, String.append_assoc]

end Lines

/-! ## Texts that can be read -/

/-- Where a reader takes something with this fuel, the indenter takes it as well, and indents
it or reports its first number that is out of range. -/
structure Reindents (indent : String) (fuel : Nat) : Prop where
  value : ∀ depth cs value rest, readValue fuel cs = some (value, rest) → EndsNumber rest →
    reindentValue indent fuel depth cs =
      indenting value.numbers (value.indentAt indent depth) rest
  items : ∀ depth cs items rest, readItems fuel cs = some (items, rest) →
    reindentItems indent fuel depth cs =
      indenting (itemsNumbers items) (itemLines indent depth items) rest
  members : ∀ depth cs members rest, readMembers fuel cs = some (members, rest) →
    reindentMembers indent fuel depth cs =
      indenting (membersNumbers members) (memberLines indent depth members) rest

section Agreement

variable {indent : String} {fuel : Nat}

theorem reindents_zero : Reindents indent 0 := by
  constructor <;> intro depth cs taken rest h <;> cases h

/-- The items of a list are indented one by one, and the first number out of range is reported,
whichever item it is in. -/
theorem reindentItems_succ (ih : Reindents indent fuel) {depth : Nat} {cs rest : List Char}
    {items : List Json} (h : readItems (fuel + 1) cs = some (items, rest)) :
    reindentItems indent (fuel + 1) depth cs =
      indenting (itemsNumbers items) (itemLines indent depth items) rest := by
  obtain ⟨item, after, hitem, hitems⟩ := exists_of_readItems h
  rw [reindentItems]
  rcases hitems with ⟨tail, others, htail, hothers, rfl⟩ | ⟨htail, rfl⟩
  · rw [ih.value depth cs item after hitem (endsNumber_of_skipBlanks htail rfl), itemsNumbers]
    apply indenting_bind
    simp only [htail]
    rw [ih.items depth _ others rest hothers]
    apply indenting_map
    obtain ⟨next, others, rfl⟩ := exists_cons_of_readItems hothers
    rw [itemLines_cons (List.cons_ne_nil next others)]
    rfl
  · rw [ih.value depth cs item after hitem (endsNumber_of_skipBlanks htail rfl), itemsNumbers,
      itemsNumbers, List.append_nil]
    apply indenting_map
    simp only [htail, itemLines, indentItems, String.append_empty]

/-- The members of an object are indented one by one, and the first number out of range is
reported, whichever member it is in. -/
theorem reindentMembers_succ (ih : Reindents indent fuel) {depth : Nat} {cs rest : List Char}
    {members : List (String × Json)} (h : readMembers (fuel + 1) cs = some (members, rest)) :
    reindentMembers indent (fuel + 1) depth cs =
      indenting (membersNumbers members) (memberLines indent depth members) rest := by
  obtain ⟨quoted, name, afterName, colon, value, after, rfl, hname, hcolon, hvalue, hmembers⟩ :=
    exists_of_readMembers h
  rw [reindentMembers]
  simp only [hname, hcolon]
  rcases hmembers with ⟨tail, others, htail, hothers, rfl⟩ | ⟨htail, rfl⟩
  · rw [ih.value depth _ value after hvalue (endsNumber_of_skipBlanks htail rfl), membersNumbers]
    apply indenting_bind
    simp only [htail]
    rw [ih.members depth _ others rest hothers]
    apply indenting_map
    obtain ⟨next, others, rfl⟩ := exists_cons_of_readMembers hothers
    rw [memberLines_cons (List.cons_ne_nil next others)]
    rfl
  · rw [ih.value depth _ value after hvalue (endsNumber_of_skipBlanks htail rfl), membersNumbers,
      membersNumbers, List.append_nil]
    apply indenting_map
    simp only [htail, memberLines, indentMembers, String.append_empty]

/-- The indenter takes what the reader takes, by the same first character. -/
theorem reindentValue_succ (ih : Reindents indent fuel) {depth : Nat} {cs rest : List Char}
    {value : Json} (h : readValue (fuel + 1) cs = some (value, rest)) (hrest : EndsNumber rest) :
    reindentValue indent (fuel + 1) depth cs =
      indenting value.numbers (value.indentAt indent depth) rest := by
  cases takes_of_readValue h with
  | null | truth | falsity => rfl
  | string hfound =>
      simp only [reindentValue, hfound]
      rfl
  | noItems hafter | noMembers hafter =>
      simp only [reindentValue, hafter]
      rfl
  | items hopen hitems =>
      rw [reindentValue]
      split
      next after hafter => exact (hopen after hafter).elim
      next =>
        rw [ih.items _ _ _ _ hitems]
        apply indenting_map
        obtain ⟨first, others, rfl⟩ := exists_cons_of_readItems hitems
        rw [indentAt_arr (List.cons_ne_nil first others)]
        rfl
  | members hopen hmembers =>
      rw [reindentValue]
      split
      next after hafter => exact (hopen after hafter).elim
      next =>
        rw [ih.members _ _ _ _ hmembers]
        apply indenting_map
        obtain ⟨first, others, rfl⟩ := exists_cons_of_readMembers hmembers
        rw [indentAt_obj (List.cons_ne_nil first others)]
        rfl
  | number hfound =>
      have hnumber := isNumber_of_scanNumber hfound
      have htake := takeNumeral_append hnumber hrest
      obtain ⟨c, tail, rfl, hc⟩ := hnumber.exists_cons
      rw [append_of_scanNumber hfound]
      exact (reindentValue_number hc).trans htake

/-- The indenter agrees with the reader, whatever the fuel. -/
theorem reindents (fuel : Nat) : Reindents indent fuel := by
  induction fuel with
  | zero => exact reindents_zero
  | succ fuel ih =>
      exact ⟨fun _ _ _ _ => reindentValue_succ ih, fun _ _ _ _ => reindentItems_succ ih,
        fun _ _ _ _ => reindentMembers_succ ih⟩

end Agreement

/-- A document is indented, unless one of its numbers is out of range: then the first such
number of the text is reported. -/
theorem reindent_of_parse? {document : String} {value : Json} (h : parse? document = some value)
    (indent : String) :
    reindent indent document =
      match overflow? value.numbers with
      | some written => .error (.numeral written .overflow)
      | none => .ok (value.indented indent) := by
  obtain ⟨rest, hfound, hrest⟩ := exists_of_parse? h
  rw [parseFirst?] at hfound
  rw [reindent]
  dsimp only
  rw [(reindents _).value _ _ _ _ hfound (endsNumber_of_isEmpty hrest), indenting]
  cases overflow? value.numbers with
  | some written => rfl
  | none => exact if_pos hrest

end StoredProc.Json
