import StoredProc.Proofs.Json.Escapes
import StoredProc.Proofs.Json.Numerals

/-! # Compact documents

A value in the compact spelling is read from its text: the reader takes exactly the text
of the value from the front of whatever follows it. Every value that can be read has a
compact spelling, the one without the blanks.
-/

namespace StoredProc.Json

/-- A value in the compact spelling. -/
inductive Compact : Json → Prop
  | null : Compact .null
  | bool (value : Bool) : Compact (.bool value)
  | num {text : String} (hnumber : IsNumber text.toList) : Compact (.num text)
  | str {written : String} (hwritten : Written written.toList) : Compact (.str written)
  | array {items : List Json} (hitems : ∀ item ∈ items, Compact item) : Compact (array items)
  | members {members : List (String × Json)}
      (hnames : ∀ member ∈ members, Written member.1.toList)
      (hvalues : ∀ member ∈ members, Compact member.2) : Compact (written members)

/-- Whatever follows, the reader takes exactly this value, given fuel for its text. -/
def Reads (value : Json) : Prop :=
  ∀ fuel rest, Stops rest → 2 * value.text.length ≤ fuel →
    readValue fuel (value.text.toList ++ rest) = some (value, rest)

/-! ## Texts of lists and objects -/

/-- The texts of items with commas between them. -/
def itemsText (items : List Json) : List Char :=
  (",".intercalate (items.map text)).toList

/-- The texts of members with commas between them. -/
def membersText (members : List (String × Json)) : List Char :=
  (",".intercalate (members.map memberText)).toList

theorem itemsText_singleton (item : Json) : itemsText [item] = item.text.toList := by
  simp [itemsText]

theorem itemsText_cons_cons (item next : Json) (rest : List Json) :
    itemsText (item :: next :: rest) = item.text.toList ++ ',' :: itemsText (next :: rest) := by
  simp [itemsText, String.intercalate_cons_cons]

theorem toList_memberText (name : String) (value : Json) :
    (memberText (name, value)).toList = '"' :: name.toList ++ '"' :: ':' :: value.text.toList := by
  simp [memberText]

theorem membersText_singleton (member : String × Json) :
    membersText [member] = (memberText member).toList := by
  simp [membersText]

theorem membersText_cons_cons (member next : String × Json) (rest : List (String × Json)) :
    membersText (member :: next :: rest) =
      (memberText member).toList ++ ',' :: membersText (next :: rest) := by
  simp [membersText, String.intercalate_cons_cons]

theorem toList_text_array (items : List Json) :
    (array items).text.toList = '[' :: itemsText items ++ [']'] := by
  simp [array, text, itemsText]

theorem toList_text_written (members : List (String × Json)) :
    (written members).text.toList = '{' :: membersText members ++ ['}'] := by
  simp [written, text, membersText]

/-! ## The first character -/

theorem skipBlanks_cons {c : Char} (h : isBlank c = false) (rest : List Char) :
    skipBlanks (c :: rest) = c :: rest := by
  simp [skipBlanks, List.dropWhile, h]

/-- The text of a value starts with no blank and with no closing bracket. -/
theorem Compact.exists_cons {value : Json} (h : Compact value) :
    ∃ c tail, value.text.toList = c :: tail ∧ isBlank c = false ∧ c ≠ ']' := by
  cases h with
  | null => exact ⟨'n', _, rfl, by decide, by decide⟩
  | bool value =>
      cases value
      · exact ⟨'f', _, rfl, by decide, by decide⟩
      · exact ⟨'t', _, rfl, by decide, by decide⟩
  | @num number hnumber =>
      obtain ⟨c, tail, heq, hc⟩ := hnumber.exists_cons
      refine ⟨c, tail, heq, ?_, ?_⟩
      · by_contra hblank
        simp only [isBlank, Bool.or_eq_true, decide_eq_true_eq, Bool.not_eq_false] at hblank
        rcases hblank with ((rfl | rfl) | rfl) | rfl <;> simp_all
      · rintro rfl
        simp_all
  | str => exact ⟨'"', _, by simp [text]; rfl, by decide, by decide⟩
  | array => exact ⟨'[', _, toList_text_array _, by decide, by decide⟩
  | members => exact ⟨'{', _, toList_text_written _, by decide, by decide⟩

theorem Compact.exists_fuel {value : Json} (h : Compact value) {fuel : Nat}
    (hfuel : 2 * value.text.length ≤ fuel) : ∃ less, fuel = less + 1 := by
  obtain ⟨c, tail, heq, _⟩ := h.exists_cons
  rw [← String.length_toList, heq, List.length_cons] at hfuel
  exact ⟨fuel - 1, by omega⟩

theorem stops_comma (rest : List Char) : Stops (',' :: rest) := stops_cons (by decide) rest

theorem stops_bracket (rest : List Char) : Stops (']' :: rest) := stops_cons (by decide) rest

theorem stops_brace (rest : List Char) : Stops ('}' :: rest) := stops_cons (by decide) rest

/-! ## Reading -/

theorem consumed_append (source rest : List Char) :
    consumed (source ++ rest) rest = String.ofList source := by
  simp [consumed]

theorem readValue_number {c : Char} (hc : c = '-' ∨ c.isDigit = true) (fuel : Nat)
    (tail : List Char) : readValue (fuel + 1) (c :: tail) =
      (scanNumber (c :: tail)).map fun found => (.num (String.ofList found.1), found.2) := by
  rw [readValue]
  all_goals
    intro rest heq
    obtain ⟨rfl, _⟩ := List.cons.inj heq
    simp at hc

/-- Items start with their first character, which does not close the list. -/
theorem exists_cons_itemsText {item : Json} (h : Compact item) (items : List Json) :
    ∃ c tail, itemsText (item :: items) = c :: tail ∧ isBlank c = false ∧ c ≠ ']' := by
  obtain ⟨c, tail, heq, hc⟩ := h.exists_cons
  cases items with
  | nil => exact ⟨c, tail, by rw [itemsText_singleton, heq], hc⟩
  | cons next items => exact ⟨c, _, by rw [itemsText_cons_cons, heq]; rfl, hc⟩

/-- Items that are read one by one are read as a list. -/
theorem readItems_itemsText {items : List Json} (hne : items ≠ [])
    (hcompact : ∀ item ∈ items, Compact item) (hreads : ∀ item ∈ items, Reads item)
    (rest : List Char) (fuel : Nat) (hfuel : 2 * (itemsText items).length + 1 ≤ fuel) :
    readItems fuel (itemsText items ++ ']' :: rest) = some (items, rest) := by
  induction items generalizing fuel with
  | nil => exact absurd rfl hne
  | cons item items ih =>
      obtain ⟨fuel, rfl⟩ : ∃ k, fuel = k + 1 := ⟨fuel - 1, by omega⟩
      rw [List.forall_mem_cons] at hcompact hreads
      cases items with
      | nil =>
          rw [itemsText_singleton] at hfuel ⊢
          rw [String.length_toList] at hfuel
          rw [readItems, hreads.1 fuel _ (stops_bracket rest) (by omega)]
          rfl
      | cons next items =>
          obtain ⟨c, tail, heq, hblank, _⟩ :=
            exists_cons_itemsText (hcompact.2 next List.mem_cons_self) items
          rw [itemsText_cons_cons] at hfuel ⊢
          rw [List.length_append, List.length_cons, String.length_toList] at hfuel
          have hrest := ih (by simp) hcompact.2 hreads.2 fuel (by omega)
          rw [List.append_assoc, List.cons_append, readItems,
            hreads.1 fuel _ (stops_comma _) (by omega)]
          simp only [Option.bind_eq_bind, Option.bind_some, skipBlanks_cons (c := ',') (by decide)]
          rw [heq, List.cons_append] at hrest ⊢
          rw [skipBlanks_cons hblank, hrest]
          rfl

theorem exists_cons_membersText (member : String × Json) (members : List (String × Json)) :
    ∃ tail, membersText (member :: members) = '"' :: tail := by
  cases members with
  | nil => exact ⟨_, by rw [membersText_singleton, toList_memberText]; rfl⟩
  | cons next members => exact ⟨_, by rw [membersText_cons_cons, toList_memberText]; rfl⟩

/-- A member and what follows it. -/
theorem readMembers_memberText {name : String} (hname : Written name.toList) {value : Json}
    (hcompact : Compact value) (hreads : Reads value) {rest : List Char} (hrest : Stops rest)
    {fuel : Nat} (hfuel : 2 * value.text.length ≤ fuel) :
    readMembers (fuel + 1) ((memberText (name, value)).toList ++ rest) =
      match skipBlanks rest with
      | ',' :: rest => do
        let (members, rest) ← readMembers fuel (skipBlanks rest)
        return ((name, value) :: members, rest)
      | '}' :: rest => some ([(name, value)], rest)
      | _ => none := by
  obtain ⟨c, tail, heq, hblank, _⟩ := hcompact.exists_cons
  have hscan := hname (':' :: (value.text.toList ++ rest))
  have hvalue := hreads fuel rest hrest hfuel
  have hstart : skipBlanks (value.text.toList ++ rest) = value.text.toList ++ rest := by
    rw [heq, List.cons_append, skipBlanks_cons hblank]
  have htext : (memberText (name, value)).toList ++ rest =
      '"' :: (name.toList ++ '"' :: ':' :: (value.text.toList ++ rest)) := by
    simp [toList_memberText]
  have hread := readMembers.eq_def (fuel + 1)
    ('"' :: (name.toList ++ '"' :: ':' :: (value.text.toList ++ rest)))
  simp only [hscan, Option.bind_eq_bind, Option.bind_some, skipBlanks_cons (c := ':') (by decide),
    hstart, hvalue, String.ofList_toList] at hread
  rw [htext]
  exact hread

/-- Members that are read one by one are read as an object. -/
theorem readMembers_membersText {members : List (String × Json)} (hne : members ≠ [])
    (hnames : ∀ member ∈ members, Written member.1.toList)
    (hcompact : ∀ member ∈ members, Compact member.2) (hreads : ∀ member ∈ members, Reads member.2)
    (rest : List Char) (fuel : Nat) (hfuel : 2 * (membersText members).length + 1 ≤ fuel) :
    readMembers fuel (membersText members ++ '}' :: rest) = some (members, rest) := by
  induction members generalizing fuel with
  | nil => exact absurd rfl hne
  | cons member members ih =>
      obtain ⟨fuel, rfl⟩ : ∃ k, fuel = k + 1 := ⟨fuel - 1, by omega⟩
      obtain ⟨name, value⟩ := member
      rw [List.forall_mem_cons] at hnames hcompact hreads
      dsimp only at hnames hcompact hreads
      have hsize : value.text.length ≤ (memberText (name, value)).toList.length := by
        rw [toList_memberText]
        simp only [List.cons_append, List.length_cons, List.length_append, String.length_toList]
        omega
      cases members with
      | nil =>
          rw [membersText_singleton] at hfuel ⊢
          rw [readMembers_memberText hnames.1 hcompact.1 hreads.1 (stops_brace rest) (by omega),
            skipBlanks_cons (by decide)]
          rfl
      | cons next members =>
          obtain ⟨tail, heq⟩ := exists_cons_membersText next members
          rw [membersText_cons_cons] at hfuel ⊢
          rw [List.length_append, List.length_cons] at hfuel
          have htail := ih (by simp) hnames.2 hcompact.2 hreads.2 fuel (by omega)
          rw [List.append_assoc, List.cons_append,
            readMembers_memberText hnames.1 hcompact.1 hreads.1 (stops_comma _) (by omega),
            skipBlanks_cons (by decide)]
          rw [heq, List.cons_append] at htail ⊢
          simp only [skipBlanks_cons (c := '"') (by decide), htail]
          rfl

/-- The reader takes the text of a list. -/
theorem reads_array {items : List Json} (hcompact : ∀ item ∈ items, Compact item)
    (hreads : ∀ item ∈ items, Reads item) : Reads (array items) := by
  intro fuel rest _ hfuel
  have hlength : (array items).text.length = (itemsText items).length + 2 := by
    rw [← String.length_toList, toList_text_array]
    simp
  have hconsumed := consumed_append (array items).text.toList rest
  rw [String.ofList_toList] at hconsumed
  rw [toList_text_array] at hconsumed ⊢
  simp only [List.cons_append, List.append_assoc, List.nil_append] at hconsumed ⊢
  obtain ⟨fuel, rfl⟩ : ∃ k, fuel = k + 1 := ⟨fuel - 1, by omega⟩
  rw [readValue]
  cases items with
  | nil =>
      have hnil : itemsText [] = [] := rfl
      rw [hnil, List.nil_append] at hconsumed ⊢
      rw [skipBlanks_cons (by decide)]
      simp only [hconsumed]
      rfl
  | cons item items =>
      obtain ⟨c, tail, heq, hblank, hclose⟩ :=
        exists_cons_itemsText (hcompact item List.mem_cons_self) items
      have hitems := readItems_itemsText (by simp) hcompact hreads rest fuel (by omega)
      have hstart : skipBlanks (itemsText (item :: items) ++ ']' :: rest) =
          itemsText (item :: items) ++ ']' :: rest := by
        rw [heq, List.cons_append, skipBlanks_cons hblank]
      rw [hstart]
      split
      · next after hafter =>
          rw [heq] at hafter
          exact absurd (List.cons.inj hafter).1 hclose
      · rw [hitems]
        simp only [Option.bind_eq_bind, Option.bind_some, hconsumed]
        rfl

/-- The reader takes the text of an object. -/
theorem reads_written {members : List (String × Json)}
    (hnames : ∀ member ∈ members, Written member.1.toList)
    (hcompact : ∀ member ∈ members, Compact member.2)
    (hreads : ∀ member ∈ members, Reads member.2) : Reads (written members) := by
  intro fuel rest _ hfuel
  have hlength : (written members).text.length = (membersText members).length + 2 := by
    rw [← String.length_toList, toList_text_written]
    simp
  have hconsumed := consumed_append (written members).text.toList rest
  rw [String.ofList_toList] at hconsumed
  rw [toList_text_written] at hconsumed ⊢
  simp only [List.cons_append, List.append_assoc, List.nil_append] at hconsumed ⊢
  obtain ⟨fuel, rfl⟩ : ∃ k, fuel = k + 1 := ⟨fuel - 1, by omega⟩
  rw [readValue]
  cases members with
  | nil =>
      have hnil : membersText [] = [] := rfl
      rw [hnil, List.nil_append] at hconsumed ⊢
      rw [skipBlanks_cons (by decide)]
      simp only [hconsumed]
      rfl
  | cons member members =>
      obtain ⟨tail, heq⟩ := exists_cons_membersText member members
      have hmembers := readMembers_membersText (by simp) hnames hcompact hreads rest
        fuel (by omega)
      have hstart : skipBlanks (membersText (member :: members) ++ '}' :: rest) =
          membersText (member :: members) ++ '}' :: rest := by
        rw [heq, List.cons_append, skipBlanks_cons (by decide)]
      rw [hstart]
      split
      · next after hafter =>
          rw [heq] at hafter
          cases hafter
      · rw [hmembers]
        simp only [Option.bind_eq_bind, Option.bind_some, hconsumed]
        rfl

/-- The reader takes the text of a compact value, whatever follows it. -/
theorem Compact.reads {value : Json} (h : Compact value) : Reads value := by
  induction h with
  | null =>
      intro fuel rest _ hfuel
      obtain ⟨fuel, rfl⟩ := Compact.null.exists_fuel hfuel
      rfl
  | bool value =>
      intro fuel rest _ hfuel
      obtain ⟨fuel, rfl⟩ := (Compact.bool value).exists_fuel hfuel
      cases value <;> rfl
  | @num number hnumber =>
      intro fuel rest hrest hfuel
      obtain ⟨fuel, rfl⟩ := (Compact.num hnumber).exists_fuel hfuel
      have hscan := hnumber.scan hrest
      obtain ⟨c, tail, heq, hc⟩ := hnumber.exists_cons
      rw [text, heq, List.cons_append, readValue_number hc]
      rw [heq, List.cons_append] at hscan
      rw [hscan, Option.map_some, ← heq, String.ofList_toList]
  | @str written hwritten =>
      intro fuel rest _ hfuel
      obtain ⟨fuel, rfl⟩ := (Compact.str hwritten).exists_fuel hfuel
      have hscan := hwritten rest
      simp [text, readValue, hscan]
  | array hitems ih => exact reads_array hitems ih
  | members hnames hvalues ih => exact reads_written hnames hvalues ih

/-- The text of a compact value is read as that value, to its end. -/
theorem Compact.parseFirst?_text {value : Json} (h : Compact value) :
    parseFirst? value.text = some (value, []) := by
  obtain ⟨c, tail, heq, hblank, _⟩ := h.exists_cons
  have hread := h.reads (2 * value.text.toList.length + 1) [] stops_nil
    (by rw [String.length_toList]; omega)
  rw [List.append_nil] at hread
  have hstart : skipBlanks value.text.toList = value.text.toList := by
    rw [heq, skipBlanks_cons hblank]
  rw [parseFirst?, hstart, hread]

/-- A compact value is what its text spells. -/
theorem Compact.parse?_text {value : Json} (h : Compact value) :
    parse? value.text = some value := by
  rw [parse?, h.parseFirst?_text]
  rfl

theorem compact_string (s : String) : Compact (.string s) := .str (written_escape s)

theorem compact_object {members : List (String × Json)}
    (hvalues : ∀ member ∈ members, Compact member.2) : Compact (object members) := by
  refine .members ?_ ?_
  · intro member hmember
    obtain ⟨given, _, rfl⟩ := List.mem_map.mp hmember
    exact written_escape given.1
  · intro member hmember
    obtain ⟨given, hgiven, rfl⟩ := List.mem_map.mp hmember
    exact hvalues given hgiven

theorem mem_dictionary {members : List (String × Json)} {member : String × Json} :
    member ∈ (members.map fun member => (escape member.1, member.2)).mergeSort
      (fun a b => dictionaryKey a ≤ dictionaryKey b) ↔
      ∃ given ∈ members, (escape given.1, given.2) = member := by
  rw [List.mem_mergeSort, List.mem_map]

theorem compact_dictionary {members : List (String × Json)}
    (hvalues : ∀ member ∈ members, Compact member.2) : Compact (dictionary members) := by
  refine .members ?_ ?_
  · intro member hmember
    obtain ⟨given, _, rfl⟩ := mem_dictionary.mp hmember
    exact written_escape given.1
  · intro member hmember
    obtain ⟨given, hgiven, rfl⟩ := mem_dictionary.mp hmember
    exact hvalues given hgiven

end StoredProc.Json
