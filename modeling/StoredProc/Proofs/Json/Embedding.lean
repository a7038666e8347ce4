import StoredProc.Json.Range
import StoredProc.Proofs.Json.Spelling

/-! # Embedded values

The value of a text gets the compact spelling inside a document that the program writes.
Embedding is settled after one time: the text of an embedded value embeds as the same value.
-/

namespace StoredProc.Json

/-! ## Respelling -/

section Respelling

variable {spell : String → String}

theorem respellItems_eq_map (items : List Json) :
    respellItems spell items = items.map (respell spell) := by
  induction items with
  | nil => rfl
  | cons item items ih => rw [respellItems, ih, List.map_cons]

theorem respellMembers_eq_map (members : List (String × Json)) :
    respellMembers spell members =
      members.map fun member => (spell member.1, member.2.respell spell) := by
  induction members with
  | nil => rfl
  | cons member members ih => rw [respellMembers, ih, List.map_cons]

mutual

theorem respell_respell (h : ∀ written, spell (spell written) = spell written) :
    ∀ value : Json, (value.respell spell).respell spell = value.respell spell
  | .null | .bool _ | .num _ => rfl
  | .str written => congrArg Json.str (h written)
  | .arr _ items => congrArg array (respellItems_respellItems h items)
  | .obj _ members => congrArg written (respellMembers_respellMembers h members)

theorem respellItems_respellItems (h : ∀ written, spell (spell written) = spell written) :
    ∀ items : List Json, respellItems spell (respellItems spell items) = respellItems spell items
  | [] => rfl
  | item :: items => by
      rw [respellItems, respellItems, respell_respell h item, respellItems_respellItems h items]

theorem respellMembers_respellMembers (h : ∀ written, spell (spell written) = spell written) :
    ∀ members : List (String × Json),
      respellMembers spell (respellMembers spell members) = respellMembers spell members
  | [] => rfl
  | (name, value) :: members => by
      rw [respellMembers, respellMembers, h name, respell_respell h value,
        respellMembers_respellMembers h members]

end

mutual

theorem inRange_respell : ∀ value : Json, (value.respell spell).inRange = value.inRange
  | .null | .bool _ | .num _ | .str _ => rfl
  | .arr _ items => itemsInRange_respellItems items
  | .obj _ members => membersInRange_respellMembers members

theorem itemsInRange_respellItems :
    ∀ items : List Json, itemsInRange (respellItems spell items) = itemsInRange items
  | [] => rfl
  | item :: items => by
      rw [respellItems, itemsInRange, itemsInRange, inRange_respell item,
        itemsInRange_respellItems items]

theorem membersInRange_respellMembers :
    ∀ members : List (String × Json),
      membersInRange (respellMembers spell members) = membersInRange members
  | [] => rfl
  | (name, value) :: members => by
      rw [respellMembers, membersInRange, membersInRange, inRange_respell value,
        membersInRange_respellMembers members]

end

end Respelling

theorem itemsInRange_iff {items : List Json} :
    itemsInRange items = true ↔ ∀ item ∈ items, item.inRange = true := by
  induction items with
  | nil => simp [itemsInRange]
  | cons item items ih => simp [itemsInRange, ih]

theorem membersInRange_iff {members : List (String × Json)} :
    membersInRange members = true ↔ ∀ member ∈ members, member.2.inRange = true := by
  induction members with
  | nil => simp [membersInRange]
  | cons member members ih => simp [membersInRange, ih]

/-! ## Lists that were read -/

/-- Behind each item stands a comma and the items that follow, or the closing bracket. -/
theorem exists_of_readItems {fuel : Nat} {cs rest : List Char} {items : List Json}
    (h : readItems (fuel + 1) cs = some (items, rest)) :
    ∃ item after, readValue fuel cs = some (item, after) ∧
      ((∃ tail others, skipBlanks after = ',' :: tail ∧
          readItems fuel (skipBlanks tail) = some (others, rest) ∧ items = item :: others) ∨
        skipBlanks after = ']' :: rest ∧ items = [item]) := by
  simp only [readItems, Option.bind_eq_bind, Option.bind_eq_some_iff] at h
  obtain ⟨⟨item, after⟩, hitem, h⟩ := h
  refine ⟨item, after, hitem, ?_⟩
  dsimp only at h
  split at h
  next tail htail =>
    simp only [Option.pure_def, Option.bind_eq_some_iff, Option.some.injEq, Prod.mk.injEq] at h
    obtain ⟨⟨others, _⟩, hothers, rfl, rfl⟩ := h
    exact .inl ⟨tail, others, htail, hothers, rfl⟩
  next tail htail =>
    cases h
    exact .inr ⟨htail, rfl⟩
  next => cases h

/-- A member is a name in quotes, a colon and a value. Behind it stands a comma and the
members that follow, or the closing brace. -/
theorem exists_of_readMembers {fuel : Nat} {cs rest : List Char} {members : List (String × Json)}
    (h : readMembers (fuel + 1) cs = some (members, rest)) :
    ∃ quoted name afterName colon value after, cs = '"' :: quoted ∧
      scanString quoted = some (name, afterName) ∧ skipBlanks afterName = ':' :: colon ∧
      readValue fuel (skipBlanks colon) = some (value, after) ∧
      ((∃ tail others, skipBlanks after = ',' :: tail ∧
          readMembers fuel (skipBlanks tail) = some (others, rest) ∧
          members = (String.ofList name, value) :: others) ∨
        skipBlanks after = '}' :: rest ∧ members = [(String.ofList name, value)]) := by
  unfold readMembers at h
  dsimp only at h
  split at h
  next quoted =>
    simp only [Option.bind_eq_bind, Option.bind_eq_some_iff] at h
    obtain ⟨⟨name, afterName⟩, hname, h⟩ := h
    dsimp only at h
    split at h
    next colon hcolon =>
      simp only [Option.bind_eq_some_iff] at h
      obtain ⟨⟨value, after⟩, hvalue, h⟩ := h
      refine ⟨quoted, name, afterName, colon, value, after, rfl, hname, hcolon, hvalue, ?_⟩
      dsimp only at h
      split at h
      next tail htail =>
        simp only [Option.pure_def, Option.bind_eq_some_iff, Option.some.injEq,
          Prod.mk.injEq] at h
        obtain ⟨⟨others, _⟩, hothers, rfl, rfl⟩ := h
        exact .inl ⟨tail, others, htail, hothers, rfl⟩
      next tail htail =>
        cases h
        exact .inr ⟨htail, rfl⟩
      next => cases h
    next => cases h
  next => cases h

/-- What the reader of values takes, with this fuel for the parts. -/
inductive Takes (fuel : Nat) : List Char → Json → List Char → Prop
  | null (rest : List Char) : Takes fuel ('n' :: 'u' :: 'l' :: 'l' :: rest) .null rest
  | truth (rest : List Char) : Takes fuel ('t' :: 'r' :: 'u' :: 'e' :: rest) (.bool true) rest
  | falsity (rest : List Char) :
      Takes fuel ('f' :: 'a' :: 'l' :: 's' :: 'e' :: rest) (.bool false) rest
  | string {cs written rest : List Char} (h : scanString cs = some (written, rest)) :
      Takes fuel ('"' :: cs) (.str (String.ofList written)) rest
  | noItems {cs rest : List Char} (h : skipBlanks cs = ']' :: rest) :
      Takes fuel ('[' :: cs) (.arr (consumed ('[' :: cs) rest) []) rest
  | items {cs rest : List Char} {items : List Json} (hopen : ∀ after, skipBlanks cs ≠ ']' :: after)
      (h : readItems fuel (skipBlanks cs) = some (items, rest)) :
      Takes fuel ('[' :: cs) (.arr (consumed ('[' :: cs) rest) items) rest
  | noMembers {cs rest : List Char} (h : skipBlanks cs = '}' :: rest) :
      Takes fuel ('{' :: cs) (.obj (consumed ('{' :: cs) rest) []) rest
  | members {cs rest : List Char} {members : List (String × Json)}
      (hopen : ∀ after, skipBlanks cs ≠ '}' :: after)
      (h : readMembers fuel (skipBlanks cs) = some (members, rest)) :
      Takes fuel ('{' :: cs) (.obj (consumed ('{' :: cs) rest) members) rest
  | number {cs number rest : List Char} (h : scanNumber cs = some (number, rest)) :
      Takes fuel cs (.num (String.ofList number)) rest

/-- One step of the reader: the first character tells what kind of value is taken. -/
theorem takes_of_readValue {fuel : Nat} {cs rest : List Char} {value : Json}
    (h : readValue (fuel + 1) cs = some (value, rest)) : Takes fuel cs value rest := by
  unfold readValue at h
  dsimp only at h
  split at h
  · cases h
    exact .null rest
  · cases h
    exact .truth rest
  · cases h
    exact .falsity rest
  · obtain ⟨⟨written, after⟩, hfound, heq⟩ := Option.map_eq_some_iff.mp h
    cases heq
    exact .string hfound
  · split at h
    next after hafter =>
      cases h
      exact .noItems hafter
    next hopen =>
      obtain ⟨⟨items, after⟩, hitems, heq⟩ := Option.bind_eq_some_iff.mp h
      cases heq
      exact .items hopen hitems
  · split at h
    next after hafter =>
      cases h
      exact .noMembers hafter
    next hopen =>
      obtain ⟨⟨members, after⟩, hmembers, heq⟩ := Option.bind_eq_some_iff.mp h
      cases heq
      exact .members hopen hmembers
  · obtain ⟨⟨number, after⟩, hfound, heq⟩ := Option.map_eq_some_iff.mp h
    cases heq
    exact .number hfound

/-! ## Values that were read -/

/-- A value whose numbers are of the grammar and whose strings may stand between quotes,
with whatever blanks. -/
inductive Readable : Json → Prop
  | null : Readable .null
  | bool (value : Bool) : Readable (.bool value)
  | num {text : String} (hnumber : IsNumber text.toList) : Readable (.num text)
  | str {written : String} (hwritten : Written written.toList) : Readable (.str written)
  | arr {source : String} {items : List Json} (hitems : ∀ item ∈ items, Readable item) :
      Readable (.arr source items)
  | obj {source : String} {members : List (String × Json)}
      (hnames : ∀ member ∈ members, Written member.1.toList)
      (hvalues : ∀ member ∈ members, Readable member.2) : Readable (.obj source members)

/-- What the three readers take with this fuel is readable. -/
structure TakesReadable (fuel : Nat) : Prop where
  value : ∀ cs value rest, readValue fuel cs = some (value, rest) → Readable value
  items : ∀ cs items rest, readItems fuel cs = some (items, rest) →
    ∀ item ∈ items, Readable item
  members : ∀ cs members rest, readMembers fuel cs = some (members, rest) →
    ∀ member ∈ members, Written member.1.toList ∧ Readable member.2

theorem takesReadable_zero : TakesReadable 0 := by
  constructor <;> intro cs taken rest h <;> cases h

/-- A value is readable if what it is made of is, which took less fuel. -/
theorem readable_of_readValue_succ {fuel : Nat} (ih : TakesReadable fuel) {cs rest : List Char}
    {value : Json} (h : readValue (fuel + 1) cs = some (value, rest)) : Readable value := by
  cases takes_of_readValue h with
  | null => exact .null
  | truth => exact .bool true
  | falsity => exact .bool false
  | string hfound =>
      refine .str ?_
      rw [String.toList_ofList]
      exact written_of_scanString hfound
  | noItems => exact .arr (by simp)
  | items _ hitems => exact .arr (ih.items _ _ _ hitems)
  | noMembers => exact .obj (by simp) (by simp)
  | members _ hmembers =>
      have hreadable := ih.members _ _ _ hmembers
      exact .obj (fun member hmember => (hreadable member hmember).1)
        fun member hmember => (hreadable member hmember).2
  | number hfound =>
      refine .num ?_
      rw [String.toList_ofList]
      exact isNumber_of_scanNumber hfound

/-- One more unit of fuel lets each reader call the others. -/
-- The three readers call each other with less fuel, so one step needs all three facts.
theorem takesReadable_succ {fuel : Nat} (ih : TakesReadable fuel) : TakesReadable (fuel + 1) := by
  refine ⟨fun cs value rest => readable_of_readValue_succ ih, ?_, ?_⟩
  · intro cs items rest h
    obtain ⟨item, after, hitem, hitems⟩ := exists_of_readItems h
    have hreadable := ih.value _ _ _ hitem
    rcases hitems with ⟨tail, others, _, hothers, rfl⟩ | ⟨_, rfl⟩
    · exact List.forall_mem_cons.mpr ⟨hreadable, ih.items _ _ _ hothers⟩
    · exact List.forall_mem_singleton.mpr hreadable
  · intro cs members rest h
    obtain ⟨_, name, _, _, value, _, _, hname, _, hvalue, hmembers⟩ := exists_of_readMembers h
    have hwritten : Written (String.ofList name).toList := by
      rw [String.toList_ofList]
      exact written_of_scanString hname
    have hreadable := ih.value _ _ _ hvalue
    rcases hmembers with ⟨tail, others, _, hothers, rfl⟩ | ⟨_, rfl⟩
    · exact List.forall_mem_cons.mpr ⟨⟨hwritten, hreadable⟩, ih.members _ _ _ hothers⟩
    · exact List.forall_mem_singleton.mpr ⟨hwritten, hreadable⟩

theorem takesReadable (fuel : Nat) : TakesReadable fuel := by
  induction fuel with
  | zero => exact takesReadable_zero
  | succ fuel ih => exact takesReadable_succ ih

/-- A document is one value with nothing but blanks behind it. -/
theorem exists_of_parse? {source : String} {value : Json} (h : parse? source = some value) :
    ∃ rest, parseFirst? source = some (value, rest) ∧ (skipBlanks rest).isEmpty = true := by
  simp only [parse?, Option.bind_eq_bind, Option.bind_eq_some_iff] at h
  obtain ⟨⟨found, rest⟩, hfound, h⟩ := h
  dsimp only at h
  split at h
  next hrest =>
    cases h
    exact ⟨rest, hfound, hrest⟩
  next => cases h

theorem readable_of_parse? {source : String} {value : Json} (h : parse? source = some value) :
    Readable value := by
  obtain ⟨rest, hfound, _⟩ := exists_of_parse? h
  exact (takesReadable _).value _ _ _ hfound

/-- Without its blanks a value is compact. -/
theorem Readable.compact_respell {value : Json} (h : Readable value) {spell : String → String}
    (hspell : ∀ {written}, Written written.toList → Written (spell written).toList) :
    Compact (value.respell spell) := by
  induction h with
  | null => exact .null
  | bool value => exact .bool value
  | num hnumber => exact .num hnumber
  | str hwritten => exact .str (hspell hwritten)
  | arr hitems ih =>
      rw [respell, respellItems_eq_map]
      exact .array (List.forall_mem_map.mpr ih)
  | obj hnames hvalues ih =>
      rw [respell, respellMembers_eq_map]
      exact .members (List.forall_mem_map.mpr fun member hmember => hspell (hnames member hmember))
        (List.forall_mem_map.mpr ih)

/-! ## Settled values -/

/-- A value that is already spelled as inside a document, with its numbers in range. -/
structure Settled (value : Json) : Prop where
  compact : Compact value
  inRange : value.inRange = true
  embedded : value.embedded = value

/-- A settled value is what its text embeds. -/
theorem Settled.embed?_text {value : Json} (h : Settled value) :
    embed? value.text = some value := by
  rw [embed?, parseInRange?, h.compact.parse?_text]
  dsimp only
  rw [if_pos h.inRange, Option.map_some, h.embedded]

/-- Embedded values are settled. -/
theorem settled_of_embed? {source : String} {value : Json} (h : embed? source = some value) :
    Settled value := by
  obtain ⟨read, hread, rfl⟩ := Option.map_eq_some_iff.mp h
  rw [parseInRange?] at hread
  split at hread
  next parsed hparse =>
    split at hread
    next hrange =>
      cases hread
      exact ⟨(readable_of_parse? hparse).compact_respell written_escapeMarkup,
        (inRange_respell read).trans hrange, respell_respell escapeMarkup_escapeMarkup read⟩
    next => cases hread
  next => cases hread

theorem settled_null : Settled .null := ⟨.null, rfl, rfl⟩

theorem settled_bool (value : Bool) : Settled (.bool value) := ⟨.bool value, rfl, rfl⟩

theorem settled_num {text : String} (hnumber : IsNumber text.toList)
    (hrange : numberInRange text = true) : Settled (.num text) := ⟨.num hnumber, hrange, rfl⟩

theorem settled_string (s : String) : Settled (.string s) :=
  ⟨compact_string s, rfl, congrArg Json.str (escapeMarkup_escape s)⟩

theorem settled_array {items : List Json} (h : ∀ item ∈ items, Settled item) :
    Settled (array items) := by
  refine ⟨.array fun item hitem => (h item hitem).compact,
    itemsInRange_iff.mpr fun item hitem => (h item hitem).inRange, ?_⟩
  have hitems : respellItems escapeMarkup items = items := by
    rw [respellItems_eq_map]
    exact (List.map_congr_left fun item hitem => (h item hitem).embedded).trans (List.map_id items)
  exact congrArg array hitems

/-- An object is settled if its values are and its names were escaped. -/
theorem settled_written {members : List (String × Json)}
    (hnames : ∀ member ∈ members, ∃ name, member.1 = escape name)
    (h : ∀ member ∈ members, Settled member.2) : Settled (written members) := by
  refine ⟨.members ?_ fun member hmember => (h member hmember).compact,
    membersInRange_iff.mpr fun member hmember => (h member hmember).inRange, ?_⟩
  · intro member hmember
    obtain ⟨name, hname⟩ := hnames member hmember
    rw [hname]
    exact written_escape name
  · have hmembers : respellMembers escapeMarkup members = members := by
      rw [respellMembers_eq_map]
      refine (List.map_congr_left fun member hmember => ?_).trans (List.map_id members)
      obtain ⟨name, hname⟩ := hnames member hmember
      exact Prod.ext (by simp [hname]) (h member hmember).embedded
    exact congrArg written hmembers

theorem settled_object {members : List (String × Json)}
    (h : ∀ member ∈ members, Settled member.2) : Settled (object members) := by
  refine settled_written ?_ ?_
  · intro member hmember
    obtain ⟨given, _, rfl⟩ := List.mem_map.mp hmember
    exact ⟨given.1, rfl⟩
  · intro member hmember
    obtain ⟨given, hgiven, rfl⟩ := List.mem_map.mp hmember
    exact h given hgiven

theorem settled_dictionary {members : List (String × Json)}
    (h : ∀ member ∈ members, Settled member.2) : Settled (dictionary members) := by
  refine settled_written ?_ ?_
  · intro member hmember
    obtain ⟨given, _, rfl⟩ := mem_dictionary.mp hmember
    exact ⟨given.1, rfl⟩
  · intro member hmember
    obtain ⟨given, hgiven, rfl⟩ := mem_dictionary.mp hmember
    exact h given hgiven

end StoredProc.Json
