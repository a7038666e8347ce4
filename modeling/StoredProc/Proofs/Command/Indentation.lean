import StoredProc.Proofs.Cache.Entries
import StoredProc.Proofs.Json.Indenting

/-! # Indented documents

An indented document differs from its compact spelling in blanks outside strings only. A
document that holds a number beyond the doubles is not indented at all, and the first such
number is reported; the document of a program holds none.
-/

namespace StoredProc

namespace Json

/-! ## Spelling up to blanks -/

/-- In front of any text, `text` without its blanks is `compact`. -/
def SpellsAs (text compact : List Char) : Prop :=
  ∀ rest, unspacedFrom false (text ++ rest) = compact ++ unspacedFrom false rest

namespace SpellsAs

theorem append {text compact other otherCompact : List Char} (h : SpellsAs text compact)
    (hother : SpellsAs other otherCompact) :
    SpellsAs (text ++ other) (compact ++ otherCompact) := by
  intro rest
  rw [List.append_assoc, h, hother, List.append_assoc]

theorem blanks {text : List Char} (h : ∀ c ∈ text, isBlank c = true) : SpellsAs text [] := by
  intro rest
  induction text with
  | nil => rfl
  | cons c text ih =>
      rw [List.forall_mem_cons] at h
      rw [List.cons_append, unspacedFrom_blank h.1, ih h.2]

theorem tokens {text : List Char} (h : ∀ c ∈ text, isToken c = true) : SpellsAs text text :=
  unspacedFrom_tokens h

/-- A string in quotes spells itself, blanks and all. -/
theorem quoted {written : List Char} (h : Written written) :
    SpellsAs ('"' :: written ++ ['"']) ('"' :: written ++ ['"']) := by
  intro rest
  rw [List.append_assoc, List.cons_append, unspacedFrom_quote, List.singleton_append,
    unspacedFrom_string (h rest)]
  simp

end SpellsAs

/-! ## Values -/

theorem itemsText_cons (item : Json) (rest : List Json) :
    itemsText (item :: rest) =
      item.text.toList ++ rest.flatMap fun other => ',' :: other.text.toList := by
  induction rest generalizing item with
  | nil => simp [itemsText_singleton]
  | cons next rest ih => simp [itemsText_cons_cons, ih]

theorem membersText_cons (member : String × Json) (rest : List (String × Json)) :
    membersText (member :: rest) =
      (memberText member).toList ++ rest.flatMap fun other => ',' :: (memberText other).toList := by
  induction rest generalizing member with
  | nil => simp [membersText_singleton]
  | cons next rest ih => simp [membersText_cons_cons, ih]

/-- A member has one blank between its name and its value. -/
theorem spellsAs_member {indent name : String} {depth : Nat} {value : Json}
    (hname : Written name.toList)
    (hvalue : SpellsAs (value.indentAt indent depth).toList value.compact.text.toList) :
    SpellsAs ("\"" ++ name ++ "\": " ++ value.indentAt indent depth).toList
      (memberText (name, value.compact)).toList := by
  have hcolon : SpellsAs ":".toList [':'] := .tokens (List.all_eq_true.mp rfl)
  have hblank : SpellsAs " ".toList [] := .blanks (List.all_eq_true.mp rfl)
  have hall := (((SpellsAs.quoted hname).append hcolon).append hblank).append hvalue
  simpa [toList_memberText] using hall

section Indenting

variable {indent : String} (hindent : ∀ c ∈ indent.toList, isBlank c = true)

include hindent

/-- A line break and the indentation behind it spell nothing. -/
theorem spellsAs_breakLine (depth : Nat) : SpellsAs (breakLine indent depth).toList [] := by
  apply SpellsAs.blanks
  rw [breakLine, String.toList_append, List.forall_mem_append]
  refine ⟨List.all_eq_true.mp rfl, ?_⟩
  induction depth with
  | zero => simp
  | succ depth ih =>
      rw [List.replicate_succ, String.join_cons, String.toList_append, List.forall_mem_append]
      exact ⟨hindent, ih⟩

/-- The items after the first spell what they spell without their lines. -/
theorem spellsAs_indentItems {depth : Nat} {items : List Json}
    (h : ∀ item ∈ items, SpellsAs (item.indentAt indent depth).toList item.compact.text.toList) :
    SpellsAs (indentItems indent depth items).toList
      (items.flatMap fun item => ',' :: item.compact.text.toList) := by
  induction items with
  | nil => exact .blanks (by simp [indentItems])
  | cons item items ih =>
      rw [List.forall_mem_cons] at h
      have hcomma : SpellsAs ",".toList [','] := .tokens (List.all_eq_true.mp rfl)
      have hall := ((hcomma.append (spellsAs_breakLine hindent depth)).append h.1).append (ih h.2)
      simpa [indentItems] using hall

/-- The members after the first spell what they spell without their lines. -/
theorem spellsAs_indentMembers {depth : Nat} {members : List (String × Json)}
    (hnames : ∀ member ∈ members, Written member.1.toList)
    (h : ∀ member ∈ members,
      SpellsAs (member.2.indentAt indent depth).toList member.2.compact.text.toList) :
    SpellsAs (indentMembers indent depth members).toList
      (members.flatMap fun member => ',' :: (memberText (member.1, member.2.compact)).toList) := by
  induction members with
  | nil => exact .blanks (by simp [indentMembers])
  | cons member members ih =>
      rw [List.forall_mem_cons] at hnames h
      have hcomma : SpellsAs ",".toList [','] := .tokens (List.all_eq_true.mp rfl)
      have hmember := spellsAs_member hnames.1 h.1
      have hall := ((hcomma.append (spellsAs_breakLine hindent depth)).append hmember).append
        (ih hnames.2 h.2)
      simpa [indentMembers] using hall

/-- The indented text of a value is its compact spelling with blanks between the tokens. -/
theorem Readable.spellsAs_indentAt {value : Json} (h : Readable value) (depth : Nat) :
    SpellsAs (value.indentAt indent depth).toList value.compact.text.toList := by
  induction h generalizing depth with
  | null =>
      simp only [indentAt]
      exact .tokens (List.all_eq_true.mp rfl)
  | bool value =>
      simp only [indentAt]
      cases value with
      | false => exact .tokens (List.all_eq_true.mp rfl)
      | true => exact .tokens (List.all_eq_true.mp rfl)
  | num hnumber =>
      simp only [indentAt]
      exact .tokens hnumber.isToken
  | str hwritten =>
      simp only [indentAt]
      simpa [compact, respell, text] using SpellsAs.quoted hwritten
  | @arr source items hitems ih =>
      rw [toList_text_compact_arr]
      cases items with
      | nil =>
          rw [indentAt]
          exact .tokens (List.all_eq_true.mp rfl)
      | cons item items =>
          rw [List.forall_mem_cons] at ih
          have hopen : SpellsAs "[".toList ['['] := .tokens (List.all_eq_true.mp rfl)
          have hclose : SpellsAs "]".toList [']'] := .tokens (List.all_eq_true.mp rfl)
          have hall := ((((hopen.append (spellsAs_breakLine hindent (depth + 1))).append
            (ih.1 (depth + 1))).append (spellsAs_indentItems hindent fun item hitem =>
              ih.2 item hitem (depth + 1))).append (spellsAs_breakLine hindent depth)).append hclose
          simpa [indentAt, itemsText_cons, List.flatMap_map] using hall
  | @obj source members hnames hvalues ih =>
      rw [toList_text_compact_obj]
      cases members with
      | nil =>
          rw [indentAt]
          exact .tokens (List.all_eq_true.mp rfl)
      | cons member members =>
          rw [List.forall_mem_cons] at ih hnames
          have hopen : SpellsAs "\x7b".toList ['\x7b'] := .tokens (List.all_eq_true.mp rfl)
          have hclose : SpellsAs "\x7d".toList ['\x7d'] := .tokens (List.all_eq_true.mp rfl)
          have hmember := spellsAs_member hnames.1 (ih.1 (depth + 1))
          have hall := ((((hopen.append (spellsAs_breakLine hindent (depth + 1))).append
            hmember).append (spellsAs_indentMembers hindent hnames.2 fun member hmember =>
              ih.2 member hmember (depth + 1))).append (spellsAs_breakLine hindent depth)).append
                hclose
          simpa [indentAt, compactMembers, membersText_cons, List.flatMap_map] using hall

end Indenting

/-! ## Documents -/

theorem Readable.unspaced_indented {value : Json} (h : Readable value) {indent : String}
    (hindent : ∀ c ∈ indent.toList, isBlank c = true) :
    unspaced (value.indented indent) = value.compact.text := by
  have hspells := h.spellsAs_indentAt hindent 0 []
  rw [List.append_nil, unspacedFrom, List.append_nil] at hspells
  rw [unspaced, indented, hspells, String.ofList_toList]

/-- Without its blanks a document is the compact spelling of its value. -/
theorem unspaced_of_parse? {document : String} {value : Json} (h : parse? document = some value) :
    unspaced document = value.compact.text := by
  obtain ⟨rest, hfound, hrest⟩ := exists_of_parse? h
  exact unspaced_of_parseFirst? hfound hrest

/-- A document is indented, and the blanks outside strings are all that its text has more. -/
def AddsBlanks (document : String) (indent : Int) : Prop :=
  ∃ text, indentText document indent = .ok text ∧ unspaced text = document

theorem indentText_zero (document : String) : indentText document 0 = .ok document := rfl

/-- A document is indented, unless one of its numbers is out of range. -/
theorem indentText_of_pos {document : String} {value : Json} (h : parse? document = some value)
    {indent : Int} (hindent : 0 < indent) :
    indentText document indent =
      match overflow? value.numbers with
      | some written => .error (.text (.numeral written .overflow))
      | none => .ok (value.indented (String.ofList (List.replicate indent.toNat ' '))) := by
  rw [indentText, if_neg (by omega), if_neg (by omega), reindent_of_parse? h]
  cases overflow? value.numbers with
  | some written => rfl
  | none => rfl

/-- A compact document is indented by blanks alone exactly if its numbers are in range, or if
it is left as it is. -/
theorem addsBlanks_iff {document : String} {value : Json} (hvalid : parse? document = some value)
    (hcompact : unspaced document = document) {indent : Int} (hindent : 0 ≤ indent) :
    AddsBlanks document indent ↔ indent = 0 ∨ value.inRange = true := by
  rcases hindent.eq_or_lt with rfl | hpos
  · exact iff_of_true ⟨document, indentText_zero document, hcompact⟩ (.inl rfl)
  · rw [AddsBlanks, indentText_of_pos hvalid hpos, or_iff_right (by omega),
      ← overflow?_eq_none_iff]
    cases overflow? value.numbers with
    | some written => simp
    | none =>
        have hblanks : ∀ c ∈ (String.ofList (List.replicate indent.toNat ' ')).toList,
            isBlank c = true := by
          rw [String.toList_ofList]
          intro c hc
          rw [List.eq_of_mem_replicate hc]
          rfl
        have htext := (readable_of_parse? hvalid).unspaced_indented hblanks
        rw [← unspaced_of_parse? hvalid, hcompact] at htext
        exact iff_of_true ⟨_, rfl, htext⟩ rfl

/-- A document that is not indented has a number out of range, and the first one is
reported. -/
theorem indentText_eq_error_iff {document : String} {value : Json}
    (hvalid : parse? document = some value) {indent : Int} (hindent : 0 ≤ indent)
    {cause : IndentError} :
    indentText document indent = .error cause ↔
      0 < indent ∧ ∃ written, overflow? value.numbers = some written ∧
        cause = .text (.numeral written .overflow) := by
  rcases hindent.eq_or_lt with rfl | hpos
  · simp [indentText_zero]
  · rw [indentText_of_pos hvalid hpos, and_iff_right hpos]
    cases overflow? value.numbers with
    | none => simp
    | some written => simp [eq_comm]

/-- A value in compact spelling is its own compact spelling. -/
theorem Compact.compact_eq {value : Json} (h : Compact value) : value.compact = value := by
  induction h with
  | null | bool | num | str => rfl
  | array hitems ih =>
      rw [Json.array, compact_arr]
      exact congrArg Json.array ((List.map_congr_left ih).trans (List.map_id _))
  | members hnames hvalues ih =>
      rw [Json.written, compact_obj, compactMembers]
      refine congrArg Json.written ?_
      refine (List.map_congr_left fun member hmember => ?_).trans (List.map_id _)
      exact Prod.ext rfl (ih member hmember)

theorem Compact.unspaced_text {value : Json} (h : Compact value) :
    unspaced value.text = value.text := by
  rw [unspaced_of_parse? h.parse?_text, h.compact_eq]

end Json

/-- Indentation adds nothing but blanks outside strings. A compact document is indented exactly
if its numbers are in the range of the doubles, or if the indentation is none. Of a document
that is not, the first number that is out of range is reported, and nothing else ever is. The
document of every program is indented. -/
theorem Json.indentText_addsBlanks :
    (∀ (document : String) (value : Json) (indent : Int), parse? document = some value →
      unspaced document = document → 0 ≤ indent →
      (AddsBlanks document indent ↔ indent = 0 ∨ value.inRange = true) ∧
      ∀ cause : IndentError, indentText document indent = .error cause ↔
        0 < indent ∧ ∃ written, overflow? value.numbers = some written ∧
          cause = .text (.numeral written .overflow)) ∧
    ∀ p : Program, (∀ entry ∈ p.procedures, ∀ op ∈ entry.2, op.data.Sound) →
      ∃ document, p.text? = some document ∧
        ∀ indent : Int, 0 ≤ indent → AddsBlanks document indent := by
  refine ⟨fun document value indent hvalid hcompact hindent =>
    ⟨addsBlanks_iff hvalid hcompact hindent, fun cause => indentText_eq_error_iff hvalid hindent⟩,
    fun p hoperands => ?_⟩
  obtain ⟨document, hdocument, hsettled⟩ := Program.exists_settled_document hoperands
  exact ⟨document.text, by rw [Program.text?, hdocument, Option.map_some],
    fun indent hindent => (addsBlanks_iff hsettled.compact.parse?_text
      hsettled.compact.unspaced_text hindent).mpr (.inr hsettled.inRange)⟩

/-- A list with blanks, quotes and brackets in its strings. -/
def Json.quotedBrackets : Json :=
  .array [.string "a b", .string "] \"", .int (-15), .object []]

theorem Json.settled_quotedBrackets : quotedBrackets.Settled := by
  refine settled_array ?_
  simp only [List.forall_mem_cons]
  exact ⟨settled_string _, settled_string _, settled_int (by unfold IsInt64; decide),
    settled_object (by simp), by simp⟩

/-- Brackets and quotes within strings are left alone, and the document of a program is
indented. -/
theorem Json.addsBlanks_quotedBrackets :
    parse? quotedBrackets.text = some quotedBrackets ∧
    unspaced quotedBrackets.text = quotedBrackets.text ∧
    AddsBlanks quotedBrackets.text 4 ∧
    (∀ entry ∈ Program.befriend.procedures, ∀ op ∈ entry.2, op.data.Sound) ∧
    ∃ document, Program.befriend.text? = some document ∧
      ∀ indent : Int, 0 ≤ indent → AddsBlanks document indent := by
  have hvalid := settled_quotedBrackets.compact.parse?_text
  have hcompact := settled_quotedBrackets.compact.unspaced_text
  have hsound : ∀ entry ∈ Program.befriend.procedures, ∀ op ∈ entry.2, op.data.Sound :=
    fun entry hentry op hop => (Program.built_befriend entry hentry op hop).sound
  refine ⟨hvalid, hcompact, ?_, hsound, indentText_addsBlanks.2 Program.befriend hsound⟩
  exact (indentText_addsBlanks.1 _ _ 4 hvalid hcompact (by decide)).1.mpr
    (.inr settled_quotedBrackets.inRange)

/-- A number beyond the doubles is a valid and compact document, but it is not indented: the
number is reported. -/
theorem Json.not_addsBlanks_hugeNumber :
    parse? "1e400" = some (.num "1e400") ∧ unspaced "1e400" = "1e400" ∧
      ¬ AddsBlanks "1e400" 2 ∧
      ∃ cause, indentText "1e400" 2 = .error cause ∧ cause.message "" =
        "strconv.ParseFloat: parsing \"1e400\": value out of range" := by
  have hnumber : IsNumber "1e400".toList :=
    @IsNumber.mk [] ['1'] [] ['e', '4', '0', '0'] (.inl rfl)
      ⟨by simp, List.all_eq_true.mp rfl, by simp⟩ (.inl rfl)
      (.inr (.plain (.inl rfl) ⟨by simp, List.all_eq_true.mp rfl⟩))
  have hvalid : parse? "1e400" = some (.num "1e400") := (Compact.num hnumber).parse?_text
  have hcompact : unspaced "1e400" = "1e400" := (Compact.num hnumber).unspaced_text
  have hrange : overflow? (Json.num "1e400").numbers = some "1e400" := by decide +kernel
  refine ⟨hvalid, hcompact, ?_, .text (.numeral "1e400" .overflow), ?_, by decide⟩
  · rw [addsBlanks_iff hvalid hcompact (by decide), ← overflow?_eq_none_iff, hrange]
    simp
  · exact (indentText_eq_error_iff hvalid (by decide)).mpr ⟨by decide, "1e400", hrange, rfl⟩

end StoredProc
