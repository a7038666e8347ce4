import StoredProc.Machine.Instruction
import StoredProc.Proofs.Json.Spelling
import StoredProc.Proofs.Number.Layouts

/-! # Lines of listings

A listing has one line for each operation. An instruction is shown on one line whatever
its payload holds, since texts are shown with their escapes. A line starts with the
address of its operation, and no two addresses are written alike.
-/

namespace StoredProc

/-! ## Texts on one line -/

def OneLine (text : String) : Prop := '\n' ∉ text.toList

instance (text : String) : Decidable (OneLine text) :=
  inferInstanceAs (Decidable ('\n' ∉ text.toList))

theorem oneLine_append {first second : String} :
    OneLine (first ++ second) ↔ OneLine first ∧ OneLine second := by
  simp only [OneLine, String.toList_append, List.mem_append, not_or]

/-- Parts on one line stay there, with a separator that breaks none. -/
theorem oneLine_intercalate {separator : String} (hseparator : OneLine separator)
    {parts : List String} (h : ∀ part ∈ parts, OneLine part) :
    OneLine (separator.intercalate parts) := by
  induction parts with
  | nil => exact List.not_mem_nil
  | cons part parts ih =>
      rw [List.forall_mem_cons] at h
      cases parts with
      | nil =>
          rw [String.intercalate_singleton]
          exact h.1
      | cons next parts =>
          rw [String.intercalate_cons_cons]
          exact oneLine_append.mpr ⟨oneLine_append.mpr ⟨h.1, hseparator⟩, ih h.2⟩

/-! ## Numbers -/

namespace Double

theorem isNumberChar_of_mem_toDigits {n : Nat} : ∀ c ∈ Nat.toDigits 10 n, isNumberChar c = true :=
  fun c hc => isNumberChar_of_isDigit (isDigit_toDigits n c hc)

theorem isNumberChar_of_mem_padded {width n : Nat} :
    ∀ c ∈ padded width n, isNumberChar c = true :=
  fun c hc => isNumberChar_of_isDigit (isDigit_padded width n c hc)

/-- Digits and a point write a number in positional notation. -/
theorem isNumberChar_positional (d : Decimal) : ∀ c ∈ positional d, isNumberChar c = true := by
  rw [positional]
  split
  · rw [List.forall_mem_append]
    refine ⟨isNumberChar_of_mem_toDigits, fun c hc => ?_⟩
    rw [List.eq_of_mem_replicate hc]
    rfl
  · rw [List.forall_mem_append, List.forall_mem_cons]
    exact ⟨fun c hc => isNumberChar_of_mem_padded c (List.mem_of_mem_take hc), rfl,
      fun c hc => isNumberChar_of_mem_padded c (List.mem_of_mem_drop hc)⟩

/-- Digits, a point, a mark and a sign write a number in scientific notation. -/
theorem isNumberChar_scientific (d : Decimal) : ∀ c ∈ scientific d, isNumberChar c = true := by
  rw [scientific, List.forall_mem_append, List.forall_mem_append, List.forall_mem_cons,
    List.forall_mem_cons]
  refine ⟨⟨fun c hc => isNumberChar_of_mem_toDigits c (List.mem_of_mem_take hc), ?_⟩, rfl, ?_,
    isNumberChar_of_mem_padded⟩
  · split
    · simp
    · exact List.forall_mem_cons.mpr
        ⟨rfl, fun c hc => isNumberChar_of_mem_toDigits c (List.mem_of_mem_drop hc)⟩
  · split <;> rfl

theorem isNumberChar_general (d : Decimal) : ∀ c ∈ general d, isNumberChar c = true := by
  rw [general]
  split
  · exact isNumberChar_scientific d
  · exact isNumberChar_positional d

/-- The text of a double has characters of numbers only. -/
theorem isNumberChar_text? {value : Double} {text : String} (h : value.text? = some text) :
    ∀ c ∈ text.toList, isNumberChar c = true := by
  cases value with
  | finite negative mantissa exponent =>
      have hgeneral := isNumberChar_general (shortest mantissa exponent)
      cases h
      rw [String.toList_ofList, List.forall_mem_append]
      constructor
      · cases negative <;> simp [isNumberChar]
      · split
        · exact hgeneral
        · exact List.forall_mem_append.mpr ⟨hgeneral, by simp [isNumberChar]⟩
  | _ => cases h

end Double

theorem oneLine_of_isNumberChar {text : String}
    (h : ∀ c ∈ text.toList, Double.isNumberChar c = true) : OneLine text :=
  fun hbreak => Bool.false_ne_true (h '\n' hbreak)

/-! ## JSON -/

namespace Json

/-- A line break is escaped. -/
theorem newline_notMem_escapeChar (c : Char) : '\n' ∉ escapeChar c := by
  have hhex : '\n' ∉ Text.hexDigits 4 c.toNat := by
    have hdigit : ∀ digit < 16, Nat.digitChar digit ≠ '\n' := by decide
    have hmod : ∀ k, Nat.digitChar (k % 16) ≠ '\n' := fun k =>
      hdigit _ (Nat.mod_lt k (by decide))
    simp [hexDigits_four, (hmod _).symm]
  by_cases hc : c = '\n'
  · subst hc
    decide
  · simp only [escapeChar, if_neg hc]
    split_ifs <;> simp [hhex, Ne.symm hc]

theorem oneLine_escape (value : String) : OneLine (escape value) := by
  rw [OneLine, escape, String.toList_ofList, List.mem_flatMap]
  rintro ⟨c, -, hc⟩
  exact newline_notMem_escapeChar c hc

theorem oneLine_string (value : String) : OneLine (string value).text :=
  oneLine_append.mpr ⟨oneLine_append.mpr ⟨by decide, oneLine_escape value⟩, by decide⟩

theorem oneLine_int (value : Int) : OneLine (int value).text := by
  rw [Double.int_eq]
  apply oneLine_of_isNumberChar
  rw [text, String.toList_ofList, List.forall_mem_append]
  refine ⟨?_, Double.isNumberChar_of_mem_toDigits⟩
  cases decide (value < 0) <;> simp [Double.signText, Double.isNumberChar]

theorem oneLine_array {items : List Json} (h : ∀ item ∈ items, OneLine item.text) :
    OneLine (array items).text := by
  refine oneLine_append.mpr ⟨oneLine_append.mpr ⟨by decide, ?_⟩, by decide⟩
  exact oneLine_intercalate (by decide) (List.forall_mem_map.mpr h)

/-- The members of an object are on one line if their names and values are. -/
theorem oneLine_written {members : List (String × Json)}
    (hnames : ∀ member ∈ members, OneLine member.1)
    (hvalues : ∀ member ∈ members, OneLine member.2.text) : OneLine (written members).text := by
  refine oneLine_append.mpr ⟨oneLine_append.mpr ⟨by decide, ?_⟩, by decide⟩
  refine oneLine_intercalate (by decide) (List.forall_mem_map.mpr fun member hmember => ?_)
  simp only [memberText, oneLine_append]
  exact ⟨⟨⟨by decide, hnames member hmember⟩, by decide⟩, hvalues member hmember⟩

theorem oneLine_object {members : List (String × Json)}
    (h : ∀ member ∈ members, OneLine member.2.text) : OneLine (object members).text := by
  apply oneLine_written
  · exact List.forall_mem_map.mpr fun member _ => oneLine_escape member.1
  · exact List.forall_mem_map.mpr h

/-- A dictionary is written on one line if its values are. -/
theorem oneLine_dictionary {members : List (String × Json)}
    (h : ∀ member ∈ members, OneLine member.2.text) : OneLine (dictionary members).text := by
  simp only [dictionary]
  apply oneLine_written
  · intro member hmember
    obtain ⟨given, _, rfl⟩ := List.mem_map.mp (List.mem_mergeSort.mp hmember)
    exact oneLine_escape given.1
  · intro member hmember
    obtain ⟨given, hgiven, rfl⟩ := List.mem_map.mp (List.mem_mergeSort.mp hmember)
    exact h given hgiven

end Json

/-! ## Operations -/

namespace Operand

/-- An operand whose JSON form, if it has one, is on one line. -/
def OneLine (operand : Operand) : Prop :=
  ∀ value, operand.toJson? = some value → StoredProc.OneLine value.text

theorem oneLine_none : OneLine .none := by
  intro value h
  rw [toJson?] at h
  cases h
  decide

theorem oneLine_int (number : Int) : OneLine (.int number) := by
  intro value h
  rw [toJson?] at h
  cases h
  exact Json.oneLine_int number

theorem oneLine_int64 (number : Int) : OneLine (.int64 number) := by
  intro value h
  rw [toJson?] at h
  cases h
  exact Json.oneLine_int number

theorem oneLine_double (number : Double) : OneLine (.double number) := by
  intro value h
  rw [toJson?] at h
  obtain ⟨text, htext, rfl⟩ := Option.map_eq_some_iff.mp h
  exact oneLine_of_isNumberChar (Double.isNumberChar_text? htext)

theorem oneLine_text (text : String) : OneLine (.text text) := by
  intro value h
  rw [toJson?] at h
  cases h
  exact Json.oneLine_string text

/-- Items on one line have values on one line. -/
theorem of_itemsToJson? {items : List Operand} (h : ∀ item ∈ items, item.OneLine)
    {values : List Json} (hvalues : itemsToJson? items = some values) :
    ∀ value ∈ values, StoredProc.OneLine value.text := by
  induction items generalizing values with
  | nil =>
      cases hvalues
      simp
  | cons item items ih =>
      rw [List.forall_mem_cons] at h
      rw [itemsToJson?] at hvalues
      split at hvalues
      next value rest hvalue hrest =>
        cases hvalues
        exact List.forall_mem_cons.mpr ⟨h.1 value hvalue, ih h.2 hrest⟩
      next => cases hvalues

/-- Entries on one line have members on one line. -/
theorem of_entriesToJson? {entries : List (String × Operand)}
    (h : ∀ entry ∈ entries, entry.2.OneLine) {members : List (String × Json)}
    (hmembers : entriesToJson? entries = some members) :
    ∀ member ∈ members, StoredProc.OneLine member.2.text := by
  induction entries generalizing members with
  | nil =>
      cases hmembers
      simp
  | cons entry entries ih =>
      rw [List.forall_mem_cons] at h
      rw [entriesToJson?] at hmembers
      split at hmembers
      next value rest hvalue hrest =>
        cases hmembers
        exact List.forall_mem_cons.mpr ⟨h.1 value hvalue, ih h.2 hrest⟩
      next => cases hmembers

theorem oneLine_list {items : List Operand} (h : ∀ item ∈ items, item.OneLine) :
    OneLine (.list items) := by
  intro value hvalue
  rw [toJson?] at hvalue
  obtain ⟨values, hvalues, rfl⟩ := Option.map_eq_some_iff.mp hvalue
  exact Json.oneLine_array (of_itemsToJson? h hvalues)

theorem oneLine_record {fields : List (String × Operand)}
    (h : ∀ field ∈ fields, field.2.OneLine) : OneLine (.record fields) := by
  intro value hvalue
  rw [toJson?] at hvalue
  obtain ⟨members, hmembers, rfl⟩ := Option.map_eq_some_iff.mp hvalue
  exact Json.oneLine_object (of_entriesToJson? h hmembers)

theorem oneLine_map {entries : List (String × Operand)} (h : ∀ entry ∈ entries, entry.2.OneLine) :
    OneLine (.map entries) := by
  intro value hvalue
  rw [toJson?] at hvalue
  obtain ⟨members, hmembers, rfl⟩ := Option.map_eq_some_iff.mp hvalue
  exact Json.oneLine_dictionary (of_entriesToJson? h hmembers)

end Operand

namespace Op

/-- An operation is shown on one line if its kind and its operand are. -/
theorem oneLine_text {op : Op} (hkind : OneLine op.kind) (hdata : op.data.OneLine) :
    OneLine op.text := by
  rw [text]
  split
  · exact hkind
  · split
    next json hjson =>
      exact oneLine_append.mpr ⟨oneLine_append.mpr ⟨hkind, by decide⟩, hdata json hjson⟩
    next => exact oneLine_append.mpr ⟨hkind, by decide⟩

end Op

namespace Instruction

theorem oneLine_kind (instruction : Instruction) : OneLine instruction.toOp.kind := by
  cases instruction <;> dsimp only [toOp, Op.instantiateText, Op.instantiateInt,
    Op.instantiateDouble, Op.instantiateObject, Op.instantiateArray, Op.copyFromHeap,
    Op.moveStackTopToHeap, Op.truncateHeap, Op.returnStackTop, Op.enforceSchemaOnHeap, Op.noop,
    Op.setField, Op.getField, Op.arrayPush, Op.arrayLen, Op.negatePrev, Op.conditionalGoto,
    Op.getAllFromStore, Op.queryStore, Op.insertFromStack, Op.storeLen, Op.findOneInStore,
    Op.deleteOneInStore, Op.createUpdateDoc, Op.setNestedField, Op.updateOne] <;> decide

theorem oneLine_excluding (hidden : List String) :
    (((excluding hidden).map Op.projectionOperand).getD .noMap).OneLine := by
  apply Operand.oneLine_map
  simp only [List.forall_mem_map]
  exact fun _ _ => Operand.oneLine_int 0

/-- The payload of every instruction is on one line. -/
theorem oneLine_data (instruction : Instruction) : instruction.toOp.data.OneLine := by
  have hstore : ∀ store, (Op.storeTarget store).OneLine := fun store =>
    Operand.oneLine_record (List.forall_mem_singleton.mpr (Operand.oneLine_text store))
  cases instruction with
  | text | getAll | insert | storeLen | updateOne => exact Operand.oneLine_text _
  | int => exact Operand.oneLine_int64 _
  | copyFromHeap | truncateHeap | setField | getField | jumpIf => exact Operand.oneLine_int _
  | double => exact Operand.oneLine_double _
  | moveToHeap | returnTop | noop | arrayPush | arrayLen | negate => exact Operand.oneLine_none
  | newObject => exact Operand.oneLine_map (by simp)
  | newArray => exact Operand.oneLine_list (by simp)
  | enforceSchema slot schema =>
      exact Operand.oneLine_record (List.forall_mem_cons.mpr
        ⟨Operand.oneLine_int _, List.forall_mem_singleton.mpr (Operand.oneLine_int _)⟩)
  | query store hidden =>
      exact Operand.oneLine_list (List.forall_mem_cons.mpr
        ⟨Operand.oneLine_text store, List.forall_mem_singleton.mpr (oneLine_excluding hidden)⟩)
  | findOne store hidden =>
      exact Operand.oneLine_list (List.forall_mem_cons.mpr
        ⟨hstore store, List.forall_mem_singleton.mpr (oneLine_excluding hidden)⟩)
  | deleteOne store => exact hstore store
  | newPush =>
      exact Operand.oneLine_map (List.forall_mem_singleton.mpr (Operand.oneLine_map (by simp)))
  | pushAt path =>
      exact Operand.oneLine_list (List.forall_mem_cons.mpr
        ⟨Operand.oneLine_text _, List.forall_mem_singleton.mpr (Operand.oneLine_text _)⟩)

end Instruction

/-! ## Addresses -/

namespace Op

theorem oneLine_addressText (address : Nat) : OneLine (addressText address) := by
  apply oneLine_of_isNumberChar
  rw [addressText, String.toList_ofList]
  exact Double.isNumberChar_of_mem_padded

/-- The line of an instruction is one line. -/
theorem oneLine_line (address : Nat) (instruction : Instruction) :
    OneLine (line address instruction.toOp) := by
  have htext := oneLine_text instruction.oneLine_kind instruction.oneLine_data
  exact oneLine_append.mpr
    ⟨oneLine_append.mpr ⟨oneLine_addressText address, by decide⟩, htext⟩

/-- Whether a line is that of the operation at an address. -/
def isAt (address : Nat) (line : String) : Bool :=
  (addressText address ++ " ").toList.isPrefixOf line.toList

theorem takeWhile_isDigit_append (address : Nat) (rest : List Char) :
    ((addressText address ++ " ").toList ++ rest).takeWhile Char.isDigit =
      Double.padded 4 address := by
  rw [addressText, String.toList_append, String.toList_ofList, List.append_assoc,
    List.takeWhile_append_of_pos (Double.isDigit_padded 4 address)]
  exact List.append_right_eq_self.mpr (List.takeWhile_cons_of_neg (by decide))

theorem toList_line (address : Nat) (op : Op) :
    (line address op).toList = (addressText address ++ " ").toList ++ op.text.toList :=
  String.toList_append

/-- A line starts with a digit. -/
theorem exists_toList_line (address : Nat) (op : Op) :
    ∃ first rest, (line address op).toList = first :: rest ∧ first.isDigit = true := by
  have hdigits := Double.digits_padded 4 address
  obtain ⟨first, rest, heq⟩ := List.exists_cons_of_ne_nil hdigits.ne_nil
  refine ⟨first, rest ++ ' ' :: op.text.toList, ?_, hdigits.isDigit first (by simp [heq])⟩
  simp [toList_line, addressText, heq]

/-- A line has one address. -/
theorem isAt_line {address other : Nat} {op : Op} :
    isAt address (line other op) = true ↔ address = other := by
  rw [isAt, List.isPrefixOf_iff_prefix, toList_line]
  constructor
  · rintro ⟨rest, heq⟩
    have hdigits := congrArg (List.takeWhile Char.isDigit) heq
    rw [takeWhile_isDigit_append, takeWhile_isDigit_append] at hdigits
    have hvalue := congrArg digitsValue hdigits
    rwa [Double.digitsValue_padded, Double.digitsValue_padded] at hvalue
  · rintro rfl
    exact List.prefix_append _ _

/-- A line that starts with no digit is not that of an operation. -/
theorem isAt_eq_false {address : Nat} {line : String} {first : Char} {rest : List Char}
    (h : line.toList = first :: rest) (hfirst : first.isDigit = false) :
    isAt address line = false := by
  rw [isAt, h, ← Bool.not_eq_true, List.isPrefixOf_iff_prefix]
  rintro ⟨more, heq⟩
  have hdigits := congrArg (List.takeWhile Char.isDigit) heq
  rw [takeWhile_isDigit_append, List.takeWhile_cons_of_neg (by simp [hfirst])] at hdigits
  exact (Double.digits_padded 4 address).ne_nil hdigits

/-! ## Listings -/

/-- The lines of a listing. -/
def lines (ops : List Op) : List String := ops.zipIdx.map fun (op, address) => line address op

theorem listing_eq_join (ops : List Op) :
    listing ops = String.join ((lines ops).map (· ++ "\n")) := by
  rw [listing, lines, List.map_map]
  rfl

theorem getElem?_lines (ops : List Op) (address : Nat) :
    (lines ops)[address]? = ops[address]?.map (line address) := by
  rw [lines, List.getElem?_map, List.getElem?_zipIdx]
  cases ops[address]? <;> simp

/-- One item at most has a given index. -/
theorem filter_zipIdx {α : Type} (items : List α) (first offset : Nat) :
    (items.zipIdx first).filter (fun entry => first + offset = entry.2) =
      (items[offset]?.map (·, first + offset)).toList := by
  induction items generalizing first offset with
  | nil => rfl
  | cons item items ih =>
      rw [List.zipIdx_cons]
      cases offset with
      | zero =>
          have hrest : (items.zipIdx (first + 1)).filter (fun entry => first = entry.2) = [] := by
            rw [List.filter_eq_nil_iff]
            intro entry hentry
            have hle := List.le_snd_of_mem_zipIdx hentry
            simp only [decide_eq_true_eq]
            omega
          simp [hrest]
      | succ offset =>
          have hnext := ih (first + 1) offset
          rw [Nat.add_right_comm, Nat.add_assoc] at hnext
          simp [hnext]

/-- One line of a listing has the address of an operation, and no other line has an
address. -/
theorem filter_isAt_lines (ops : List Op) (address : Nat) :
    (lines ops).filter (isAt address) = (lines ops)[address]?.toList := by
  have hlines : (isAt address ∘ fun entry : Op × Nat => line entry.2 entry.1) =
      fun entry => decide (0 + address = entry.2) := by
    funext entry
    rw [Nat.zero_add, Function.comp_apply, Bool.eq_iff_iff, isAt_line, decide_eq_true_iff]
  rw [getElem?_lines, lines, List.filter_map, hlines, filter_zipIdx]
  cases ops[address]? <;> simp

end Op

end StoredProc
