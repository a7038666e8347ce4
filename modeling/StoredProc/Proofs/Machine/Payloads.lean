import Mathlib.Data.String.Basic
import StoredProc.Machine.Document
import StoredProc.Proofs.Json.Embedding
import StoredProc.Proofs.Number.Layouts

/-! # Payloads of operations

The payload of every operation of the machine has a JSON form that a document holds as it
is. Read from there, the operation is listed as before, unless its payload is a map that
was never made: that one is written `null`, which stands for no payload in a document.
-/

namespace StoredProc

/-- An integer of 64 bits. -/
def IsInt64 (value : Int) : Prop := -(int64Limit : Int) ≤ value ∧ value < int64Limit

/-! ## Numbers -/

namespace Json

theorem settled_spelled {negative : Bool} {d : Decimal} {text : List Char}
    (h : Double.Spells negative d text) (hlt : d.value < Double.overflow) :
    Settled (.num (String.ofList text)) := by
  refine settled_num ?_ (h.inRange hlt)
  rw [String.toList_ofList]
  exact h.isNumber

theorem settled_int {value : Int} (h : IsInt64 value) : Settled (.int value) := by
  rw [Double.int_eq]
  apply settled_spelled (Double.spells_int _ _)
  apply Double.int64_lt_overflow
  rw [IsInt64] at h
  omega

/-- A finite double has a spelling, which is settled. -/
theorem exists_settled_double {mantissa : Nat} {exponent : Int} (negative : Bool)
    (h : Double.IsNormal mantissa exponent) :
    ∃ text, (Double.finite negative mantissa exponent).text? = some text ∧ Settled (.num text) := by
  obtain ⟨text, spelled, htext, hspells, hvalue⟩ := Double.exists_spells_text? negative h
  refine ⟨String.ofList text, htext, settled_spelled hspells ?_⟩
  rw [hvalue]
  exact Double.shortest_lt h

/-! ## Members -/

/-- A name without a dot leads to the member of that name. -/
theorem query?_object {name : String} (hname : name.toList.contains '.' = false)
    (members : List (String × Json)) : (object members).query? name = members.lookup name := by
  have hpath : name.splitToList (· = '.') = [name] := by
    rw [String.splitToList_of_valid, List.splitOnP_eq_singleton]
    · simp
    · rw [List.contains_eq_mem, decide_eq_false_iff_not] at hname
      exact fun c hc => decide_eq_false fun hdot => hname (hdot ▸ hc)
  have hfind : ((members.map fun member => (escape member.1, member.2)).find? fun member =>
      unescape? member.1 == some name).map Prod.snd = members.lookup name := by
    induction members with
    | nil => rfl
    | cons member members ih =>
        obtain ⟨key, value⟩ := member
        rw [List.map_cons, List.find?_cons, List.lookup_cons, unescape?_escape]
        by_cases hkey : key = name
        · simp [hkey]
        · have hne : (some key == some name) = false := by simp [hkey]
          rw [hne, beq_false_of_ne (Ne.symm hkey)]
          exact ih
  rw [query?, hpath, object, written, select?, member?, hfind]
  exact Option.bind_fun_some (members.lookup name)

end Json

/-! ## Operands -/

namespace Operand

/-- An operand of the machine: integers have 64 bits, doubles are finite and raw texts are
JSON. -/
inductive Sound : Operand → Prop
  | none : Sound .none
  | noMap : Sound .noMap
  | bool (value : Bool) : Sound (.bool value)
  | int {value : Int} (h : IsInt64 value) : Sound (.int value)
  | int64 {value : Int} (h : IsInt64 value) : Sound (.int64 value)
  | double {negative : Bool} {mantissa : Nat} {exponent : Int}
      (h : Double.IsNormal mantissa exponent) : Sound (.double (.finite negative mantissa exponent))
  | text (value : String) : Sound (.text value)
  | list {items : List Operand} (h : ∀ item ∈ items, Sound item) : Sound (.list items)
  | record {fields : List (String × Operand)} (h : ∀ field ∈ fields, Sound field.2) :
      Sound (.record fields)
  | map {entries : List (String × Operand)} (h : ∀ entry ∈ entries, Sound entry.2) :
      Sound (.map entries)
  | raw {source : String} (h : (Json.embed? source).isSome = true) : Sound (.raw source)

/-- The JSON form of an operand is there, and settled. -/
def Settles (operand : Operand) : Prop := ∃ value, operand.toJson? = some value ∧ value.Settled

/-- Items with settled forms have them all together. -/
theorem exists_itemsToJson? {items : List Operand} (h : ∀ item ∈ items, item.Settles) :
    ∃ values, itemsToJson? items = some values ∧ ∀ value ∈ values, value.Settled := by
  induction items with
  | nil => exact ⟨[], rfl, by simp⟩
  | cons item items ih =>
      rw [List.forall_mem_cons] at h
      obtain ⟨value, hvalue, hsettled⟩ := h.1
      obtain ⟨values, hvalues, hall⟩ := ih h.2
      refine ⟨value :: values, ?_, List.forall_mem_cons.mpr ⟨hsettled, hall⟩⟩
      rw [itemsToJson?, hvalue, hvalues]

/-- Entries with settled forms have them all together. -/
theorem exists_entriesToJson? {entries : List (String × Operand)}
    (h : ∀ entry ∈ entries, entry.2.Settles) :
    ∃ members, entriesToJson? entries = some members ∧ ∀ member ∈ members, member.2.Settled := by
  induction entries with
  | nil => exact ⟨[], rfl, by simp⟩
  | cons entry entries ih =>
      rw [List.forall_mem_cons] at h
      obtain ⟨value, hvalue, hsettled⟩ := h.1
      obtain ⟨members, hmembers, hall⟩ := ih h.2
      refine ⟨(entry.1, value) :: members, ?_, List.forall_mem_cons.mpr ⟨hsettled, hall⟩⟩
      rw [entriesToJson?, hvalue, hmembers]

/-- Every operand of the machine has a settled form. -/
theorem Sound.settles {operand : Operand} (h : operand.Sound) : operand.Settles := by
  induction h with
  | none | noMap => exact ⟨.null, by rw [toJson?], Json.settled_null⟩
  | bool value => exact ⟨.bool value, by rw [toJson?], Json.settled_bool value⟩
  | int h | int64 h => exact ⟨.int _, by rw [toJson?], Json.settled_int h⟩
  | double h =>
      obtain ⟨text, htext, hsettled⟩ := Json.exists_settled_double _ h
      exact ⟨.num text, by rw [toJson?, htext, Option.map_some], hsettled⟩
  | text value => exact ⟨.string value, by rw [toJson?], Json.settled_string value⟩
  | list _ ih =>
      obtain ⟨values, hvalues, hsettled⟩ := exists_itemsToJson? ih
      exact ⟨.array values, by rw [toJson?, hvalues, Option.map_some], Json.settled_array hsettled⟩
  | record _ ih =>
      obtain ⟨members, hmembers, hsettled⟩ := exists_entriesToJson? ih
      exact ⟨.object members, by rw [toJson?, hmembers, Option.map_some],
        Json.settled_object hsettled⟩
  | map _ ih =>
      obtain ⟨members, hmembers, hsettled⟩ := exists_entriesToJson? ih
      exact ⟨.dictionary members, by rw [toJson?, hmembers, Option.map_some],
        Json.settled_dictionary hsettled⟩
  | raw h =>
      obtain ⟨value, hvalue⟩ := Option.isSome_iff_exists.mp h
      exact ⟨value, by rw [toJson?, hvalue], Json.settled_of_embed? hvalue⟩

end Operand

namespace Op

/-! ## Operations -/

/-- The operations of the machine with their arguments. -/
inductive Built : Op → Prop
  | instantiateText (value : String) : Built (.instantiateText value)
  | instantiateInt {value : Int} (h : IsInt64 value) : Built (.instantiateInt value)
  | instantiateDouble {negative : Bool} {mantissa : Nat} {exponent : Int}
      (h : Double.IsNormal mantissa exponent) :
      Built (.instantiateDouble (.finite negative mantissa exponent))
  | instantiateObject : Built .instantiateObject
  | instantiateArray : Built .instantiateArray
  | copyFromHeap {slot : Int} (h : IsInt64 slot) : Built (.copyFromHeap slot)
  | moveStackTopToHeap : Built .moveStackTopToHeap
  | truncateHeap {count : Int} (h : IsInt64 count) : Built (.truncateHeap count)
  | returnStackTop : Built .returnStackTop
  | enforceSchemaOnHeap {heapPos schema : Int} (hpos : IsInt64 heapPos) (hschema : IsInt64 schema) :
      Built (.enforceSchemaOnHeap heapPos schema)
  | noop : Built .noop
  | setField {depth : Int} (h : IsInt64 depth) : Built (.setField depth)
  | getField {depth : Int} (h : IsInt64 depth) : Built (.getField depth)
  | arrayPush : Built .arrayPush
  | arrayLen : Built .arrayLen
  | negatePrev : Built .negatePrev
  | conditionalGoto {address : Int} (h : IsInt64 address) : Built (.conditionalGoto address)
  | goto {address : Int} (h : IsInt64 address) : Built (.goto address)
  | getAllFromStore (store : String) : Built (.getAllFromStore store)
  | queryStore (store : String) {projection : Option Projection}
      (h : ∀ fields ∈ projection, ∀ field ∈ fields, IsInt64 field.2) :
      Built (.queryStore store projection)
  | insertFromStack (store : String) : Built (.insertFromStack store)
  | storeLen (store : String) : Built (.storeLen store)
  | findOneInStore (store : String) {projection : Option Projection}
      (h : ∀ fields ∈ projection, ∀ field ∈ fields, IsInt64 field.2) :
      Built (.findOneInStore store projection)
  | deleteOneInStore (store : String) : Built (.deleteOneInStore store)
  | createUpdateDoc {entries : List (String × Operand)} (h : ∀ entry ∈ entries, entry.2.Sound) :
      Built (.createUpdateDoc (.map entries))
  | createNoUpdateDoc : Built (.createUpdateDoc .noMap)
  | setNestedField (operator path : String) : Built (.setNestedField operator path)
  | updateOne (store : String) : Built (.updateOne store)

open Operand (Sound)

/-- A projection is a sound operand, made or not. -/
theorem sound_projection {projection : Option Projection}
    (h : ∀ fields ∈ projection, ∀ field ∈ fields, IsInt64 field.2) :
    Sound ((projection.map projectionOperand).getD .noMap) := by
  cases projection with
  | none => exact .noMap
  | some fields =>
      refine .map ?_
      intro entry hentry
      obtain ⟨field, hfield, rfl⟩ := List.mem_map.mp hentry
      exact .int (h fields rfl field hfield)

theorem sound_storeTarget (store : String) : Sound (storeTarget store) :=
  .record (List.forall_mem_singleton.mpr (.text store))

theorem sound_pair {first second : Operand} (hfirst : first.Sound) (hsecond : second.Sound) :
    Sound (.list [first, second]) :=
  .list (List.forall_mem_cons.mpr ⟨hfirst, List.forall_mem_singleton.mpr hsecond⟩)

/-- Every operation of the machine has a sound operand. -/
theorem Built.sound {op : Op} (h : op.Built) : op.data.Sound := by
  cases h with
  | instantiateText value => exact .text value
  | instantiateDouble h => exact .double h
  | instantiateObject => exact .map (by simp)
  | instantiateArray => exact .list (by simp)
  | enforceSchemaOnHeap hpos hschema =>
      exact .record (List.forall_mem_cons.mpr
        ⟨.int hpos, List.forall_mem_singleton.mpr (.int hschema)⟩)
  | queryStore store h => exact sound_pair (.text store) (sound_projection h)
  | findOneInStore store h => exact sound_pair (sound_storeTarget store) (sound_projection h)
  | deleteOneInStore store => exact sound_storeTarget store
  | createUpdateDoc h => exact .map h
  | createNoUpdateDoc => exact .noMap
  | setNestedField operator path => exact sound_pair (.text operator) (.text path)
  | moveStackTopToHeap | returnStackTop | noop | arrayPush | arrayLen | negatePrev => exact .none
  | instantiateInt h => exact .int64 h
  | copyFromHeap h | truncateHeap h | setField h | getField h
  | conditionalGoto h | goto h => exact .int h
  | getAllFromStore store | insertFromStack store | storeLen store | updateOne store =>
      exact .text store

theorem Built.ne_raw {op : Op} (h : op.Built) (source : String) : op.data ≠ .raw source := by
  intro hraw
  cases h <;> cases hraw

/-- Only the update document may be a map that was never made. -/
theorem Built.data_eq_noMap_iff {op : Op} (h : op.Built) :
    op.data = .noMap ↔ op = .createUpdateDoc .noMap := by
  constructor
  · intro hdata
    cases h <;> first | rfl | cases hdata
  · rintro rfl
    rfl

/-! ## Operations in documents -/

/-- An operation without a map that was never made. -/
def withoutNoMap (op : Op) : Op :=
  match op.data with
  | .noMap => { op with data := .none }
  | _ => op

theorem withoutNoMap_eq_self {op : Op} (h : op.data ≠ .noMap) : op.withoutNoMap = op := by
  rw [withoutNoMap]
  split
  next hdata => exact absurd hdata h
  next => rfl

theorem text_eq {op : Op} {value : Json} (hne : op.data ≠ .none)
    (h : op.data.toJson? = some value) : op.text = op.kind ++ " " ++ value.text := by
  rw [text]
  split
  next hnone => exact absurd hnone hne
  next => rw [h]

/-- The document of an operation with this payload. -/
def document (kind : String) (data : Json) : Json :=
  .object [("kind", .string kind), ("data", data)]

/-- An operation is read back with its payload as raw JSON, and `null` is none. -/
theorem ofDocument_document (kind : String) (data : Json) :
    ofDocument (document kind data) = { kind, data := match data with
      | .null => .none
      | data => .raw data.text } := by
  have hkind : (document kind data).query? "kind" = some (.string kind) := by
    rw [document, Json.query?_object rfl]
    rfl
  have hdata : (document kind data).query? "data" = some data := by
    rw [document, Json.query?_object rfl]
    rfl
  have hplain : (Json.string kind).plain = kind := by
    rw [Json.string, Json.plain, Json.unescape?_escape, Option.getD_some]
  rw [ofDocument, hkind, hdata, Option.map_some, hplain, Option.getD_some]
  cases data <;> rfl

/-- No payload and a map that was never made are written alike, and raw JSON may be `null` as
well. -/
theorem toJson?_eq_null {operand : Operand} (h : operand.toJson? = some .null) :
    operand = .none ∨ operand = .noMap ∨ ∃ source, operand = .raw source := by
  cases operand with
  | none => exact .inl rfl
  | noMap => exact .inr (.inl rfl)
  | raw source => exact .inr (.inr ⟨source, rfl⟩)
  | int value | int64 value => cases value <;> simp [Operand.toJson?, Json.int, Json.nat] at h
  | bool | double | text | list | record | map =>
      simp [Operand.toJson?, Json.string, Json.array, Json.object, Json.dictionary,
        Json.written] at h

/-- Read from its document an operation is listed as before, without the `null` of a map
that was never made. -/
theorem Built.exists_document {op : Op} (h : op.Built) :
    ∃ value, op.toJson? = some value ∧ value.Compact ∧
      (ofDocument value).text = op.withoutNoMap.text := by
  obtain ⟨kind, operand⟩ := op
  obtain ⟨data, hdata, hsettled⟩ := h.sound.settles
  refine ⟨document kind data, by rw [toJson?, hdata, Option.map_some]; rfl, ?_, ?_⟩
  · refine Json.compact_object (List.forall_mem_cons.mpr ⟨Json.compact_string kind, ?_⟩)
    exact List.forall_mem_singleton.mpr hsettled.compact
  rw [ofDocument_document]
  dsimp only at hdata
  -- Both ways to be written `null` end up without a payload; a raw text is never built.
  by_cases hnull : data = .null
  · subst hnull
    obtain rfl | rfl | ⟨source, rfl⟩ := toJson?_eq_null hdata
    · rfl
    · rfl
    · exact absurd rfl (h.ne_raw source)
  · have hraw : (match data with
        | .null => Operand.none
        | data => .raw data.text) = .raw data.text := by
      cases data <;> first | rfl | exact absurd rfl hnull
    have hne : operand ≠ .none := by
      rintro rfl
      exact hnull (Option.some.inj hdata).symm
    have hsame : withoutNoMap ⟨kind, operand⟩ = ⟨kind, operand⟩ := by
      apply withoutNoMap_eq_self
      rintro rfl
      exact hnull (Option.some.inj hdata).symm
    have hembed : (Operand.raw data.text).toJson? = some data := hsettled.embed?_text
    rw [hraw, hsame, text_eq (by simp) hembed, text_eq hne hdata]

/-- The JSON form of an operation that has one. -/
def json (op : Op) : Json := op.toJson?.getD .null

namespace Built

variable {op : Op} (h : op.Built)

include h

theorem toJson?_eq : op.toJson? = some op.json := by
  obtain ⟨value, hvalue, _⟩ := h.exists_document
  rw [json, hvalue, Option.getD_some]

theorem compact_json : op.json.Compact := by
  obtain ⟨value, hvalue, hcompact, _⟩ := h.exists_document
  rwa [json, hvalue]

theorem text_ofDocument_json : (ofDocument op.json).text = op.withoutNoMap.text := by
  obtain ⟨value, hvalue, _, htext⟩ := h.exists_document
  rwa [json, hvalue]

end Built

end Op

end StoredProc
