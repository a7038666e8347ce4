import StoredProc.Cache.Entry
import StoredProc.Proofs.Json.Integers
import StoredProc.Proofs.Machine.Disassembly

/-! # Entries of programs

The document of a program is spelled as a stored entry spells it, so an entry made of a
program is stored and read back with the same document and the same sizes of frames.
-/

namespace StoredProc

open Table (Distinct)

/-! ## Times -/

namespace CacheEntry

/-- The characters of times; the slash is none, but it is in the way. -/
def isTimeChar (c : Char) : Bool :=
  '+'.toNat ≤ c.toNat && c.toNat ≤ ':'.toNat || c = 'T' || c = 'Z'

/-- What is taken from the front consists of characters of times. -/
def TakesTime (cs rest : List Char) : Prop :=
  ∃ front, cs = front ++ rest ∧ ∀ c ∈ front, isTimeChar c = true

namespace TakesTime

variable {cs rest after : List Char}

theorem refl (cs : List Char) : TakesTime cs cs := ⟨[], rfl, by simp⟩

theorem cons {c : Char} (hc : isTimeChar c = true) (h : TakesTime cs rest) :
    TakesTime (c :: cs) rest := by
  obtain ⟨front, rfl, hfront⟩ := h
  exact ⟨c :: front, rfl, List.forall_mem_cons.mpr ⟨hc, hfront⟩⟩

theorem trans (h : TakesTime cs rest) (hrest : TakesTime rest after) : TakesTime cs after := by
  obtain ⟨front, rfl, hfront⟩ := h
  obtain ⟨next, rfl, hnext⟩ := hrest
  exact ⟨front ++ next, by simp, List.forall_mem_append.mpr ⟨hfront, hnext⟩⟩

end TakesTime

theorem isTimeChar_of_isDigit {c : Char} (h : c.isDigit = true) : isTimeChar c = true := by
  have hplus : '+'.toNat = 43 := rfl
  have hcolon : ':'.toNat = 58 := rfl
  simp only [Char.isDigit, Bool.and_eq_true, decide_eq_true_eq] at h
  obtain ⟨hlow, hhigh⟩ := h
  have hlow : 48 ≤ c.toNat := hlow
  have hhigh : c.toNat ≤ 57 := hhigh
  simp only [isTimeChar, Bool.or_eq_true, Bool.and_eq_true, decide_eq_true_eq]
  omega

/-- Two digits are taken, if their value is within the bounds. -/
theorem takesTime_of_takePair? {least most value : Nat} {cs rest : List Char}
    (h : takePair? least most cs = some (value, rest)) : TakesTime cs rest := by
  unfold takePair? at h
  split at h
  next a b tail =>
    split at h
    next hdigits =>
      rw [Bool.and_eq_true] at hdigits
      dsimp only at h
      split at h
      · cases h
        exact .cons (isTimeChar_of_isDigit hdigits.1)
          (.cons (isTimeChar_of_isDigit hdigits.2) (.refl rest))
      · cases h
    next => cases h
  next => cases h

theorem takesTime_of_takeChar? {c : Char} {cs rest : List Char} (hc : isTimeChar c = true)
    (h : takeChar? c cs = some rest) : TakesTime cs rest := by
  unfold takeChar? at h
  split at h
  next d tail =>
    split at h
    next heq =>
      cases h
      exact .cons (heq ▸ hc) (.refl rest)
    next => cases h
  next => cases h

/-- The fraction of a second is a mark and digits. -/
theorem takesTime_of_skipFraction {cs rest : List Char} (h : skipFraction cs = some rest) :
    TakesTime cs rest := by
  unfold skipFraction at h
  split at h
  next c tail =>
    split at h
    next hpoint =>
      split at h
      next => cases h
      next =>
        cases h
        refine .cons ?_ ⟨tail.takeWhile Char.isDigit, List.takeWhile_append_dropWhile.symm, ?_⟩
        · simp only [Bool.or_eq_true, decide_eq_true_eq] at hpoint
          rcases hpoint with rfl | rfl <;> rfl
        · exact fun d hd => isTimeChar_of_isDigit (List.mem_takeWhile_imp hd)
    next =>
      cases h
      exact .refl _
  next =>
    cases h
    exact .refl _

/-- The zone is a letter, or a sign, hours and minutes, and ends the time. -/
theorem takesTime_of_isZone {cs : List Char} (h : isZone cs = true) : TakesTime cs [] := by
  unfold isZone at h
  split at h
  next => exact .cons rfl (.refl [])
  next sign rest _ =>
    rw [Bool.and_eq_true] at h
    obtain ⟨hsign, hrest⟩ := h
    simp only [Option.isSome_iff_exists, Option.bind_eq_bind, Option.bind_eq_some_iff] at hrest
    obtain ⟨_, ⟨hours, afterHours⟩, hhours, afterColon, hcolon, ⟨minutes, stop⟩, hminutes,
      hstop⟩ := hrest
    have hnil : stop = [] := by
      by_contra hne
      simp [hne] at hstop
    subst hnil
    refine .cons ?_ ((takesTime_of_takePair? hhours).trans
      ((takesTime_of_takeChar? rfl hcolon).trans (takesTime_of_takePair? hminutes)))
    simp only [Bool.or_eq_true, decide_eq_true_eq] at hsign
    rcases hsign with rfl | rfl <;> rfl
  next => cases h

/-- A time is written with the characters of times alone. -/
theorem isTimeChar_of_isTime {text : String} (h : isTime text = true) :
    ∀ c ∈ text.toList, isTimeChar c = true := by
  simp only [isTime, Option.isSome_iff_exists, Option.bind_eq_bind, Option.bind_eq_some_iff] at h
  obtain ⟨_, ⟨_, r₁⟩, h₁, ⟨_, r₂⟩, h₂, r₃, h₃, ⟨_, r₄⟩, h₄, r₅, h₅, ⟨_, r₆⟩, h₆, r₇, h₇,
    ⟨_, r₈⟩, h₈, r₉, h₉, ⟨_, r₁₀⟩, h₁₀, r₁₁, h₁₁, ⟨_, r₁₂⟩, h₁₂, r₁₃, h₁₃, hzone⟩ := h
  have hstop : isZone r₁₃ = true := by
    by_contra hne
    simp [hne] at hzone
  -- First the date and its `T`, then the clock with its fraction, then the zone.
  have hdate : TakesTime text.toList r₇ :=
    ((takesTime_of_takePair? h₁).trans <| (takesTime_of_takePair? h₂).trans <|
      (takesTime_of_takeChar? rfl h₃).trans <| (takesTime_of_takePair? h₄).trans <|
      (takesTime_of_takeChar? rfl h₅).trans <| (takesTime_of_takePair? h₆).trans <|
      takesTime_of_takeChar? rfl h₇)
  have hclock : TakesTime r₇ r₁₃ :=
    (takesTime_of_takePair? h₈).trans <| (takesTime_of_takeChar? rfl h₉).trans <|
      (takesTime_of_takePair? h₁₀).trans <| (takesTime_of_takeChar? rfl h₁₁).trans <|
      (takesTime_of_takePair? h₁₂).trans <| takesTime_of_skipFraction h₁₃
  obtain ⟨front, heq, hfront⟩ := hdate.trans (hclock.trans (takesTime_of_isZone hstop))
  rw [List.append_nil] at heq
  exact heq ▸ hfront

/-- No character of a time has to be escaped. -/
theorem escapeChar_of_isTimeChar {c : Char} (h : isTimeChar c = true) :
    Json.escapeChar c = [c] := by
  have hne : ∀ d : Char, isTimeChar d = false → c ≠ d := by
    rintro d hd rfl
    rw [h] at hd
    cases hd
  have hlow : ¬c.toNat < 0x20 ∧ c.toNat ≠ 0x2028 ∧ c.toNat ≠ 0x2029 := by
    have hplus : '+'.toNat = 43 := rfl
    have hcolon : ':'.toNat = 58 := rfl
    simp only [isTimeChar, Bool.or_eq_true, Bool.and_eq_true, decide_eq_true_eq] at h
    rcases h with (h | rfl) | rfl
    · omega
    · decide
    · decide
  simp [Json.escapeChar, hne '"' rfl, hne '\\' rfl, hne '\n' rfl, hne '\r' rfl, hne '\t' rfl,
    hne '<' rfl, hne '>' rfl, hne '&' rfl, hlow]

/-- A time is spelled as it is. -/
theorem escape_of_isTime {text : String} (h : isTime text = true) : Json.escape text = text := by
  have hchars := isTimeChar_of_isTime h
  rw [← String.toList_inj, Json.toList_escape]
  generalize text.toList = cs at hchars
  induction cs with
  | nil => rfl
  | cons c cs ih =>
      rw [List.forall_mem_cons] at hchars
      rw [List.flatMap_cons, escapeChar_of_isTimeChar hchars.1, ih hchars.2]
      rfl

end CacheEntry

/-! ## Documents of programs -/

namespace DataType

theorem settled_typeDocument {kind : String} {data : Json} (h : data.Settled) :
    (typeDocument kind data).Settled := by
  apply Json.settled_object
  simpa using ⟨Json.settled_string kind, h⟩

/-- The document of a type is read back as it is written. -/
theorem settled_toJson (type : DataType) : type.toJson.Settled := by
  induction type using inductionOn with
  | object fields ih =>
      apply settled_typeDocument
      rw [fieldsToJson_eq_map]
      exact Json.settled_dictionary (List.forall_mem_map.mpr ih)
  | array elem ih => exact settled_typeDocument (Json.settled_array (by simpa using ih))
  | optional inner ih => exact settled_typeDocument (Json.settled_array (by simpa using ih))
  | ref store => exact settled_typeDocument (Json.settled_string store)
  | prim | any | nothing => exact settled_typeDocument Json.settled_null

end DataType

namespace Program

/-- A program that the machine can hold and that can be written: its operands are those of
the machine, and its frames form a map of sizes. -/
structure Sound (p : Program) : Prop where
  operands : ∀ entry ∈ p.procedures, ∀ op ∈ entry.2, op.data.Sound
  frames : Distinct p.frames
  sizes : ∀ frame ∈ p.frames, IsInt64 frame.2

/-- What holds of the result for each item holds of all results together. -/
theorem exists_mapM {α β : Type} {f : α → Option β} {good : β → Prop} {items : List α}
    (h : ∀ item ∈ items, ∃ result, f item = some result ∧ good result) :
    ∃ results, items.mapM f = some results ∧ ∀ result ∈ results, good result := by
  induction items with
  | nil => exact ⟨[], rfl, by simp⟩
  | cons item items ih =>
      rw [List.forall_mem_cons] at h
      obtain ⟨result, hresult, hgood⟩ := h.1
      obtain ⟨results, hresults, hall⟩ := ih h.2
      refine ⟨result :: results, ?_, List.forall_mem_cons.mpr ⟨hgood, hall⟩⟩
      rw [List.mapM_cons, hresult, hresults]
      rfl

/-- An operation with a sound operand has a document that is read back as it is written. -/
theorem exists_settled_op {op : Op} (h : op.data.Sound) :
    ∃ value, op.toJson? = some value ∧ value.Settled := by
  obtain ⟨data, hdata, hsettled⟩ := h.settles
  refine ⟨Op.document op.kind data, by rw [Op.toJson?, hdata, Option.map_some]; rfl, ?_⟩
  apply Json.settled_object
  simpa using ⟨Json.settled_string op.kind, hsettled⟩

/-- The JSON form of a procedure under its name. -/
def procedureToJson? (entry : String × List Op) : Option (String × Json) :=
  (opsToJson? entry.2).bind fun ops => some (entry.1, ops)

theorem toJson?_eq (p : Program) :
    p.toJson? = (p.procedures.mapM procedureToJson?).bind fun procedures =>
      some (.object [("PROCEDURES", .dictionary procedures),
        ("SCHEMAS", .array (p.schemas.map DataType.toJson)),
        ("STORES", .dictionary (p.stores.map fun entry => (entry.1, entry.2.toJson)))]) :=
  rfl

/-- A program with the operands of the machine has a document, spelled as inside other
documents. -/
theorem exists_settled_document {p : Program}
    (h : ∀ entry ∈ p.procedures, ∀ op ∈ entry.2, op.data.Sound) :
    ∃ document, p.toJson? = some document ∧ document.Settled := by
  have hprocedure : ∀ entry ∈ p.procedures, ∃ member, procedureToJson? entry = some member ∧
      member.2.Settled := by
    intro entry hentry
    obtain ⟨values, hvalues, hall⟩ := exists_mapM fun op hop =>
      exists_settled_op (h entry hentry op hop)
    refine ⟨(entry.1, .array values), ?_, Json.settled_array hall⟩
    rw [procedureToJson?, opsToJson?, hvalues]
    rfl
  obtain ⟨procedures, hprocedures, hsettled⟩ := exists_mapM hprocedure
  refine ⟨_, by rw [toJson?_eq, hprocedures, Option.bind_some], ?_⟩
  apply Json.settled_object
  simp only [List.forall_mem_cons]
  refine ⟨Json.settled_dictionary hsettled, Json.settled_array ?_, Json.settled_dictionary ?_,
    by simp⟩
  · exact List.forall_mem_map.mpr fun type _ => type.settled_toJson
  · exact List.forall_mem_map.mpr fun entry _ => entry.2.settled_toJson

theorem Sound.exists_document {p : Program} (h : p.Sound) :
    ∃ document, p.toJson? = some document ∧ document.Settled :=
  exists_settled_document h.operands

end Program

/-! ## Reading entries back -/

namespace CacheEntry

theorem readSize?_int {size : Int} (h : IsInt64 size) : readSize? (.int size) = some size := by
  have hnumber : readSize? (.int size) = (Json.int size).int64? := by
    rw [Double.int_eq]
    rfl
  rw [hnumber, Json.int64?_int h]

/-- Sizes of frames that have different names are read in their order. -/
theorem readSizes?_map (known : List (String × Int)) {sizes : List (String × Int)}
    (hdistinct : Distinct (known ++ sizes)) (hsizes : ∀ size ∈ sizes, IsInt64 size.2) :
    readSizes? known (sizes.map fun size => (Json.escape size.1, .int size.2)) =
      some (known ++ sizes) := by
  induction sizes generalizing known with
  | nil => rw [List.append_nil]; rfl
  | cons size sizes ih =>
      have hfresh : size.1 ∉ known.map Prod.fst := by
        rw [Distinct, List.map_append, List.nodup_append] at hdistinct
        exact fun hknown => hdistinct.2.2 size.1 hknown size.1 (by simp) rfl
      rw [List.forall_mem_cons] at hsizes
      rw [List.map_cons, readSizes?, Json.unescape?_escape, readSize?_int hsizes.1,
        Option.bind_eq_bind,
        Option.bind_some, Option.bind_eq_bind, Option.bind_some, setSize,
        Table.filter_eq_self hfresh,
        ih (known ++ [size]) (by simpa using hdistinct) hsizes.2, List.append_assoc,
        List.singleton_append]

/-- What a caller sees of an entry: its document and the sizes of its frames by name. -/
def view (entry : CacheEntry) : String × Option (List (String × Int)) :=
  (entry.document, entry.frameSizes.map fun sizes => sizes.mergeSort fun a b => a.1 ≤ b.1)

/-- An entry made of a program. -/
def Made (entry : CacheEntry) : Prop :=
  ∃ program time, Program.Sound program ∧ isTime time = true ∧
    ofProgram? program time = some entry

/-- The sizes of frames are written in some order. -/
theorem exists_frameSizesJson (sizes : List (String × Int)) :
    ∃ sorted : List (String × Int), sorted.Perm sizes ∧ frameSizesJson (some sizes) =
      .written (sorted.map fun size => (Json.escape size.1, .int size.2)) := by
  let key (size : String × Int) : String := Json.dictionaryKey (Json.escape size.1, .int size.2)
  refine ⟨sizes.mergeSort fun a b => key a ≤ key b, List.mergeSort_perm .., ?_⟩
  rw [frameSizesJson, Json.dictionary, List.map_map,
    List.map_mergeSort (s := fun a b => Json.dictionaryKey a ≤ Json.dictionaryKey b)
      fun _ _ _ _ => rfl]
  rfl

theorem view_eq_of_perm {entry other : CacheEntry} {sizes others : List (String × Int)}
    (hdocument : entry.document = other.document) (hsizes : entry.frameSizes = some sizes)
    (hothers : other.frameSizes = some others) (hdistinct : Distinct sizes)
    (hperm : sizes.Perm others) : entry.view = other.view := by
  have hsort := Text.mergeSort_key_eq_of_perm Prod.fst
    (fun _ ha _ hb => List.inj_on_of_nodup_map hdistinct ha hb) hperm
  rw [view, view, hdocument, hsizes, hothers, Option.map_some, Option.map_some, hsort]

section Storing

variable {document : Json} {sorted : List (String × Int)} {time : String}

/-- The stored form of an entry. -/
def storedForm (document : Json) (sorted : List (String × Int)) (time : String) : Json :=
  .object [("document", document),
    ("frameSizes", .written (sorted.map fun size => (Json.escape size.1, .int size.2))),
    ("compiledAt", .string time)]

theorem compact_storedForm (hdocument : document.Settled)
    (hsizes : ∀ size ∈ sorted, IsInt64 size.2) : (storedForm document sorted time).Compact := by
  apply Json.compact_object
  have hframes : (Json.written
      (sorted.map fun size => (Json.escape size.1, .int size.2))).Compact :=
    .members (List.forall_mem_map.mpr fun size _ => Json.written_escape size.1)
      (List.forall_mem_map.mpr fun size hsize => (Json.settled_int (hsizes size hsize)).compact)
  simpa using ⟨hdocument.compact, hframes, Json.compact_string time⟩

/-- An entry is read back from its stored form, with its sizes in the order of their names. -/
theorem ofContent_storedForm (hdocument : document.Settled) (hdistinct : Distinct sorted)
    (hsizes : ∀ size ∈ sorted, IsInt64 size.2) (htime : isTime time = true) :
    ofContent (storedForm document sorted time).text =
      .ok ⟨document.text, some sorted, time⟩ := by
  have hread : readSizes? [] (sorted.map fun size => (Json.escape size.1, .int size.2)) =
      some sorted := readSizes?_map [] hdistinct hsizes
  rw [ofContent, (compact_storedForm hdocument hsizes).parse?_text]
  simp [storedForm, Json.object, Json.written, ofMembers, Json.soundNames, readFrameSizes?,
    Json.named, hread, Json.allNamed, isTimeOrNull, Json.string, escape_of_isTime htime, htime,
    Json.last?]

end Storing

/-- An entry made of a program can be stored, and what is read back looks the same. -/
theorem Made.exists_content {entry : CacheEntry} (h : entry.Made) :
    ∃ content read, entry.content? = some content ∧ ofContent content = .ok read ∧
      read.view = entry.view := by
  obtain ⟨program, time, hsound, htime, hmade⟩ := h
  obtain ⟨document, hdocument, hsettled⟩ := hsound.exists_document
  have hentry : entry = ⟨document.text, some program.frames, time⟩ := by
    rw [ofProgram?, Program.text?, hdocument] at hmade
    exact (Option.some.inj hmade).symm
  obtain ⟨sorted, hperm, hsizes⟩ := exists_frameSizesJson program.frames
  have hdistinct : Distinct sorted := hsound.frames.of_perm hperm.symm
  have hint : ∀ size ∈ sorted, IsInt64 size.2 := fun size hsize =>
    hsound.sizes size (hperm.mem_iff.mp hsize)
  refine ⟨(storedForm document sorted time).text, ⟨document.text, some sorted, time⟩, ?_,
    ofContent_storedForm hsettled hdistinct hint htime, ?_⟩
  · rw [hentry, content?, hsettled.embed?_text, Option.map_some, hsizes]
    rfl
  · rw [hentry]
    exact view_eq_of_perm rfl rfl rfl hdistinct hperm

end CacheEntry

end StoredProc
