import Mathlib.Algebra.Order.BigOperators.Group.List
import StoredProc.Proofs.DataType.Documents
import StoredProc.Proofs.Machine.Payloads
import StoredProc.Proofs.Table

/-! # Listings of program documents

A program can be listed from its document: the listing is that of the program, but for
maps that were never made, whose `null` is not shown.
-/

namespace StoredProc

open Table (Distinct)

/-! ## Listings of operations -/

theorem length_join (parts : List String) :
    (String.join parts).length = (parts.map String.length).sum := by
  induction parts with
  | nil => rfl
  | cons part parts ih =>
      rw [String.join_cons, String.length_append, ih, List.map_cons, List.sum_cons]

/-- With one separator more, the parts and separators pair up. -/
theorem length_intercalate (separator : String) {parts : List String} (hne : parts ≠ []) :
    (separator.intercalate parts).length + separator.length =
      (parts.map fun part => part.length + separator.length).sum := by
  induction parts with
  | nil => exact absurd rfl hne
  | cons part parts ih =>
      cases parts with
      | nil => simp
      | cons next parts =>
          rw [String.intercalate_cons_cons, String.length_append, String.length_append,
            List.map_cons, List.sum_cons, ← ih (by simp)]
          omega

namespace Op

theorem listing_map_eq {change other : Op → Op} {ops : List Op}
    (h : ∀ op ∈ ops, (change op).text = (other op).text) :
    listing (ops.map change) = listing (ops.map other) := by
  rw [listing, listing, List.zipIdx_map, List.zipIdx_map, List.map_map, List.map_map]
  refine congrArg String.join (List.map_congr_left fun entry hentry => ?_)
  simp [line, h entry.1 (List.fst_mem_of_mem_zipIdx hentry)]

theorem length_listing_map (change : Op → Op) (ops : List Op) :
    (listing (ops.map change)).length = (ops.zipIdx.map fun entry =>
      (addressText entry.2 ++ " ").length + (change entry.1).text.length + 1).sum := by
  rw [listing, length_join, List.zipIdx_map, List.map_map, List.map_map]
  refine congrArg List.sum (List.map_congr_left fun entry _ => ?_)
  have hbreak : "\n".length = 1 := rfl
  simp only [Function.comp_apply, line, String.length_append, hbreak]
  rfl

theorem text_noMap (kind : String) : text ⟨kind, .noMap⟩ = kind ++ " " ++ "null" := by
  have hjson : (Op.mk kind .noMap).data.toJson? = some .null := by rw [Operand.toJson?]
  exact text_eq (by simp) hjson

/-- A payload that is a map that was never made is shown, and no payload is not. -/
theorem length_withoutNoMap_lt {op : Op} (h : op.data = .noMap) :
    op.withoutNoMap.text.length < op.text.length := by
  obtain ⟨kind, operand⟩ := op
  cases h
  rw [text_noMap, String.append_assoc, String.length_append]
  exact Nat.lt_add_of_pos_right (by decide)

theorem length_withoutNoMap_le (op : Op) : op.withoutNoMap.text.length ≤ op.text.length := by
  by_cases hdata : op.data = .noMap
  · exact (length_withoutNoMap_lt hdata).le
  · rw [withoutNoMap_eq_self hdata]

/-- A listing gets no longer when no map is left that was never made. -/
theorem length_listing_withoutNoMap_le (ops : List Op) :
    (listing (ops.map withoutNoMap)).length ≤ (listing ops).length := by
  conv_rhs => rw [← List.map_id ops]
  rw [length_listing_map, length_listing_map]
  apply List.sum_le_sum
  intro entry _
  have hle := length_withoutNoMap_le entry.1
  simp only [id_eq]
  omega

/-- A listing tells a map that was never made from no payload. -/
theorem length_listing_withoutNoMap_lt {ops : List Op} {op : Op} (hmem : op ∈ ops)
    (h : op.data = .noMap) : (listing (ops.map withoutNoMap)).length < (listing ops).length := by
  conv_rhs => rw [← List.map_id ops]
  rw [length_listing_map, length_listing_map]
  apply List.sum_lt_sum
  · intro entry _
    have hle := length_withoutNoMap_le entry.1
    simp only [id_eq]
    omega
  · obtain ⟨i, hi⟩ := List.mem_iff_getElem?.mp hmem
    refine ⟨(op, i), List.mem_zipIdx_iff_getElem?.mpr hi, ?_⟩
    have hlt := length_withoutNoMap_lt h
    simp only [id_eq]
    omega

end Op

namespace Program

/-- The program with every operation changed. -/
def mapOps (change : Op → Op) (p : Program) : Program :=
  { p with procedures := p.procedures.map fun entry => (entry.1, entry.2.map change) }

theorem procedureNames_mapOps (change : Op → Op) (p : Program) :
    (p.mapOps change).procedureNames = p.procedureNames := by
  rw [procedureNames, procedureNames, mapOps, List.map_map]
  rfl

theorem procedure_mapOps (change : Op → Op) (p : Program) (name : String) :
    (p.mapOps change).procedure name = (p.procedure name).map change := by
  rw [procedure, procedure, mapOps, Table.lookup_map (List.map change)]
  cases p.procedures.lookup name <;> rfl

/-- A listing consists of the names, the sizes of the frames and the operations. -/
theorem listing_eq {p q : Program} (hframes : p.frames = q.frames)
    (hnames : p.procedureNames = q.procedureNames)
    (hops : ∀ name, Op.listing (p.procedure name) = Op.listing (q.procedure name)) :
    p.listing = q.listing := by
  rw [listing, listing, hnames]
  refine congrArg "\n".intercalate (List.map_congr_left fun name _ => ?_)
  rw [header, header, hframes, hops name]

theorem listing_eq_of_perm {p q : Program} (hdistinct : Distinct p.procedures)
    (hperm : p.procedures.Perm q.procedures) (hframes : p.frames = q.frames) :
    p.listing = q.listing := by
  refine listing_eq hframes ?_ fun name => ?_
  · exact Text.mergeSort_key_eq_of_perm (fun name => name) (fun _ _ _ _ h => h) (hperm.map Prod.fst)
  · rw [procedure, procedure, Table.lookup_eq_of_perm hdistinct hperm]

/-- The operations of a procedure are kept under some name. -/
theorem exists_mem_of_mem_procedure {p : Program} {name : String} {op : Op}
    (h : op ∈ p.procedure name) : ∃ entry ∈ p.procedures, op ∈ entry.2 := by
  rw [procedure] at h
  cases hlookup : p.procedures.lookup name with
  | none =>
      rw [hlookup] at h
      cases h
  | some ops =>
      rw [hlookup] at h
      obtain ⟨before, after, heq, _⟩ := List.lookup_eq_some_iff.mp hlookup
      exact ⟨(name, ops), by simp [heq], h⟩

/-- The listing of a program shows no more of an operation than its text. -/
theorem listing_mapOps_eq {change other : Op → Op} {p : Program}
    (h : ∀ entry ∈ p.procedures, ∀ op ∈ entry.2, (change op).text = (other op).text) :
    (p.mapOps change).listing = (p.mapOps other).listing := by
  refine listing_eq rfl ?_ fun name => ?_
  · rw [procedureNames_mapOps, procedureNames_mapOps]
  · rw [procedure_mapOps, procedure_mapOps]
    apply Op.listing_map_eq
    intro op hop
    obtain ⟨entry, hentry, hmem⟩ := exists_mem_of_mem_procedure hop
    exact h entry hentry op hmem

/-- The listing is shorter without the `null` of a map that was never made. -/
theorem length_listing_lt {p : Program} (hdistinct : Distinct p.procedures)
    {entry : String × List Op} (hentry : entry ∈ p.procedures) {op : Op} (hop : op ∈ entry.2)
    (hdata : op.data = .noMap) : (p.mapOps Op.withoutNoMap).listing.length < p.listing.length := by
  have hmem : entry.1 ∈ p.procedureNames :=
    List.mem_mergeSort.mpr (List.mem_map_of_mem hentry)
  have hprocedure : p.procedure entry.1 = entry.2 := by
    rw [procedure, (Table.lookup_eq_some_iff hdistinct).mpr hentry, Option.getD_some]
  have hheader : ∀ name, (p.mapOps Op.withoutNoMap).header name = p.header name := fun _ => rfl
  have hne : p.procedureNames ≠ [] := List.ne_nil_of_mem hmem
  suffices h : (p.mapOps Op.withoutNoMap).listing.length + "\n".length <
      p.listing.length + "\n".length by omega
  rw [listing, listing, procedureNames_mapOps, length_intercalate _ (by simpa using hne),
    length_intercalate _ (by simpa using hne), List.map_map, List.map_map]
  -- No procedure gets longer, and the one with the map gets shorter.
  apply List.sum_lt_sum
  · intro name _
    have hle := Op.length_listing_withoutNoMap_le (p.procedure name)
    simp only [Function.comp_apply, String.length_append, hheader, procedure_mapOps]
    omega
  · refine ⟨entry.1, hmem, ?_⟩
    have hlt := Op.length_listing_withoutNoMap_lt hop hdata
    rw [← hprocedure] at hlt
    simp only [Function.comp_apply, String.length_append, hheader, procedure_mapOps]
    omega

/-! ## The document -/

theorem mapM_eq_some {α β : Type} {f : α → Option β} {g : α → β} {items : List α}
    (h : ∀ item ∈ items, f item = some (g item)) : items.mapM f = some (items.map g) := by
  induction items with
  | nil => rfl
  | cons item items ih =>
      rw [List.forall_mem_cons] at h
      rw [List.mapM_cons, h.1, ih h.2]
      rfl

/-- The JSON form of a program whose operations have one. -/
def document (p : Program) : Json :=
  .object [("PROCEDURES", .dictionary (p.procedures.map fun entry =>
      (entry.1, .array (entry.2.map Op.json)))),
    ("SCHEMAS", .array (p.schemas.map DataType.toJson)),
    ("STORES", .dictionary (p.stores.map fun entry => (entry.1, entry.2.toJson)))]

/-- Every operation is one of the machine. -/
def Built (p : Program) : Prop := ∀ entry ∈ p.procedures, ∀ op ∈ entry.2, op.Built

/-- A program whose operations are those of the machine has a document. -/
theorem Built.toJson?_eq {p : Program} (h : p.Built) : p.toJson? = some p.document := by
  rw [toJson?, mapM_eq_some (g := fun entry => (entry.1, .array (entry.2.map Op.json)))]
  · rfl
  · rintro ⟨name, ops⟩ hentry
    dsimp only
    rw [opsToJson?, mapM_eq_some fun op hop => (h (name, ops) hentry op hop).toJson?_eq]
    rfl

/-- The document of such a program is compact. -/
theorem Built.compact_document {p : Program} (h : p.Built) : p.document.Compact := by
  apply Json.compact_object
  simp only [List.forall_mem_cons]
  refine ⟨Json.compact_dictionary ?_, .array ?_, Json.compact_dictionary ?_, by simp⟩
  · refine List.forall_mem_map.mpr fun entry hentry => .array ?_
    exact List.forall_mem_map.mpr fun op hop => (h entry hentry op hop).compact_json
  · exact List.forall_mem_map.mpr fun type _ => DataType.compact_toJson type
  · exact List.forall_mem_map.mpr fun entry _ => DataType.compact_toJson entry.2

/-- The members of a dictionary are those it was made of, in another order. -/
theorem parts_dictionary_perm (members : List (String × Json)) :
    (Json.dictionary members).parts.Perm members := by
  have hsorted := List.mergeSort_perm (members.map fun member => (Json.escape member.1, member.2))
    fun a b => Json.dictionaryKey a ≤ Json.dictionaryKey b
  have hparts := hsorted.map fun member => ((Json.unescape? member.1).getD member.1, member.2)
  have hread : (members.map fun member => (Json.escape member.1, member.2)).map
      (fun member => ((Json.unescape? member.1).getD member.1, member.2)) = members := by
    rw [List.map_map]
    refine (List.map_congr_left fun member _ => ?_).trans (List.map_id members)
    simp
  rw [hread] at hparts
  exact hparts

theorem map_snd_parts_array (items : List Json) :
    (Json.array items).parts.map Prod.snd = items := by
  rw [Json.array, Json.parts, List.map_map]
  exact (List.map_congr_left fun _ _ => rfl).trans (List.zipIdx_map_fst 0 items)

/-- Procedures of different names stay in their order. -/
theorem foldl_setProcedure (procedures : List (String × List Op))
    {entries : List (String × List Op)} (h : Distinct (procedures ++ entries)) :
    entries.foldl (fun procedures entry => setProcedure procedures entry.1 entry.2) procedures =
      procedures ++ entries := by
  induction entries generalizing procedures with
  | nil => simp
  | cons entry entries ih =>
      have hfilter : procedures.filter (·.1 ≠ entry.1) = procedures := by
        rw [List.filter_eq_self]
        intro other hother
        rw [Distinct, List.map_append, List.nodup_append] at h
        exact decide_eq_true (h.2.2 other.1 (List.mem_map_of_mem hother) entry.1 (by simp))
      have hset : setProcedure procedures entry.1 entry.2 = procedures ++ [entry] := by
        rw [setProcedure, hfilter]
      rw [List.foldl_cons, hset, ih _ (by simpa using h), List.append_assoc, List.singleton_append]

theorem distinct_mapOps {p : Program} (h : Distinct p.procedures) (change : Op → Op) :
    Distinct (p.mapOps change).procedures := by
  rw [Distinct, mapOps, List.map_map]
  exact h

/-- The document of a program holds its procedures, in some order. -/
theorem Built.procedures_ofDocument_perm {p : Program} (h : p.Built)
    (hdistinct : Distinct p.procedures) (frames : List (String × Int)) :
    (ofDocument p.document.text frames).procedures.Perm
      (p.mapOps fun op => .ofDocument op.json).procedures := by
  have hread : readDocument p.document.text = p.document := by
    rw [readDocument, h.compact_document.parse?_text, Option.getD_some]
  have hparts : partsOf "PROCEDURES" p.document =
      (Json.dictionary (p.procedures.map fun entry =>
        (entry.1, .array (entry.2.map Op.json)))).parts := by
    rw [partsOf, document, Json.query?_object rfl]
    rfl
  have hperm := (parts_dictionary_perm (p.procedures.map fun entry =>
    (entry.1, .array (entry.2.map Op.json)))).map fun part =>
      (part.1, part.2.parts.map fun op => Op.ofDocument op.2)
  have hchanged : ((p.procedures.map fun entry => (entry.1, Json.array (entry.2.map Op.json))).map
      fun part => (part.1, part.2.parts.map fun op => Op.ofDocument op.2)) =
      (p.mapOps fun op => .ofDocument op.json).procedures := by
    rw [mapOps, List.map_map]
    refine List.map_congr_left fun entry _ => Prod.ext rfl ?_
    have hitems := map_snd_parts_array (entry.2.map Op.json)
    calc (Json.array (entry.2.map Op.json)).parts.map (fun op => Op.ofDocument op.2)
        = ((Json.array (entry.2.map Op.json)).parts.map Prod.snd).map Op.ofDocument := by
          rw [List.map_map]
          rfl
      _ = entry.2.map fun op => .ofDocument op.json := by
          rw [hitems, List.map_map]
          rfl
  rw [hchanged] at hperm
  have hset := foldl_setProcedure [] ((distinct_mapOps hdistinct _).of_perm hperm.symm)
  rw [List.foldl_map, List.nil_append] at hset
  rw [ofDocument, hread, hparts]
  exact hset ▸ hperm

theorem Built.text?_eq {p : Program} (h : p.Built) : p.text? = some p.document.text := by
  rw [text?, h.toJson?_eq, Option.map_some]

/-- Listed from its document a program shows no map that was never made. -/
theorem Built.listing_ofDocument_eq {p : Program} (h : p.Built)
    (hdistinct : Distinct p.procedures) :
    (ofDocument p.document.text p.frames).listing = (p.mapOps Op.withoutNoMap).listing := by
  have hperm := h.procedures_ofDocument_perm hdistinct p.frames
  have hreread := distinct_mapOps hdistinct fun op => .ofDocument op.json
  rw [listing_eq_of_perm (hreread.of_perm hperm.symm) hperm rfl]
  exact listing_mapOps_eq fun entry hentry op hop => (h entry hentry op hop).text_ofDocument_json

theorem mapOps_eq_self {change : Op → Op} {p : Program}
    (h : ∀ entry ∈ p.procedures, ∀ op ∈ entry.2, change op = op) : p.mapOps change = p := by
  have hprocedures : (p.procedures.map fun entry => (entry.1, entry.2.map change)) =
      p.procedures.map id := by
    refine List.map_congr_left fun entry hentry => Prod.ext rfl ?_
    exact (List.map_congr_left (h entry hentry)).trans (List.map_id entry.2)
  rw [mapOps, hprocedures, List.map_id]

/-- A program listed from its document shows the operations of the program, and no `null`
for a map that was never made: it is the listing of the program exactly if no update
document is such a map. -/
theorem listing_ofDocument {p : Program} (h : p.Built) (hdistinct : Distinct p.procedures) :
    ∃ document, p.text? = some document ∧
      (ofDocument document p.frames).listing = (p.mapOps Op.withoutNoMap).listing ∧
      ((ofDocument document p.frames).listing = p.listing ↔
        ∀ entry ∈ p.procedures, .createUpdateDoc .noMap ∉ entry.2) := by
  have hlisting := h.listing_ofDocument_eq hdistinct
  refine ⟨p.document.text, h.text?_eq, hlisting, ?_⟩
  rw [hlisting]
  constructor
  · intro hsame entry hentry hop
    have hlt := length_listing_lt hdistinct hentry hop rfl
    rw [hsame] at hlt
    exact lt_irrefl _ hlt
  · intro hnone
    rw [mapOps_eq_self]
    intro entry hentry op hop
    apply Op.withoutNoMap_eq_self
    rw [ne_eq, (h entry hentry op hop).data_eq_noMap_iff]
    rintro rfl
    exact hnone entry hentry hop

/-- Procedures with texts, numbers and an update document. -/
def befriend : Program where
  procedures := [("run", [.instantiateText "<alice>\n", .instantiateInt (-3),
      .instantiateDouble (.finite true (3 * 2 ^ 51) 60), .queryStore "users" none,
      .createUpdateDoc (.map [("$push", .map [("\"", .none)])]), .updateOne "users"]),
    ("idle", [])]
  frames := [("run", 2)]

theorem built_befriend : befriend.Built := by
  simp only [Built, befriend, List.forall_mem_cons]
  refine ⟨⟨.instantiateText _, .instantiateInt ⟨by decide, by decide⟩,
    .instantiateDouble ⟨by decide, by decide, by decide, .inl (by decide)⟩,
    .queryStore _ (by simp), .createUpdateDoc ?_, .updateOne _, by simp⟩, by simp, by simp⟩
  simp only [List.forall_mem_cons]
  exact ⟨.map (List.forall_mem_singleton.mpr .none), by simp⟩

theorem listing_ofDocument_befriend :
    befriend.Built ∧ Distinct befriend.procedures ∧
      ∃ document, befriend.text? = some document ∧
        (ofDocument document befriend.frames).listing = befriend.listing := by
  have hdistinct : Distinct befriend.procedures := by simp [Distinct, befriend]
  obtain ⟨document, htext, -, hiff⟩ := listing_ofDocument built_befriend hdistinct
  refine ⟨built_befriend, hdistinct, document, htext, hiff.mpr ?_⟩
  simp [befriend, Op.createUpdateDoc, Op.instantiateText, Op.instantiateInt, Op.instantiateDouble,
    Op.queryStore, Op.updateOne]

/-- A program whose update document was never made. -/
def unmadeDocument : Program where
  procedures := [("f", [.createUpdateDoc .noMap])]

/-- The listing of the program shows a `null`, that of its document does not. -/
theorem listing_unmadeDocument :
    unmadeDocument.Built ∧ Distinct unmadeDocument.procedures ∧
      unmadeDocument.listing = "; f\n0000 createUpdateDoc null\n" ∧
      ∃ document, unmadeDocument.text? = some document ∧
        (ofDocument document unmadeDocument.frames).listing = "; f\n0000 createUpdateDoc\n" := by
  have hbuilt : unmadeDocument.Built := by
    simp only [Built, unmadeDocument, List.forall_mem_singleton]
    exact .createNoUpdateDoc
  have hdistinct : Distinct unmadeDocument.procedures := by simp [Distinct, unmadeDocument]
  have hlisting := hbuilt.listing_ofDocument_eq hdistinct
  have hnames : unmadeDocument.procedureNames = ["f"] := List.mergeSort_singleton "f"
  have hline : Op.listing [.createUpdateDoc .noMap] = "0000 createUpdateDoc null\n" := by
    simp only [Op.listing, Op.line, Op.createUpdateDoc, Op.text_noMap, List.zipIdx_cons,
      List.zipIdx_nil, List.map_cons, List.map_nil]
    rfl
  refine ⟨hbuilt, hdistinct, ?_, unmadeDocument.document.text, hbuilt.text?_eq, ?_⟩
  · have hheader : unmadeDocument.header "f" = "; f\n" := rfl
    have hprocedure : unmadeDocument.procedure "f" = [.createUpdateDoc .noMap] := rfl
    rw [listing, hnames, List.map_singleton, hheader, hprocedure, hline]
    rfl
  · rw [hlisting, listing, procedureNames_mapOps, hnames]
    rfl

end Program

end StoredProc
