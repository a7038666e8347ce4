import StoredProc.DataType.Codec
import StoredProc.Proofs.DataType.FieldOrder
import StoredProc.Proofs.DataType.Loosening
import StoredProc.Proofs.Json.Spelling

/-! # Types and their texts

The text of a type is read back as the type, and so it tells types apart that do not have
the same structure. It does not tell in which order the fields of an object were given:
reading lists them by name.
-/

namespace StoredProc.DataType

open Table (Distinct)

mutual

/-- Every reference names a store. -/
def namesStores : DataType → Bool
  | .prim _ | .any | .nothing => true
  | .object fields => fieldsNameStores fields
  | .array elem => elem.namesStores
  | .optional inner => inner.namesStores
  | .ref store => !store.isEmpty

def fieldsNameStores : List (String × DataType) → Bool
  | [] => true
  | (_, type) :: rest => type.namesStores && fieldsNameStores rest

end

mutual

/-- The same type with the fields of its objects listed by name. -/
def sorted : DataType → DataType
  | .object fields => .object (sortFields (sortedFields fields))
  | .array elem => .array elem.sorted
  | .optional inner => .optional inner.sorted
  | type => type

def sortedFields : List (String × DataType) → List (String × DataType)
  | [] => []
  | (name, type) :: rest => (name, type.sorted) :: sortedFields rest

end

variable {fields others : List (String × DataType)} {type other : DataType}

theorem fieldsNameStores_iff :
    fieldsNameStores fields = true ↔ ∀ field ∈ fields, field.2.namesStores = true := by
  induction fields with
  | nil => simp [fieldsNameStores]
  | cons field rest ih => simp [fieldsNameStores, ih]

theorem sortedFields_eq_map (fields : List (String × DataType)) :
    sortedFields fields = fields.map fun field => (field.1, field.2.sorted) := by
  induction fields with
  | nil => rfl
  | cons field rest ih => rw [sortedFields, ih, List.map_cons]

theorem fieldsToJson_eq_map (fields : List (String × DataType)) :
    fieldsToJson fields = fields.map fun field => (field.1, field.2.toJson) := by
  induction fields with
  | nil => rfl
  | cons field rest ih => rw [fieldsToJson, ih, List.map_cons]

/-! ## Listing fields by name -/

theorem distinct_sortedFields (h : Distinct fields) : Distinct (sortedFields fields) := by
  rw [sortedFields_eq_map]
  exact distinct_map sorted h

theorem field?_sortFields (h : Distinct fields) (name : String) :
    field? (sortFields (sortedFields fields)) name = (field? fields name).map sorted := by
  have hdistinct := distinct_sortedFields h
  rw [field?, ← Table.lookup_eq_of_perm hdistinct (sortFields_perm hdistinct).symm,
    sortedFields_eq_map]
  exact Table.lookup_map sorted fields name

/-- Listing the fields by name does not change the structure. -/
theorem same_sorted (h : type.isDistinct = true) : Same type type.sorted := by
  induction type using inductionOn with
  | object fields ih =>
      rw [sorted]
      refine .object (fun name => ?_) fun name type other htype hother => ?_
      · rw [field?_sortFields (nodup_of_isDistinct h), Option.isSome_map]
      · rw [field?_sortFields (nodup_of_isDistinct h), htype] at hother
        cases hother
        exact ih _ (mem_of_field? htype) (isDistinct_of_field? h htype)
  | array elem ih => exact .array (ih h)
  | optional inner ih => exact .optional (ih h)
  | prim | ref | any | nothing => exact .refl _

/-! ## Writing -/

/-- The order in which the entries of a dictionary are given does not matter. -/
theorem dictionary_eq_of_perm {members others : List (String × Json)} (h : Distinct members)
    (hperm : members.Perm others) : Json.dictionary members = Json.dictionary others := by
  rw [Json.dictionary, Json.dictionary]
  congr 1
  refine Text.mergeSort_key_eq_of_perm Json.dictionaryKey ?_ (hperm.map _)
  intro a ha b hb heq
  obtain ⟨first, hfirst, rfl⟩ := List.mem_map.mp ha
  obtain ⟨second, hsecond, rfl⟩ := List.mem_map.mp hb
  have hlist := congrArg String.toList heq
  simp only [Json.dictionaryKey, String.toList_append, List.append_cancel_left_eq,
    List.append_cancel_right_eq, String.toList_inj] at hlist
  have hname : first.1 = second.1 := Json.escape_injective hlist
  rw [List.inj_on_of_nodup_map h hfirst hsecond hname]

theorem compact_typeDocument {kind : String} {data : Json} (h : data.Compact) :
    (typeDocument kind data).Compact := by
  apply Json.compact_object
  rintro member hmember
  simp only [List.mem_cons, List.not_mem_nil, or_false] at hmember
  rcases hmember with rfl | rfl
  · exact Json.compact_string kind
  · exact h

/-- The document of every type is compact. -/
theorem compact_toJson (type : DataType) : type.toJson.Compact := by
  induction type using inductionOn with
  | object fields ih =>
      apply compact_typeDocument
      rw [fieldsToJson_eq_map]
      apply Json.compact_dictionary
      intro member hmember
      obtain ⟨field, hfield, rfl⟩ := List.mem_map.mp hmember
      exact ih field hfield
  | array elem ih => exact compact_typeDocument (.array (by simpa using ih))
  | optional inner ih => exact compact_typeDocument (.array (by simpa using ih))
  | ref store => exact compact_typeDocument (Json.compact_string store)
  | prim | any | nothing => exact compact_typeDocument .null

/-- Types of the same structure have one document. -/
theorem toJson_eq_of_same (h : Same type other) (htype : type.isDistinct = true)
    (hother : other.isDistinct = true) : type.toJson = other.toJson := by
  induction h with
  | opened hopening => cases hopening
  | @object fields others hnames _ ih =>
      have hnodup := nodup_of_isDistinct htype
      have hnodup' := nodup_of_isDistinct hother
      rw [toJson, toJson, fieldsToJson_eq_map, fieldsToJson_eq_map]
      congr 1
      apply dictionary_eq_of_perm (distinct_map toJson hnodup)
      -- No name occurs twice, so it is enough that both sides have the same entries.
      rw [List.perm_ext_iff_of_nodup (.of_map _ (distinct_map toJson hnodup))
        (.of_map _ (distinct_map toJson hnodup'))]
      rintro ⟨name, document⟩
      rw [← Table.lookup_eq_some_iff (distinct_map toJson hnodup),
        ← Table.lookup_eq_some_iff (distinct_map toJson hnodup'), Table.lookup_map,
        Table.lookup_map]
      have hsome := hnames name
      simp only [field?] at hsome ih
      cases hfirst : fields.lookup name with
      | none =>
          rw [hfirst, Option.isSome_none, eq_comm, Option.isSome_eq_false_iff,
            Option.isNone_iff_eq_none] at hsome
          rw [hsome]
      | some first =>
          obtain ⟨second, hsecond⟩ : ∃ second, others.lookup name = some second :=
            Option.isSome_iff_exists.mp (by rw [← hsome, hfirst]; rfl)
          rw [hsecond, Option.map_some, Option.map_some,
            ih name first second hfirst hsecond (isDistinct_of_field? htype hfirst)
              (isDistinct_of_field? hother hsecond)]
  | array _ ih => rw [toJson, toJson, ih htype hother]
  | optional _ ih => rw [toJson, toJson, ih htype hother]
  | prim | ref | any | nothing => rfl

/-! ## Reading -/

theorem named_kind : Json.named "kind" (Json.escape "kind") = true := by
  simp [Json.named]

theorem named_data : Json.named "data" (Json.escape "data") = true := by
  simp [Json.named]

theorem not_named_data : Json.named "data" (Json.escape "kind") = false := by
  simp [Json.named]

theorem not_named_kind : Json.named "kind" (Json.escape "data") = false := by
  simp [Json.named]

/-- A type is read by its kind from its data. -/
theorem ofJson_typeDocument (kind : String) (data : Json) :
    ofJson (typeDocument kind data) = ofData kind (readData data) := by
  have hsound : Json.soundNames [(Json.escape "kind", Json.string kind),
      (Json.escape "data", data)] = true := by
    simp [Json.soundNames]
  have hkind : Json.textMember? "kind" [(Json.escape "kind", Json.string kind),
      (Json.escape "data", data)] = some kind := by
    simp [Json.textMember?, named_kind, not_named_kind, Json.string, Json.string?]
  have hdata : lastData [(Json.escape "kind", Json.string kind), (Json.escape "data", data)] =
      readData data := by
    simp only [lastData, named_data, not_named_data, if_true]
    cases readData data <;> rfl
  simp only [typeDocument, Json.object, Json.written, List.map_cons, List.map_nil, ofJson, hsound,
    hkind, hdata]

theorem readFields_map (members : List (String × Json)) :
    readFields (members.map fun member => (Json.escape member.1, member.2)) =
      some (members.map fun member => (member.1, ofJson member.2)) := by
  induction members with
  | nil => rfl
  | cons member rest ih =>
      simp only [List.map_cons, readFields, ih, Json.unescape?_escape]

theorem collectFields_map (fields : List (String × DataType)) :
    collectFields (fields.map fun field => (field.1, .ok field.2)) = .ok fields := by
  induction fields with
  | nil => rfl
  | cons field rest ih =>
      simp only [List.map_cons, collectFields, ih]
      rfl

/-- The members of a dictionary are read as fields in some order. -/
theorem exists_readData_dictionary (members : List (String × Json)) :
    ∃ listed : List (String × Json), listed.Perm members ∧ readData (.dictionary members) =
      .map (some (listed.map fun member => (member.1, ofJson member.2))) := by
  let before (a b : String × Json) : Bool :=
    Json.dictionaryKey (Json.escape a.1, a.2) ≤ Json.dictionaryKey (Json.escape b.1, b.2)
  refine ⟨members.mergeSort before, List.mergeSort_perm _ _, ?_⟩
  rw [Json.dictionary, Json.written, readData, ← readFields_map, List.map_mergeSort]
  intros
  rfl

/-- A document is read as the type it was written for. -/
theorem ofJson_toJson (hdistinct : type.isDistinct = true) (hnamed : type.namesStores = true) :
    ofJson type.toJson = .ok type.sorted := by
  induction type using inductionOn with
  | prim p =>
      rw [toJson, ofJson_typeDocument]
      cases p <;> rfl
  | object fields ih =>
      have hnodup : Distinct fields := nodup_of_isDistinct hdistinct
      have hread : ∀ field ∈ fields, ofJson field.2.toJson = .ok field.2.sorted := by
        intro field hfield
        simp only [isDistinct, Bool.and_eq_true, fieldsDistinct_iff] at hdistinct
        exact ih field hfield (hdistinct.2 field hfield)
          (fieldsNameStores_iff.mp hnamed field hfield)
      obtain ⟨listed, hperm, hdata⟩ := exists_readData_dictionary (fieldsToJson fields)
      -- Whatever the order in the document, the fields are those of the type.
      have hfields : (listed.map fun member => (member.1, ofJson member.2)).Perm
          ((sortedFields fields).map fun field => (field.1, .ok field.2)) := by
        refine (hperm.map _).trans ?_
        rw [fieldsToJson_eq_map, sortedFields_eq_map, List.map_map, List.map_map]
        refine .of_eq (List.map_congr_left fun field hfield => ?_)
        simp [hread field hfield]
      have hsorted := distinct_sortedFields hnodup
      rw [toJson, ofJson_typeDocument, hdata]
      have hcollected := sortFields_eq_of_perm
        ((distinct_map Except.ok hsorted).of_perm hfields.symm) hfields
      rw [sortFields_map Except.ok hsorted] at hcollected
      simp only [ofData, hcollected, collectFields_map]
      rfl
  | array elem ih =>
      rw [toJson, ofJson_typeDocument]
      simp only [Json.array, readData, readItems, ih hdistinct hnamed]
      rfl
  | optional inner ih =>
      rw [toJson, ofJson_typeDocument]
      simp only [Json.array, readData, readItems, ih hdistinct hnamed]
      rfl
  | ref store =>
      rw [toJson, ofJson_typeDocument]
      have hstore : store.isEmpty = false := by simpa [namesStores] using hnamed
      simp [Json.string, readData, ofData, hstore, sorted]
  | any | nothing =>
      rw [toJson, ofJson_typeDocument]
      rfl

/-- The text of a type is read back as that type, its fields listed by name. Two types
have one text exactly if they have the same structure, in whatever order the fields of
their objects are given. -/
theorem parse_text (hdistinct : type.isDistinct = true) (hnamed : type.namesStores = true) :
    parse type.text = .ok type.sorted ∧ Same type type.sorted ∧
    ∀ other : DataType, other.isDistinct = true → other.namesStores = true →
      (other.text = type.text ↔ Same type other) := by
  have hread : ∀ given : DataType, given.isDistinct = true → given.namesStores = true →
      parse given.text = .ok given.sorted := by
    intro given hgiven hstores
    rw [parse, text, (compact_toJson given).parse?_text]
    exact ofJson_toJson hgiven hstores
  refine ⟨hread type hdistinct hnamed, same_sorted hdistinct, fun other hother hstores => ?_⟩
  constructor
  · intro htext
    have hparse := hread other hother hstores
    rw [htext, hread type hdistinct hnamed, Except.ok.injEq] at hparse
    have hsame := same_sorted hdistinct
    rw [hparse] at hsame
    exact hsame.trans (same_sorted hother).symm
  · intro hsame
    rw [text, text, toJson_eq_of_same hsame hdistinct hother]

/-- A type with names that must be escaped, its fields in no order. -/
def ofEscapedNames : DataType :=
  .object [("b\"<", .array (.ref "users")), ("a", .optional .any), ("", .object [])]

/-- The names come back unescaped, and their fields in order. -/
theorem parse_text_ofEscapedNames :
    ofEscapedNames.isDistinct = true ∧ ofEscapedNames.namesStores = true ∧
    parse ofEscapedNames.text =
      .ok (.object [("", .object []), ("a", .optional .any), ("b\"<", .array (.ref "users"))]) := by
  have hdistinct : ofEscapedNames.isDistinct = true := by decide
  have hnamed : ofEscapedNames.namesStores = true := by decide
  have hsorted : ofEscapedNames.sorted =
      .object [("", .object []), ("a", .optional .any), ("b\"<", .array (.ref "users"))] := by
    have hempty : sorted (.object []) = .object [] := by simp [sorted, sortedFields, sortFields]
    have hfields : sortedFields [("b\"<", .array (.ref "users")), ("a", .optional .any),
        ("", .object [])] = [("", .object []), ("a", .optional .any),
        ("b\"<", .array (.ref "users"))].reverse := by
      rw [sortedFields, sortedFields, sortedFields, sortedFields, hempty]
      rfl
    rw [ofEscapedNames, sorted, hfields]
    exact congrArg DataType.object
      (sortFields_eq_of_pairwise (by decide) (List.reverse_perm _))
  exact ⟨hdistinct, hnamed, hsorted ▸ (parse_text hdistinct hnamed).1⟩

end StoredProc.DataType
