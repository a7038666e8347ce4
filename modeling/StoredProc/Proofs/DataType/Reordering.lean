import StoredProc.Proofs.DataType.FieldOrder
import StoredProc.Proofs.Json.Members

/-! # The order of the fields in a type document

A type document whose maps of fields are written in another order, at any depth,
describes the same type, or is refused for the same reason.
-/

namespace StoredProc.DataType

open Json (Replaced Compound)

/-- Two type documents that differ in the order of the fields of one object type, which
may be an inner type of the document. How the documents are spelled does not matter. -/
inductive Reordered : Json → Json → Prop
  | fields {name source source' inner inner' : String}
      {members members' fields fields' : List (String × Json)}
      (hname : Json.named "data" name = true)
      (hmembers : Replaced (name, .obj inner fields) (name, .obj inner' fields') members members')
      (hdistinct : (fields.map fun field => Json.unescape? field.1).Nodup)
      (hperm : fields.Perm fields') :
      Reordered (.obj source members) (.obj source' members')
  | field {name key source source' inner inner' : String} {type type' : Json}
      {members members' fields fields' : List (String × Json)}
      (hname : Json.named "data" name = true)
      (hmembers : Replaced (name, .obj inner fields) (name, .obj inner' fields') members members')
      (hfields : Replaced (key, type) (key, type') fields fields') (htype : Reordered type type') :
      Reordered (.obj source members) (.obj source' members')
  | item {name source source' inner inner' : String} {type type' : Json}
      {members members' : List (String × Json)} {items items' : List Json}
      (hname : Json.named "data" name = true)
      (hmembers : Replaced (name, .arr inner items) (name, .arr inner' items') members members')
      (hitems : Replaced type type' items items') (htype : Reordered type type') :
      Reordered (.obj source members) (.obj source' members')

/-- The last member of the name `data` counts. -/
theorem lastData_eq (members : List (String × Json)) :
    lastData members = ((Json.last? "data" members).map readData).getD .absent := by
  induction members with
  | nil => rfl
  | cons member rest ih =>
      rw [lastData, Json.last?, ih]
      cases Json.last? "data" rest with
      | none => cases Json.named "data" member.1 <;> rfl
      | some found => cases found <;> rfl

theorem readItems_eq_map (items : List Json) : readItems items = items.map ofJson := by
  induction items with
  | nil => rfl
  | cons item rest ih => rw [readItems, ih, List.map_cons]

/-- Fields are read one by one, if all names can be read. -/
theorem readFields_eq_map (members : List (String × Json)) :
    readFields members = if Json.soundNames members
      then some (members.map fun member => ((Json.unescape? member.1).getD "", ofJson member.2))
      else none := by
  induction members with
  | nil => rfl
  | cons member rest ih =>
      have hsound : Json.soundNames (member :: rest) =
          ((Json.unescape? member.1).isSome && Json.soundNames rest) := rfl
      rw [readFields, ih, hsound, List.map_cons]
      cases Json.unescape? member.1 <;> cases Json.soundNames rest <;> rfl

/-- Fields with different names make one type in whatever order they are written. -/
theorem ofData_map_eq_of_perm {fields fields' : List (String × Json)}
    (hdistinct : (fields.map fun field => Json.unescape? field.1).Nodup)
    (hperm : fields.Perm fields') (kind : String) :
    ofData kind (.map (readFields fields)) = ofData kind (.map (readFields fields')) := by
  rw [readFields_eq_map, readFields_eq_map,
    show Json.soundNames fields = Json.soundNames fields' from hperm.all_eq]
  by_cases hsound : Json.soundNames fields' = true
  · rw [if_pos hsound, if_pos hsound]
    have hnames : Table.Distinct (fields.map fun field =>
        ((Json.unescape? field.1).getD "", ofJson field.2)) := by
      rw [Table.Distinct, List.map_map]
      have hsome : ∀ key ∈ fields.map fun field => Json.unescape? field.1, key.isSome = true := by
        intro key hkey
        obtain ⟨field, hfield, rfl⟩ := List.mem_map.mp hkey
        exact List.all_eq_true.mp hsound field (hperm.mem_iff.mp hfield)
      have hmap := hdistinct.map_on (f := (·.getD "")) fun a ha b hb heq => by
        obtain ⟨first, rfl⟩ := Option.isSome_iff_exists.mp (hsome a ha)
        obtain ⟨second, rfl⟩ := Option.isSome_iff_exists.mp (hsome b hb)
        exact congrArg some heq
      rwa [List.map_map] at hmap
    have hsorted := sortFields_eq_of_perm hnames (hperm.map _)
    unfold ofData
    split <;> first | rfl | simp only [hsorted]
  · rw [if_neg hsound, if_neg hsound]

section Data

variable {name source source' : String} {value value' : Json}
  {members members' : List (String × Json)}

/-- A type document says as much as its data does. -/
theorem ofJson_eq_of_data (hmembers : Replaced (name, value) (name, value') members members')
    (hcompound : Compound value value')
    (hdata : ∀ kind, ofData kind (readData value) = ofData kind (readData value')) :
    ofJson (.obj source members) = ofJson (.obj source' members') := by
  rw [ofJson, ofJson, Json.soundNames_eq hmembers, Json.textMember?_eq hmembers hcompound,
    lastData_eq, lastData_eq]
  obtain heq | ⟨-, hlast, hlast'⟩ := Json.last?_cases hmembers "data"
  · rw [heq]
  · rw [hlast, hlast', Option.map_some, Option.map_some, Option.getD_some, Option.getD_some]
    split
    · exact hdata _
    · rfl

end Data

theorem Reordered.compound {document document' : Json} (h : Reordered document document') :
    Compound document document' := by
  cases h <;> exact .objects ..

/-- The order of the fields of object types does not matter. -/
theorem Reordered.ofJson_eq {document document' : Json} (h : Reordered document document') :
    ofJson document = ofJson document' := by
  induction h with
  | fields _ hmembers hdistinct hperm =>
      exact ofJson_eq_of_data hmembers (.objects ..) (ofData_map_eq_of_perm hdistinct hperm)
  | field _ hmembers hfields _ ih =>
      apply ofJson_eq_of_data hmembers (.objects ..)
      intro kind
      rw [readData, readData, readFields_eq_map, readFields_eq_map, Json.soundNames_eq hfields,
        hfields.map_eq (by rw [ih])]
  | item _ hmembers hitems _ ih =>
      apply ofJson_eq_of_data hmembers (.lists ..)
      intro kind
      rw [readData, readData, readItems_eq_map, readItems_eq_map, hitems.map_eq ih]

end StoredProc.DataType
