import StoredProc.Proofs.DataType.Documents
import StoredProc.Proofs.DataType.Reordering
import StoredProc.Proofs.Json.LastMember

/-! # Types as they are read

Whatever a document describes, the type that is read from it lists the fields of its
objects by name, each once, and its references name a store. These are the types that
their own document describes.
-/

namespace StoredProc.DataType

/-- A type in the form in which it is read. -/
structure Normal (type : DataType) : Prop where
  isDistinct : type.isDistinct = true
  namesStores : type.namesStores = true
  sorted : type.sorted = type

namespace Normal

theorem prim (p : Primitive) : Normal (.prim p) := ⟨rfl, rfl, rfl⟩

theorem any : Normal .any := ⟨rfl, rfl, rfl⟩

theorem nothing : Normal .nothing := ⟨rfl, rfl, rfl⟩

theorem ref {store : String} (h : store.isEmpty = false) : Normal (.ref store) :=
  ⟨rfl, by rw [DataType.namesStores, h]; rfl, rfl⟩

variable {type : DataType} {fields : List (String × DataType)}

theorem array (h : Normal type) : Normal (.array type) :=
  ⟨h.isDistinct, h.namesStores, congrArg DataType.array h.sorted⟩

theorem optional (h : Normal type) : Normal (.optional type) :=
  ⟨h.isDistinct, h.namesStores, congrArg DataType.optional h.sorted⟩

/-- Fields in the strict order of their names are distinct and sorted. -/
theorem object (hnames : fields.Pairwise fun a b => a.1 < b.1)
    (h : ∀ field ∈ fields, Normal field.2) : Normal (.object fields) where
  isDistinct := by
    have hnodup : (fields.map Prod.fst).Nodup := by
      refine List.pairwise_map.mpr (hnames.imp ?_)
      intro a b hlt heq
      exact String.lt_irrefl b.1 (heq ▸ hlt)
    rw [DataType.isDistinct, decide_eq_true hnodup, Bool.true_and, fieldsDistinct_iff]
    exact fun field hfield => (h field hfield).isDistinct
  namesStores := by
    rw [DataType.namesStores, fieldsNameStores_iff]
    exact fun field hfield => (h field hfield).namesStores
  sorted := by
    have hfields : sortedFields fields = fields := by
      rw [sortedFields_eq_map]
      refine (List.map_congr_left fun field hfield => ?_).trans (List.map_id fields)
      exact Prod.ext rfl (h field hfield).sorted
    rw [DataType.sorted, hfields, sortFields_eq_of_pairwise hnames (.refl _)]

/-- A type in the form in which it is read is what its document describes. -/
theorem ofJson_toJson (h : Normal type) : ofJson type.toJson = .ok type := by
  rw [DataType.ofJson_toJson h.isDistinct h.namesStores, h.sorted]

end Normal

/-! ## Types that are read -/

/-- The collected fields are those that were given, all of them read. -/
theorem eq_map_of_collectFields {fields : List (String × Except DecodeError DataType)}
    {types : List (String × DataType)} (h : collectFields fields = .ok types) :
    fields = types.map fun field => (field.1, .ok field.2) := by
  induction fields generalizing types with
  | nil =>
      cases h
      rfl
  | cons field rest ih =>
      obtain ⟨name, type⟩ := field
      cases type with
      | error cause => cases h
      | ok type =>
          rw [collectFields] at h
          cases hrest : collectFields rest with
          | error cause =>
              rw [hrest] at h
              cases h
          | ok others =>
              rw [hrest] at h
              cases h
              rw [ih hrest]
              rfl

/-- Fields are sorted before they are collected. -/
theorem normal_of_collectFields {fields : List (String × Except DecodeError DataType)}
    {types : List (String × DataType)} (h : collectFields (sortFields fields) = .ok types)
    (hfields : ∀ field ∈ fields, ∀ type, field.2 = .ok type → Normal type) :
    Normal (.object types) := by
  have hsorted := eq_map_of_collectFields h
  refine .object ?_ fun field hfield => ?_
  · have hnames := pairwise_sortFields fields
    rw [hsorted, List.pairwise_map] at hnames
    exact hnames
  · have hmem : (field.1, Except.ok field.2) ∈ sortFields fields := by
      rw [hsorted]
      exact List.mem_map_of_mem hfield
    exact hfields _ (mem_of_mem_sortFields hmem) field.2 rfl

/-- The parts of the data of a document that are types have the form in which they are
read. -/
def Data.Normal : Data → Prop
  | .list items => ∀ item ∈ items, ∀ type, item = .ok type → type.Normal
  | .map (some fields) => ∀ field ∈ fields, ∀ type, field.2 = .ok type → type.Normal
  | _ => True

/-- A type is normal if the types in its data are. -/
theorem Data.Normal.ofData {data : Data} (h : data.Normal) {kind : String} {type : DataType}
    (hread : DataType.ofData kind data = .ok type) : type.Normal := by
  unfold DataType.ofData at hread
  split at hread
  -- The kinds without data come first.
  · exact Except.ok.inj hread ▸ .prim .string
  · exact Except.ok.inj hread ▸ .prim .int
  · exact Except.ok.inj hread ▸ .prim .double
  · exact Except.ok.inj hread ▸ .prim .bool
  · exact Except.ok.inj hread ▸ .any
  · exact Except.ok.inj hread ▸ .nothing
  · split at hread
    next store =>
      split at hread
      next => cases hread
      next hstore =>
        cases hread
        exact .ref (Bool.eq_false_iff.mpr hstore)
    next => cases hread
  · split at hread
    next item =>
      cases item with
      | error cause => cases hread
      | ok elem =>
          cases hread
          exact .array (h _ (List.mem_singleton_self _) elem rfl)
    next => cases hread
  · split at hread
    next item =>
      cases item with
      | error cause => cases hread
      | ok inner =>
          cases hread
          exact .optional (h _ (List.mem_singleton_self _) inner rfl)
    next => cases hread
  · split at hread
    next =>
      cases hread
      exact .object .nil (by simp)
    next fields =>
      cases hcollected : collectFields (sortFields fields) with
      | error cause =>
          rw [hcollected] at hread
          cases hread
      | ok types =>
          rw [hcollected] at hread
          cases hread
          exact normal_of_collectFields hcollected h
    next => cases hread
  · cases hread

/-- By induction on the document, every type that is read from it is normal, and so are the types
in its data. -/
theorem normal_of_ofJson_readData (document : Json) :
    (∀ type, ofJson document = .ok type → type.Normal) ∧ (readData document).Normal := by
  induction document using Json.inductionOn with
  | null | bool | num | str =>
      refine ⟨fun type h => ?_, trivial⟩
      cases h
  | arr source items ih =>
      constructor
      · intro type h
        cases h
      · rw [readData, readItems_eq_map]
        exact List.forall_mem_map.mpr fun item hitem => (ih item hitem).1
  | obj source members ih =>
      constructor
      · intro type h
        rw [ofJson] at h
        split at h
        next =>
          refine Data.Normal.ofData ?_ h
          rw [lastData_eq]
          cases hlast : Json.last? "data" members with
          | none => exact trivial
          | some value =>
              obtain ⟨name, hmem, -⟩ := Json.exists_mem_of_last? hlast
              exact (ih _ hmem).2
        next => cases h
      · rw [readData, readFields_eq_map]
        split
        · exact List.forall_mem_map.mpr fun member hmember => (ih member hmember).1
        · exact trivial

/-- A type that is read has the form in which types are read. -/
theorem normal_of_ofJson {document : Json} {type : DataType} (h : ofJson document = .ok type) :
    type.Normal :=
  (normal_of_ofJson_readData document).1 type h

end StoredProc.DataType
