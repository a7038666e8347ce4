import StoredProc.Proofs.Table
import StoredProc.Registry

/-! # What a registry holds

The registry of a manifest is built entity by entity. Each entity adds the schema it
declares, if it has one, at the end of the table, and so does each store. A name is
registered once, so every parameter of the manifest is found under its name.
-/

namespace StoredProc

namespace Entity

/-- The schema that an entity declares, with the name it is registered under. -/
def schema? : Entity → Option (String × DataType)
  | .struct name fields => some (name, .object fields)
  | .function decl =>
    decl.parameter.map fun parameter => (Registry.parameterName decl.name, parameter.type)
  | .enum .. | .store .. => none

/-- The name and the record fields of a store. -/
def store? : Entity → Option (String × Fields)
  | .store name fields => some (name, fields)
  | .struct .. | .enum .. | .function _ => none

theorem store?_eq_some {entity : Entity} {name : String} {fields : Fields} :
    entity.store? = some (name, fields) ↔ entity = .store name fields := by
  cases entity <;> simp [store?]

end Entity

namespace Registry

variable {r final : Registry} {entity : Entity} {entities : List Entity}

/-- A registry with what some entities declare. -/
def append (r : Registry) (entities : List Entity) : Registry where
  schemas := r.schemas ++ entities.filterMap Entity.schema?
  stores := r.stores ++ entities.filterMap Entity.store?

theorem append_append (r : Registry) (first second : List Entity) :
    (r.append first).append second = r.append (first ++ second) := by
  simp [append]

theorem append_of_none (r : Registry) (hschema : entity.schema? = none)
    (hstore : entity.store? = none) : r.append [entity] = r := by
  rw [append, List.filterMap_cons_none hschema, List.filterMap_cons_none hstore,
    List.filterMap_nil, List.filterMap_nil, List.append_nil, List.append_nil]

/-- No name is registered twice. -/
structure Distinct (r : Registry) : Prop where
  schemas : Table.Distinct r.schemas
  stores : Table.Distinct r.stores

/-- A schema is added behind the others, under a name that is new. -/
theorem addSchema_eq_ok {name : String} {schema : DataType}
    (h : r.addSchema name schema = .ok final) :
    final = { r with schemas := r.schemas ++ [(name, schema)] } ∧
      name ∉ r.schemas.map Prod.fst := by
  unfold addSchema at h
  split at h
  next => cases h
  next hnone =>
    cases h
    refine ⟨rfl, ?_⟩
    rw [List.mem_map]
    rintro ⟨entry, hentry, rfl⟩
    simpa using List.findIdx?_eq_none_iff.mp hnone entry hentry

/-- An entity is registered at the end, under names that are new. -/
theorem add_eq_ok (h : r.add entity = .ok final) :
    final = r.append [entity] ∧ (r.Distinct → final.Distinct) := by
  have hschema : ∀ {name : String} {schema : DataType}, entity.schema? = some (name, schema) →
      entity.store? = none → r.addSchema name schema = .ok final →
        final = r.append [entity] ∧ (r.Distinct → final.Distinct) := by
    intro name schema hschema hstore hadd
    obtain ⟨rfl, hfresh⟩ := addSchema_eq_ok hadd
    refine ⟨by simp [append, hschema, hstore], fun hdistinct => ⟨?_, hdistinct.stores⟩⟩
    exact Table.Distinct.append_singleton hdistinct.schemas hfresh
  cases entity with
  | struct name fields => exact hschema rfl rfl h
  | enum name variants =>
      cases h
      exact ⟨(append_of_none r rfl rfl).symm, id⟩
  | function decl =>
      cases hparameter : decl.parameter with
      | none =>
          simp only [add, hparameter] at h
          cases h
          exact ⟨(append_of_none r (by simp [Entity.schema?, hparameter]) rfl).symm, id⟩
      | some parameter =>
          simp only [add, hparameter] at h
          exact hschema (by simp [Entity.schema?, hparameter]) rfl h
  | store name fields =>
      cases hfound : r.store? name with
      | some held => simp [add, hfound] at h
      | none =>
          simp only [add, hfound] at h
          cases h
          refine ⟨by simp [append, Entity.schema?, Entity.store?], fun hdistinct =>
            ⟨hdistinct.schemas, ?_⟩⟩
          exact Table.Distinct.append_singleton hdistinct.stores
            (Table.lookup_eq_none_iff.mp hfound)

/-- Entities are registered in the order of their declarations, and their names stay distinct. -/
theorem foldlM_add_eq_ok (h : entities.foldlM add r = .ok final) :
    final = r.append entities ∧ (r.Distinct → final.Distinct) := by
  induction entities generalizing r with
  | nil =>
      cases h
      exact ⟨by simp [append], id⟩
  | cons entity rest ih =>
      rw [List.foldlM_cons] at h
      cases hadd : r.add entity with
      | error cause => simp [hadd, bind, Except.bind] at h
      | ok next =>
          rw [hadd] at h
          obtain ⟨rfl, hfirst⟩ := add_eq_ok hadd
          obtain ⟨rfl, hrest⟩ := ih h
          exact ⟨append_append r [entity] rest, hrest ∘ hfirst⟩

variable {m : Manifest} {f : Function} {parameter : Parameter}

/-- The registry of a manifest lists what the entities declare. -/
theorem ofManifest_eq_ok (h : ofManifest m = .ok r) :
    r = ({} : Registry).append m.entities ∧ r.Distinct := by
  obtain ⟨hr, hdistinct⟩ := foldlM_add_eq_ok h
  exact ⟨hr, hdistinct ⟨List.nodup_nil, List.nodup_nil⟩⟩

/-- The schema of a parameter is in the registry of its manifest. -/
theorem mem_schemas_of_mem_entities (h : ofManifest m = .ok r) (hf : .function f ∈ m.entities)
    (hparameter : f.parameter = some parameter) :
    (parameterName f.name, parameter.type) ∈ r.schemas := by
  rw [(ofManifest_eq_ok h).1]
  refine List.mem_append_right _ (List.mem_filterMap.mpr ⟨_, hf, ?_⟩)
  simp [Entity.schema?, hparameter]

theorem parameterIndex?_ne_none (h : ofManifest m = .ok r) (hf : .function f ∈ m.entities)
    (hparameter : f.parameter = some parameter) : r.parameterIndex? f.name ≠ none := by
  have hmem := mem_schemas_of_mem_entities h hf hparameter
  intro hnone
  exact absurd (List.findIdx?_eq_none_iff.mp hnone _ hmem) (by simp)

/-- The index of a parameter leads to its schema. -/
theorem schema_of_parameterIndex? (h : ofManifest m = .ok r) (hf : .function f ∈ m.entities)
    (hparameter : f.parameter = some parameter) {index : Nat}
    (hindex : r.parameterIndex? f.name = some index) :
    (r.schemas.map Prod.snd)[index]? = some parameter.type := by
  obtain ⟨hlt, hname, _⟩ := List.findIdx?_eq_some_iff_getElem.mp hindex
  have hdistinct := (ofManifest_eq_ok h).2.schemas
  have hparameter := mem_schemas_of_mem_entities h hf hparameter
  have hentry : (parameterName f.name, r.schemas[index].2) ∈ r.schemas := by
    rw [← beq_iff_eq.mp hname]
    exact List.getElem_mem hlt
  rw [← Table.lookup_eq_some_iff hdistinct] at hparameter hentry
  rw [hparameter, Option.some.injEq] at hentry
  rw [List.getElem?_map, List.getElem?_eq_getElem hlt, hentry]
  rfl

end Registry

/-- The functions are the entities of that kind. -/
theorem Manifest.mem_functions {m : Manifest} {f : Function} :
    f ∈ m.functions ↔ .function f ∈ m.entities := by
  rw [Manifest.functions, List.mem_filterMap]
  constructor
  · rintro ⟨entity, hmem, hf⟩
    cases entity with
    | function decl =>
        cases hf
        exact hmem
    | struct | enum | store => cases hf
  · intro hmem
    exact ⟨_, hmem, rfl⟩

end StoredProc
