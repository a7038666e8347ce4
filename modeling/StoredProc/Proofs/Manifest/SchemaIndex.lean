import Mathlib.Data.List.Nodup
import Mathlib.Data.List.Pairwise
import StoredProc.Proofs.Manifest.Names
import StoredProc.Proofs.Manifest.Registry

/-! # The index of schemas

The names of structs and the names made up for the parameters of functions share one
table, and the check of a manifest does not know of the latter. So a manifest has a
registry exactly if no struct has the name that is made up for a parameter. Then the
table numbers the names in the order of declaration, and each of them leads to the
schema that was declared under it.
-/

namespace StoredProc

/-! ## Manifests -/

namespace Manifest

variable {m next : Manifest} {entity : Entity} {entities : List Entity}

/-- Entities are accepted if they have names, and no name occurs twice. -/
theorem foldlM_add_eq_ok_iff (h : m.Distinct) :
    entities.foldlM add m = .ok next ↔
      (∀ entity ∈ entities, entity.name ≠ "") ∧
        ((m.entities ++ entities).map Entity.name).Nodup ∧
        next = { m with entities := m.entities ++ entities } := by
  induction entities generalizing m with
  | nil =>
      rw [List.append_nil]
      constructor
      · intro hnext
        cases hnext
        exact ⟨by simp, h, rfl⟩
      · rintro ⟨_, _, rfl⟩
        rfl
  | cons entity rest ih =>
      rw [List.foldlM_cons, bind_ok_iff]
      constructor
      · rintro ⟨middle, hadd, hrest⟩
        obtain ⟨hnames, hnodup, rfl⟩ := (ih (h.add hadd)).mp hrest
        obtain ⟨hname, _, rfl⟩ := add_eq_ok_iff.mp hadd
        rw [List.append_assoc, List.singleton_append] at hnodup ⊢
        exact ⟨List.forall_mem_cons.mpr ⟨hname, hnames⟩, hnodup, rfl⟩
      · rintro ⟨hnames, hnodup, rfl⟩
        obtain ⟨hname, hnames⟩ := List.forall_mem_cons.mp hnames
        have hfresh : entity.name ∉ m.entities.map Entity.name := by
          intro hmem
          rw [List.map_append, List.nodup_append] at hnodup
          exact hnodup.2.2 _ hmem _ (by simp) rfl
        have hadd := add_eq_ok_iff.mpr ⟨hname, hfresh, rfl⟩
        refine ⟨_, hadd, (ih (h.add hadd)).mpr ⟨hnames, ?_, ?_⟩⟩
        · rwa [List.append_assoc, List.singleton_append]
        · rw [List.append_assoc, List.singleton_append]

/-- Entities make up a manifest if they have names, and no name occurs twice. -/
theorem ofEntities_eq_ok_iff :
    ofEntities entities = .ok m ↔
      (∀ entity ∈ entities, entity.name ≠ "") ∧ (entities.map Entity.name).Nodup ∧
        m = { entities } :=
  foldlM_add_eq_ok_iff distinct_empty

end Manifest

/-! ## Registries -/

namespace Registry

variable {r : Registry} {m : Manifest} {entity : Entity} {entities : List Entity} {f : Function}
  {name : String} {schema : DataType} {fields : Fields}

theorem index?_eq_none_iff : r.index? name = none ↔ name ∉ r.schemas.map Prod.fst := by
  rw [index?, List.findIdx?_eq_none_iff, List.mem_map]
  constructor
  · rintro h ⟨entry, hentry, rfl⟩
    simpa using h entry hentry
  · intro h entry hentry
    exact beq_eq_false_iff_ne.mpr fun heq => h ⟨entry, hentry, heq⟩

/-- A name has the index at which it stands. -/
theorem index?_eq_some_iff (h : r.Distinct) {index : Nat} :
    r.index? name = some index ↔ (r.schemas.map Prod.fst)[index]? = some name := by
  have hstands : ∀ {found : Nat}, r.index? name = some found →
      (r.schemas.map Prod.fst)[found]? = some name := by
    intro found hfound
    obtain ⟨hlt, hname, _⟩ := List.findIdx?_eq_some_iff_getElem.mp hfound
    rw [List.getElem?_map, List.getElem?_eq_getElem hlt, Option.map_some, beq_iff_eq.mp hname]
  refine ⟨hstands, fun hindex => ?_⟩
  cases hfound : r.index? name with
  | none => exact absurd (List.mem_of_getElem? hindex) (index?_eq_none_iff.mp hfound)
  | some found =>
      have hlt := (List.getElem?_eq_some_iff.mp hindex).1
      have hsame := (List.getElem?_inj hlt h.schemas).mp (hindex.trans (hstands hfound).symm)
      exact congrArg some hsame.symm

theorem Distinct.of_append (h : (r.append entities).Distinct) : r.Distinct where
  schemas := h.schemas.sublist ((List.sublist_append_left _ _).map _)
  stores := h.stores.sublist ((List.sublist_append_left _ _).map _)

theorem notMem_of_distinct {α : Type} {table : List (String × α)} {value : α}
    (h : Table.Distinct (table ++ [(name, value)])) : name ∉ table.map Prod.fst := by
  intro hmem
  rw [Table.Distinct, List.map_append, List.nodup_append] at h
  exact h.2.2 _ hmem _ (by simp) rfl

/-- What an entity declares is registered if its name is new. -/
theorem add_of_distinct (h : (r.append [entity]).Distinct) :
    r.add entity = .ok (r.append [entity]) := by
  have hschema : ∀ {name : String} {schema : DataType}, entity.schema? = some (name, schema) →
      entity.store? = none → r.addSchema name schema = .ok (r.append [entity]) := by
    intro name schema hschema hstore
    have happend : r.append [entity] = { r with schemas := r.schemas ++ [(name, schema)] } := by
      simp [append, hschema, hstore]
    rw [happend] at h ⊢
    rw [addSchema, index?_eq_none_iff.mpr (notMem_of_distinct h.schemas)]
  cases entity with
  | struct name fields => exact hschema rfl rfl
  | enum name variants => rw [append_of_none r rfl rfl, add]
  | function decl =>
      rw [add]
      cases hparameter : decl.parameter with
      | none => rw [append_of_none r (by simp [Entity.schema?, hparameter]) rfl]
      | some parameter => exact hschema (by simp [Entity.schema?, hparameter]) rfl
  | store name fields =>
      have happend : r.append [.store name fields] =
          { r with stores := r.stores ++ [(name, fields)] } := by
        simp [append, Entity.schema?, Entity.store?]
      rw [happend] at h ⊢
      rw [add, store?, Table.lookup_eq_none_iff.mpr (notMem_of_distinct h.stores)]

theorem foldlM_add_of_distinct (h : (r.append entities).Distinct) :
    entities.foldlM add r = .ok (r.append entities) := by
  induction entities generalizing r with
  | nil => simp [append, pure, Except.pure]
  | cons entity rest ih =>
      rw [← List.singleton_append, ← append_append] at h ⊢
      rw [List.singleton_append, List.foldlM_cons, add_of_distinct h.of_append]
      exact ih h

/-- A manifest has a registry if no name would be registered twice. -/
theorem exists_ofManifest_iff :
    (∃ r, ofManifest m = .ok r) ↔ (({} : Registry).append m.entities).Distinct := by
  constructor
  · rintro ⟨r, hr⟩
    obtain ⟨rfl, hdistinct⟩ := ofManifest_eq_ok hr
    exact hdistinct
  · intro h
    exact ⟨_, foldlM_add_of_distinct h⟩

/-! ## Names that collide -/

theorem parameterName_inj {first second : String} :
    parameterName first = parameterName second ↔ first = second :=
  String.append_right_inj _

end Registry

namespace Entity

variable {entity : Entity} {entities : List Entity} {name : String} {schema : DataType}

/-- The names that entities register, in the order of declaration. -/
def schemaNames (entities : List Entity) : List String :=
  (entities.filterMap Entity.schema?).map Prod.fst

/-- A schema is registered for a struct or for a parameter. -/
theorem schema?_cases (h : entity.schema? = some (name, schema)) :
    (∃ fields, entity = .struct name fields ∧ schema = .object fields) ∨
      ∃ f parameter, entity = .function f ∧ f.parameter = some parameter ∧
        name = Registry.parameterName f.name ∧ schema = parameter.type := by
  cases entity with
  | struct =>
      cases h
      exact Or.inl ⟨_, rfl, rfl⟩
  | function f =>
      obtain ⟨parameter, hparameter, heq⟩ := Option.map_eq_some_iff.mp h
      cases heq
      exact Or.inr ⟨f, parameter, rfl, hparameter, rfl, rfl⟩
  | enum | store => cases h

/-- No struct has the name that is made up for the parameter of a function. -/
def Apart (entities : List Entity) : Prop :=
  ∀ name fields f, .struct name fields ∈ entities → .function f ∈ entities →
    f.parameter ≠ none → name ≠ "__func__" ++ f.name

/-- Entities with different names register different names if structs and parameters
are kept apart. -/
theorem schema?_ne (h : Apart entities) {first second : Entity} (hfirst : first ∈ entities)
    (hsecond : second ∈ entities) (hne : first.name ≠ second.name) {a b : String × DataType}
    (ha : first.schema? = some a) (hb : second.schema? = some b) : a.1 ≠ b.1 := by
  rcases schema?_cases ha with ⟨_, rfl, _⟩ | ⟨f, _, rfl, hf, hname, _⟩ <;>
    rcases schema?_cases hb with ⟨_, rfl, _⟩ | ⟨g, _, rfl, hg, hname', _⟩
  · exact hne
  · rw [hname']
    exact h _ _ g hfirst hsecond (by simp [hg])
  · rw [hname]
    exact (h _ _ f hsecond hfirst (by simp [hf])).symm
  · rw [hname, hname']
    exact fun heq => hne (Registry.parameterName_inj.mp heq)

/-- Where no two entities have one name, only a struct and a parameter can collide. -/
theorem nodup_schemaNames_iff (hnames : (entities.map Entity.name).Nodup) :
    (schemaNames entities).Nodup ↔ Apart entities := by
  have hpairwise : (schemaNames entities).Nodup ↔ entities.Pairwise fun first second =>
      ∀ a, first.schema? = some a → ∀ b, second.schema? = some b → a.1 ≠ b.1 := by
    rw [schemaNames, List.Nodup, List.pairwise_map, List.pairwise_filterMap]
  rw [hpairwise]
  constructor
  · rintro h name fields f hstruct hf hparameter rfl
    obtain ⟨parameter, hparameter⟩ := Option.ne_none_iff_exists'.mp hparameter
    -- A struct and a function are different entities, so the two stand at different places.
    have : Std.Symm fun first second : Entity =>
        ∀ a, first.schema? = some a → ∀ b, second.schema? = some b → a.1 ≠ b.1 :=
      ⟨fun _ _ h a ha b hb => (h b hb a ha).symm⟩
    have hschema : (Entity.function f).schema? = some ("__func__" ++ f.name, parameter.type) := by
      rw [schema?, hparameter]
      rfl
    exact h.forall hstruct hf (by simp) _ rfl _ hschema rfl
  · intro h
    refine List.Pairwise.imp_of_mem ?_ (List.pairwise_map.mp hnames)
    intro first second hfirst hsecond hne a ha b hb
    exact schema?_ne h hfirst hsecond hne ha hb

theorem nodup_storeNames (hnames : (entities.map Entity.name).Nodup) :
    Table.Distinct (entities.filterMap Entity.store?) := by
  rw [Table.Distinct, List.Nodup, List.pairwise_map, List.pairwise_filterMap]
  refine (List.pairwise_map.mp hnames).imp ?_
  rintro first second hne ⟨a, _⟩ ha ⟨b, _⟩ hb
  rw [store?_eq_some] at ha hb
  subst ha hb
  exact hne

end Entity

namespace Registry

variable {r : Registry} {entities : List Entity} {name : String} {schema : DataType}

/-- What a registry says of the entities that it was made from. -/
structure Indexes (r : Registry) (entities : List Entity) : Prop where
  /-- The names are numbered from zero on, in the order of declaration. -/
  nodup : (Entity.schemaNames entities).Nodup
  length : (Entity.schemaNames entities).length = r.schemas.length
  index : ∀ name index,
    r.index? name = some index ↔ (Entity.schemaNames entities)[index]? = some name
  struct : ∀ name fields, .struct name fields ∈ entities →
    ∃ index, r.index? name = some index ∧
      (r.schemas.map Prod.snd)[index]? = some (.object fields)
  parameter : ∀ f parameter, .function f ∈ entities → f.parameter = some parameter →
    ∃ index, r.parameterIndex? f.name = some index ∧
      (r.schemas.map Prod.snd)[index]? = some parameter.type
  absent : ∀ f, .function f ∈ entities → f.parameter = none →
    (∀ fields, .struct ("__func__" ++ f.name) fields ∉ entities) → r.parameterIndex? f.name = none
  store : ∀ name fields, r.store? name = some fields ↔ .store name fields ∈ entities

/-- Under a registered name is its schema. -/
theorem Distinct.exists_index? (h : r.Distinct) (hmem : (name, schema) ∈ r.schemas) :
    ∃ index, r.index? name = some index ∧ (r.schemas.map Prod.snd)[index]? = some schema := by
  obtain ⟨index, hindex⟩ := List.mem_iff_getElem?.mp hmem
  refine ⟨index, (index?_eq_some_iff h).mpr ?_, ?_⟩
  · rw [List.getElem?_map, hindex]
    rfl
  · rw [List.getElem?_map, hindex]
    rfl

/-- A registry finds each schema where it was registered. -/
theorem indexes_append (hnames : (entities.map Entity.name).Nodup)
    (h : (({} : Registry).append entities).Distinct) :
    (({} : Registry).append entities).Indexes entities where
  nodup := h.schemas
  length := by rw [Entity.schemaNames, List.length_map]; rfl
  index _ _ := index?_eq_some_iff h
  struct name fields hmem :=
    h.exists_index? (List.mem_append_right _ (List.mem_filterMap.mpr ⟨_, hmem, rfl⟩))
  parameter f parameter hmem hparameter :=
    h.exists_index? (List.mem_append_right _ (List.mem_filterMap.mpr
      ⟨_, hmem, by rw [Entity.schema?, hparameter]; rfl⟩))
  absent f hf hparameter hstruct := by
    rw [parameterIndex?, index?_eq_none_iff, List.mem_map]
    rintro ⟨⟨name, schema⟩, hentry, rfl⟩
    obtain ⟨entity, hmem, hschema⟩ := List.mem_filterMap.mp hentry
    rcases Entity.schema?_cases hschema with ⟨fields, rfl, _⟩ | ⟨g, _, rfl, hg, hname, _⟩
    · exact hstruct fields hmem
    · -- Another function with this parameter name would have the name of this one.
      have hfg : Entity.function g = .function f :=
        List.inj_on_of_nodup_map hnames hmem hf (parameterName_inj.mp hname).symm
      cases hfg
      rw [hparameter] at hg
      cases hg
  store name fields := by
    rw [store?, Table.lookup_eq_some_iff h.stores]
    refine List.mem_filterMap.trans ⟨?_, fun hmem => ⟨_, hmem, rfl⟩⟩
    rintro ⟨entity, hmem, hstore⟩
    rwa [← Entity.store?_eq_some.mp hstore]

end Registry

/-! ## The index is exact -/

/-- Entities make up a manifest exactly if they have names and no two of them have the
same. It then has a registry exactly if no struct has the name that is made up for a
parameter, and the registry numbers the registered names in the order of declaration
and leads from each name to what was declared under it. -/
theorem Manifest.schemaIndex_exact (entities : List Entity) :
    ((∃ m, ofEntities entities = .ok m) ↔
      (∀ entity ∈ entities, entity.name ≠ "") ∧ (entities.map Entity.name).Nodup) ∧
    ∀ m, ofEntities entities = .ok m →
      m.entities = entities ∧
      ((∃ r, Registry.ofManifest m = .ok r) ↔
        ∀ name fields f, .struct name fields ∈ entities → .function f ∈ entities →
          f.parameter ≠ none → name ≠ "__func__" ++ f.name) ∧
      ∀ r, Registry.ofManifest m = .ok r → r.Indexes entities := by
  refine ⟨?_, fun m hm => ?_⟩
  · simp only [ofEntities_eq_ok_iff, exists_and_left, exists_eq, and_true]
  · obtain ⟨_, hnames, rfl⟩ := ofEntities_eq_ok_iff.mp hm
    refine ⟨rfl, ?_, fun r hr => ?_⟩
    · rw [Registry.exists_ofManifest_iff]
      constructor
      · intro h
        exact (Entity.nodup_schemaNames_iff hnames).mp h.schemas
      · intro h
        exact ⟨(Entity.nodup_schemaNames_iff hnames).mpr h, Entity.nodup_storeNames hnames⟩
    · obtain ⟨rfl, hdistinct⟩ := Registry.ofManifest_eq_ok hr
      exact Registry.indexes_append hnames hdistinct

/-- A struct has the name that would be made up for the parameter of a function, if it
had one. -/
def Entity.lookalikes : List Entity :=
  [.struct "User" [("name", .prim .string)],
    .function { name := "echo", parameter := some ⟨"text", .prim .string⟩ },
    .enum "Color" ["Red"],
    .struct "__func__ping" [("count", .prim .int)],
    .function { name := "ping" },
    .function { name := "stop" },
    .store "users" [("name", .prim .string)]]

/-- A struct may have such a name as long as there is no parameter to name. -/
theorem Manifest.schemaIndex_exact_lookalikes :
    ofEntities Entity.lookalikes = .ok { entities := Entity.lookalikes } ∧
      ∃ r, Registry.ofManifest { entities := Entity.lookalikes } = .ok r ∧
        r.index? "__func__ping" = some 2 ∧ r.parameterIndex? "stop" = none ∧
        (∃ index, r.parameterIndex? "echo" = some index ∧
          (r.schemas.map Prod.snd)[index]? = some (.prim .string)) ∧
        r.store? "users" = some [("name", .prim .string)] := by
  obtain ⟨hmanifest, hregistry⟩ := schemaIndex_exact Entity.lookalikes
  have hm : ofEntities Entity.lookalikes = .ok { entities := Entity.lookalikes } := rfl
  obtain ⟨_, hexists, hindexes⟩ := hregistry _ hm
  have hapart : Entity.Apart Entity.lookalikes := by
    intro name fields f hstruct hf hparameter
    have hname : (name = "User" ∧ fields = [("name", .prim .string)]) ∨
        (name = "__func__ping" ∧ fields = [("count", .prim .int)]) := by
      simpa [Entity.lookalikes] using hstruct
    have hecho : f.name = "echo" := by
      have hcases : f = { name := "echo", parameter := some ⟨"text", .prim .string⟩ } ∨
          f = { name := "ping" } ∨ f = { name := "stop" } := by
        simpa [Entity.lookalikes] using hf
      rcases hcases with rfl | rfl | rfl
      · rfl
      · exact absurd rfl hparameter
      · exact absurd rfl hparameter
    rw [hecho]
    rcases hname with ⟨rfl, _⟩ | ⟨rfl, _⟩ <;> decide
  obtain ⟨r, hr⟩ := hexists.mpr hapart
  have h := hindexes r hr
  refine ⟨hm, r, hr, (h.index _ 2).mpr rfl, ?_, ?_, (h.store _ _).mpr ?_⟩
  · exact h.absent { name := "stop" } (by simp [Entity.lookalikes]) rfl
      (by simp [Entity.lookalikes])
  · exact h.parameter { name := "echo", parameter := some ⟨"text", .prim .string⟩ } _
      (by simp [Entity.lookalikes]) rfl
  · simp [Entity.lookalikes]

end StoredProc
