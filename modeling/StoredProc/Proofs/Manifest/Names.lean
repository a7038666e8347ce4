import StoredProc.Manifest.Codec
import StoredProc.Proofs.Compile.Elaboration

/-! # The names of a manifest

A manifest grows by one entity after the other, and an entity is refused if its name is
taken. So no two entities of a manifest have one name, whether it was put together or
read from a text.
-/

namespace StoredProc.Manifest

variable {m next : Manifest} {entity : Entity}

/-! ## One entity more -/

theorem get?_eq_none_iff {name : String} :
    m.get? name = none ↔ name ∉ m.entities.map Entity.name := by
  rw [get?, List.find?_eq_none, List.mem_map]
  constructor
  · rintro h ⟨other, hother, rfl⟩
    exact h other hother (beq_self_eq_true _)
  · intro h other hother heq
    exact h ⟨other, hother, beq_iff_eq.mp heq⟩

/-- An entity is accepted if it has a name that is not taken. -/
theorem add_eq_ok_iff :
    m.add entity = .ok next ↔ entity.name ≠ "" ∧ entity.name ∉ m.entities.map Entity.name ∧
      next = { m with entities := m.entities ++ [entity] } := by
  unfold add
  by_cases hname : entity.name = ""
  · simp [hname]
  · rw [if_neg (by simpa using hname)]
    cases hfound : m.get? entity.name with
    | some first =>
        have htaken : ¬entity.name ∉ m.entities.map Entity.name := by
          rw [← get?_eq_none_iff, hfound]
          simp
        simp only [reduceCtorEq, htaken, false_and, and_false]
    | none =>
        have hfresh := get?_eq_none_iff.mp hfound
        simp only [Except.ok.injEq, ne_eq, hname, not_false_eq_true, hfresh, true_and]
        exact eq_comm

/-- No two entities have one name. -/
def Distinct (m : Manifest) : Prop := (m.entities.map Entity.name).Nodup

theorem distinct_empty : ({} : Manifest).Distinct := List.nodup_nil

theorem Distinct.add (h : m.Distinct) (hadd : m.add entity = .ok next) : next.Distinct := by
  obtain ⟨_, hfresh, rfl⟩ := add_eq_ok_iff.mp hadd
  rw [Distinct, List.map_append]
  exact (List.perm_append_singleton entity.name _).nodup_iff.mpr
    (List.nodup_cons.mpr ⟨hfresh, h⟩)

/-- Entities that are added one after the other have distinct names. -/
theorem Distinct.foldlM {entities : List Entity} (h : m.Distinct)
    (hadd : entities.foldlM Manifest.add m = .ok next) : next.Distinct := by
  induction entities generalizing m with
  | nil =>
      cases hadd
      exact h
  | cons entity rest ih =>
      rw [List.foldlM_cons] at hadd
      obtain ⟨middle, hfirst, hadd⟩ := bind_ok_iff.mp hadd
      exact ih (h.add hfirst) hadd

/-- A manifest that is put together has distinct names. -/
theorem distinct_of_ofEntities {entities : List Entity} (h : ofEntities entities = .ok m) :
    m.Distinct :=
  distinct_empty.foldlM h

/-! ## Entities that are read -/

/-- The first document is read and added before the others. -/
theorem exists_of_addAll_cons {document : Json} {documents : List Json} {index : Nat}
    (h : addAll m index (document :: documents) = .ok next) :
    ∃ entity middle, Entity.ofJson document = .ok entity ∧ m.add entity = .ok middle ∧
      addAll middle (index + 1) documents = .ok next := by
  unfold addAll at h
  split at h
  next => cases h
  next entity hentity =>
    split at h
    next => cases h
    next middle hadd => exact ⟨entity, middle, hentity, hadd, h⟩

/-- Entities that are read and added have distinct names. -/
theorem Distinct.addAll {documents : List Json} {index : Nat} (h : m.Distinct)
    (hadd : addAll m index documents = .ok next) : next.Distinct := by
  induction documents generalizing m index with
  | nil =>
      cases hadd
      exact h
  | cons document rest ih =>
      obtain ⟨entity, middle, _, hfirst, hrest⟩ := exists_of_addAll_cons hadd
      exact ih (h.add hfirst) hrest

/-- A document that is accepted is an object without violations, with nothing but blanks
behind it. Its manifest holds what is read from its entity documents. -/
theorem exists_of_ofDocument {document : Json} {rest : List Char}
    (h : ofDocument document rest = .ok m) :
    ∃ text members found, document = .obj text members ∧
      (Json.skipBlanks rest).isEmpty = true ∧ violations document = [] ∧
      addAll {} 0 (entityDocuments members) = .ok found ∧
      m = { found with fingerprint := fingerprintOf document } := by
  unfold ofDocument at h
  split at h
  next hviolations =>
    split at h
    next text members hblank =>
      obtain ⟨version, _, h⟩ := bind_ok_iff.mp h
      split at h
      next =>
        obtain ⟨found, hfound, h⟩ := bind_ok_iff.mp h
        cases h
        exact ⟨text, members, found, rfl, hblank, hviolations, hfound, rfl⟩
      next => cases h
    next => cases h
  next => cases h

/-- What is accepted was read as a document first. -/
theorem exists_of_parse {source : String} {format : Format} (h : parse source format = .ok m) :
    ∃ document rest, readText? source format = some (document, rest) ∧
      ofDocument document rest = .ok m := by
  unfold parse at h
  split at h
  next document rest hread =>
    split at h
    next => exact ⟨document, rest, hread, h⟩
    next => cases h
  next => cases h

/-- A manifest that is read has distinct names. -/
theorem distinct_of_parse {source : String} {format : Format} (h : parse source format = .ok m) :
    m.Distinct := by
  obtain ⟨document, rest, _, hdocument⟩ := exists_of_parse h
  obtain ⟨_, _, found, _, _, _, hfound, rfl⟩ := exists_of_ofDocument hdocument
  change found.Distinct
  exact distinct_empty.addAll hfound

/-- Functions have distinct names. -/
theorem Distinct.functions (h : m.Distinct) : (m.functions.map Function.name).Nodup := by
  refine List.Nodup.sublist ?_ h
  unfold Manifest.functions
  induction m.entities with
  | nil => exact List.Sublist.refl _
  | cons entity rest ih =>
      cases entity with
      | function decl => exact ih.cons_cons _
      | struct | enum | store => exact ih.cons _

end StoredProc.Manifest
