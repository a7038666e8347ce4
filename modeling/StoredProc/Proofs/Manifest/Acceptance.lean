import Mathlib.Data.List.Forall2
import StoredProc.Proofs.Manifest.Names

/-! # What an accepted manifest was read from

A text that is accepted spells one object of the right shape and nothing else. Its
entities are read from the documents of that object, each from its own and in order.
-/

namespace StoredProc.Manifest

variable {m found : Manifest} {source : String} {format : Format}

/-- There is nothing to report exactly if the check finds nothing. -/
theorem violations_eq_nil_iff {document : Json} :
    violations document = [] ↔ manifestCheck [] document = [] := by
  rw [violations, ← List.length_eq_zero_iff, List.length_mergeSort, List.length_eq_zero_iff]
  constructor
  · intro h
    rw [List.eq_nil_iff_forall_not_mem] at h ⊢
    intro violation hmem
    exact h _ (List.mem_eraseDups.mpr (List.mem_map_of_mem hmem))
  · intro h
    rw [h]
    rfl

/-- The entities of a manifest are those of its documents, in their order. -/
theorem exists_forall₂_of_addAll {documents : List Json} {index : Nat}
    (h : addAll m index documents = .ok found) :
    ∃ added, found.entities = m.entities ++ added ∧
      List.Forall₂ (fun document entity => Entity.ofJson document = .ok entity ∧ entity.name ≠ "")
        documents added := by
  induction documents generalizing m index with
  | nil =>
      cases h
      exact ⟨[], by simp, .nil⟩
  | cons document rest ih =>
      obtain ⟨entity, middle, hentity, hadd, hrest⟩ := exists_of_addAll_cons h
      obtain ⟨hname, _, rfl⟩ := add_eq_ok_iff.mp hadd
      obtain ⟨added, hfound, hadded⟩ := ih hrest
      exact ⟨entity :: added, by simp [hfound], .cons ⟨hentity, hname⟩ hadded⟩

/-- What an accepted text spells. -/
structure Spells (source : String) (format : Format) (m : Manifest)
    (members : List (String × Json)) : Prop where
  read : ∃ text rest, readText? source format = some (.obj text members, rest) ∧
    (Json.skipBlanks rest).isEmpty = true ∧ manifestCheck [] (.obj text members) = [] ∧
    m.fingerprint = fingerprintOf (.obj text members)
  entities : List.Forall₂
    (fun document entity => Entity.ofJson document = .ok entity ∧ entity.name ≠ "")
    (entityDocuments members) m.entities

/-- An accepted text spells an object that passes the check. -/
theorem exists_spells_of_parse (h : parse source format = .ok m) :
    ∃ members, Spells source format m members := by
  obtain ⟨document, rest, hread, hdocument⟩ := exists_of_parse h
  obtain ⟨text, members, found, rfl, hblank, hviolations, hfound, rfl⟩ :=
    exists_of_ofDocument hdocument
  obtain ⟨added, hentities, hadded⟩ := exists_forall₂_of_addAll hfound
  refine ⟨members, ⟨text, rest, hread, hblank, violations_eq_nil_iff.mp hviolations, rfl⟩, ?_⟩
  rw [List.nil_append] at hentities
  exact hentities ▸ hadded

end StoredProc.Manifest
