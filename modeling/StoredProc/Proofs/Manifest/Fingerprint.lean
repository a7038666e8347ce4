import StoredProc.Proofs.Compile.NumberLiterals
import StoredProc.Proofs.Compile.StoreView
import StoredProc.Proofs.Manifest.Acceptance
import StoredProc.Proofs.Manifest.Registry
import StoredProc.Proofs.Manifest.Reordering
import StoredProc.Proofs.Manifest.Respelling
import StoredProc.Proofs.Text.InsertionSort

/-! # What a fingerprint identifies

The fingerprint of a manifest is computed from its text without the blanks outside of
strings. Texts that are the same without these blanks may be read as different manifests,
since a number literal keeps blanks inside a list or an object. But such a literal never
compiles, so both texts have the same complete build, or none.
-/

namespace StoredProc

open Json (compactMembers)

/-! ## Entities without hidden texts -/

/-- Functions without numbers in brackets are told apart when brackets are masked. -/
theorem Function.eq_of_maskBrackets {f g : Function}
    (h : f.mapNumbers maskBrackets = g.mapNumbers maskBrackets)
    (hplain : ∀ text ∈ Statement.numbersAll f.body, isBracketed text = false) : f = g := by
  obtain ⟨loc, name, parameter, result, body⟩ := f
  obtain ⟨loc', name', parameter', result', body'⟩ := g
  simp only [mapNumbers, Function.mk.injEq] at h ⊢
  obtain ⟨hloc, hname, hparameter, hresult, hbody⟩ := h
  exact ⟨hloc, hname, hparameter, hresult, Statement.eq_of_maskBrackets hbody hplain⟩

/-- Entities without numbers in brackets are told apart when brackets are masked. -/
theorem Entity.eq_of_maskBrackets {entity other : Entity}
    (h : entity.mapNumbers maskBrackets = other.mapNumbers maskBrackets)
    (hplain : ∀ decl, entity = .function decl →
      ∀ text ∈ Statement.numbersAll decl.body, isBracketed text = false) : entity = other := by
  cases entity with
  | function decl =>
      cases other with
      | function decl' =>
          exact congrArg Entity.function
            (Function.eq_of_maskBrackets (Entity.function.inj h) (hplain decl rfl))
      | struct | enum | store => cases h
  | struct | enum | store =>
      cases other with
      | function => cases h
      | struct | enum | store => exact h

/-- So are lists of such entities. -/
theorem Entity.eq_of_map_maskBrackets {entities others : List Entity}
    (h : entities.map (mapNumbers maskBrackets) = others.map (mapNumbers maskBrackets))
    (hplain : ∀ decl, .function decl ∈ entities →
      ∀ text ∈ Statement.numbersAll decl.body, isBracketed text = false) : entities = others := by
  induction entities generalizing others with
  | nil => exact (List.map_eq_nil_iff.mp h.symm).symm
  | cons entity rest ih =>
      obtain ⟨other, others, rfl, hother, hothers⟩ := List.map_eq_cons_iff.mp h.symm
      have hentity : entity = other := eq_of_maskBrackets hother.symm fun decl hdecl =>
        hplain decl (hdecl ▸ List.mem_cons_self)
      rw [hentity, ih hothers.symm fun decl hdecl => hplain decl (List.mem_cons_of_mem _ hdecl)]

namespace Manifest

variable {m m' : Manifest} {source other : String}

/-- In a complete build every function has compiled. -/
theorem exists_compile_of_isComplete {build : Build} (h : m.compile = .ok build)
    (hcomplete : build.isComplete = true) :
    ∃ r, ∀ decl ∈ m.functions, ∃ p, decl.compile m r = .ok p := by
  obtain ⟨r, -, h⟩ := bind_ok_iff.mp h
  cases h
  have hnone : m.failures r = [] := by
    have hsorted : FunctionError.sort (m.failures r) = [] := List.isEmpty_iff.mp hcomplete
    have hperm : (FunctionError.sort (m.failures r)).Perm (m.failures r) :=
      Text.insertionSort_perm ..
    rw [hsorted] at hperm
    exact hperm.symm.eq_nil
  refine ⟨r, fun decl hmem => ?_⟩
  cases hcompile : decl.compile m r with
  | ok p => exact ⟨p, rfl⟩
  | error failure =>
      have hfailure : failure ∈ m.failures r :=
        List.mem_filterMap.mpr ⟨decl, hmem, by rw [hcompile]⟩
      rw [hnone] at hfailure
      cases hfailure

/-- Manifests that differ in hidden texts only have the same complete build. -/
theorem compile_eq_of_maskBrackets
    (h : m.entities.map (Entity.mapNumbers maskBrackets) =
      m'.entities.map (Entity.mapNumbers maskBrackets))
    {build : Build} (hbuild : m.compile = .ok build) (hcomplete : build.isComplete = true) :
    m'.compile = .ok build := by
  obtain ⟨r, hcompile⟩ := exists_compile_of_isComplete hbuild hcomplete
  have hentities : m.entities = m'.entities := by
    refine Entity.eq_of_map_maskBrackets h fun decl hdecl => ?_
    obtain ⟨p, hp⟩ := hcompile decl (mem_functions.mpr hdecl)
    exact Function.not_isBracketed_of_compile hp
  rw [← compile_eq_of_entities hentities, hbuild]

/-! ## Documents -/

/-- The entities of a compact document are the compact entities. -/
theorem entityDocuments_compactMembers (members : List (String × Json)) :
    entityDocuments (compactMembers members) = (entityDocuments members).map Json.compact := by
  rw [entityDocuments, entityDocuments, Json.last?_compactMembers]
  cases Json.last? "entities" members with
  | none => rfl
  | some value =>
      cases value with
      | arr source items =>
          rw [Option.map_some, Json.compact_arr]
          rfl
      | null | bool | num | str | obj => rfl

/-- The documents of the entities are delimited if those of the members are. -/
theorem delimited_of_mem_entityDocuments {members : List (String × Json)}
    (h : ∀ member ∈ members, member.2.Delimited) :
    ∀ document ∈ entityDocuments members, document.Delimited := by
  intro document hmem
  rw [entityDocuments] at hmem
  split at hmem
  next source items hlast =>
    obtain ⟨name, hmember, -⟩ := Json.exists_mem_of_last? hlast
    cases h _ hmember with
    | arr _ hitems => exact hitems document hmem
  next => cases hmem

/-- Without their hidden texts the entities are those of the compact documents. -/
theorem map_ofJson_compact_eq {documents : List Json} {entities : List Entity}
    (h : List.Forall₂ (fun document entity => Entity.ofJson document = .ok entity ∧
      entity.name ≠ "") documents entities)
    (hdelimited : ∀ document ∈ documents, document.Delimited) :
    (documents.map Json.compact).map (fun document =>
        (Entity.ofJson document).map (Entity.mapNumbers maskBrackets)) =
      (entities.map (Entity.mapNumbers maskBrackets)).map Except.ok := by
  induction h with
  | nil => rfl
  | @cons document entity _ _ hentity _ ih =>
      rw [List.forall_mem_cons] at hdelimited
      simp only [List.map_cons, ih hdelimited.2, Entity.map_ofJson_compact hdelimited.1, hentity.1]
      rfl

/-- What an accepted text spells, in the compact spelling. -/
theorem exists_compact_of_parse (h : parse source .json = .ok m) :
    ∃ members, Json.Compact (Json.written members) ∧
      Json.unspaced source = (Json.written members).text ∧
      m.fingerprint = Text.sha256 (Json.unspaced source) ∧
      (entityDocuments members).map (fun document =>
          (Entity.ofJson document).map (Entity.mapNumbers maskBrackets)) =
        (m.entities.map (Entity.mapNumbers maskBrackets)).map Except.ok := by
  obtain ⟨members, hspells⟩ := exists_spells_of_parse h
  obtain ⟨text, rest, hread, hblank, -, hfingerprint⟩ := hspells.read
  have hunspaced := Json.unspaced_of_parseFirst? hread hblank
  have hcompact := Json.compact_of_parseFirst? hread
  have hdelimited : ∀ member ∈ members, member.2.Delimited := by
    cases Json.delimited_of_parseFirst? hread with
    | obj _ hvalues => exact hvalues
  rw [fingerprintOf, ← hunspaced] at hfingerprint
  rw [Json.compact_obj] at hcompact hunspaced
  refine ⟨compactMembers members, hcompact, hunspaced, hfingerprint, ?_⟩
  rw [entityDocuments_compactMembers]
  exact map_ofJson_compact_eq hspells.entities (delimited_of_mem_entityDocuments hdelimited)

/-- Texts that are the same without blanks spell the same entities, hidden texts apart. -/
theorem map_maskBrackets_of_unspaced (h : parse source .json = .ok m)
    (h' : parse other .json = .ok m') (heq : Json.unspaced source = Json.unspaced other) :
    m.entities.map (Entity.mapNumbers maskBrackets) =
      m'.entities.map (Entity.mapNumbers maskBrackets) := by
  obtain ⟨members, hcompact, htext, -, hentities⟩ := exists_compact_of_parse h
  obtain ⟨members', hcompact', htext', -, hentities'⟩ := exists_compact_of_parse h'
  have hwritten := hcompact.eq_of_text hcompact' (by rw [← htext, heq, htext'])
  have hmembers : members = members' := (Json.obj.inj hwritten).2
  rw [hmembers, hentities'] at hentities
  exact (List.map_injective_iff.mpr (fun _ _ => Except.ok.inj) hentities).symm

/-- The fingerprint of a text in the JSON format is that of the text without the blanks
outside of strings. Two texts that are the same without these blanks have the same complete
build, with the same program and the same frames, or none of them has one; and where the
hash tells the two texts apart, equal fingerprints mean that they are the same. -/
theorem compile_iff_of_unspaced (h : parse source .json = .ok m)
    (h' : parse other .json = .ok m') :
    m.fingerprint = Text.sha256 (Json.unspaced source) ∧
    m'.fingerprint = Text.sha256 (Json.unspaced other) ∧
    (Json.unspaced source = Json.unspaced other → ∀ build : Build, build.isComplete = true →
      (m.compile = .ok build ↔ m'.compile = .ok build)) ∧
    ((Text.sha256 (Json.unspaced source) = Text.sha256 (Json.unspaced other) →
        Json.unspaced source = Json.unspaced other) →
      (m.fingerprint = m'.fingerprint ↔ Json.unspaced source = Json.unspaced other)) := by
  obtain ⟨-, -, -, hfingerprint, -⟩ := exists_compact_of_parse h
  obtain ⟨-, -, -, hfingerprint', -⟩ := exists_compact_of_parse h'
  refine ⟨hfingerprint, hfingerprint', fun heq build hcomplete => ?_, fun hinjective => ?_⟩
  · have hmasked := map_maskBrackets_of_unspaced h h' heq
    exact ⟨fun hbuild => compile_eq_of_maskBrackets hmasked hbuild hcomplete,
      fun hbuild => compile_eq_of_maskBrackets hmasked.symm hbuild hcomplete⟩
  · rw [hfingerprint, hfingerprint']
    exact ⟨hinjective, congrArg Text.sha256⟩

/-! ## A function, written with and without blanks -/

def spacedFunction : String :=
  "\x7b \"version\": \"1.0.0\",\n\t\"entities\": [\x7b\"kind\": \"Function\", \"name\": \"f\", " ++
    "\"body\": [ \x7b\"kind\": \"ReturnStatement\"\x7d ]\x7d]\x7d\n"

def compactFunction : String :=
  "\x7b\"version\":\"1.0.0\",\"entities\":[\x7b\"kind\":\"Function\",\"name\":\"f\"," ++
    "\"body\":[\x7b\"kind\":\"ReturnStatement\"\x7d]\x7d]\x7d"

/-- Whether what was read is a sound document that declares entities, with nothing but
blanks behind it. -/
def declares : Json × List Char → Bool
  | (.obj text members, rest) =>
    (Json.skipBlanks rest).isEmpty && (Json.obj text members).sound &&
      (Json.obj text members).inRange && (manifestCheck [] (.obj text members)).isEmpty &&
      Json.textMember? "version" members == some "1.0.0" &&
      (declared (.obj text members)).toOption.isSome
  | _ => false

/-- A sound document that declares entities is accepted. -/
theorem exists_parse_of_declares (h : (readText? source .json).any declares = true) :
    ∃ m, parse source .json = .ok m := by
  cases hread : readText? source .json with
  | none => simp [hread] at h
  | some found =>
      obtain ⟨document, rest⟩ := found
      rw [hread, Option.any_some] at h
      cases document with
      | obj text members =>
          simp only [declares, Bool.and_eq_true, List.isEmpty_iff, beq_iff_eq,
            Option.isSome_iff_exists] at h
          obtain ⟨⟨⟨⟨⟨hblank, hsound⟩, hrange⟩, hviolations⟩, hversion⟩, m, hdeclared⟩ := h
          refine exists_parse_of_readText? (m := m) hread (List.isEmpty_iff.mpr hblank) hsound hrange
            hviolations hversion ?_
          cases hresult : declared (.obj text members) with
          | error cause =>
              rw [hresult] at hdeclared
              cases hdeclared
          | ok found =>
              rw [hresult] at hdeclared
              cases hdeclared
              rfl
      | null | bool | num | str | arr => cases h

/-- Two texts that differ in blanks compile alike. -/
theorem compile_iff_of_unspaced_function : ∃ m m', parse spacedFunction .json = .ok m ∧
    parse compactFunction .json = .ok m' ∧ m.fingerprint = m'.fingerprint ∧
    ∀ build : Build, build.isComplete = true → (m.compile = .ok build ↔ m'.compile = .ok build) := by
  have heq : Json.unspaced spacedFunction = Json.unspaced compactFunction :=
    congrArg String.ofList (by decide +kernel)
  have hspaced : (readText? spacedFunction .json).any declares = true := by decide +kernel
  have hcompact : (readText? compactFunction .json).any declares = true := by decide +kernel
  obtain ⟨m, hm⟩ := exists_parse_of_declares hspaced
  obtain ⟨m', hm'⟩ := exists_parse_of_declares hcompact
  obtain ⟨hfingerprint, hfingerprint', hbuild, -⟩ := compile_iff_of_unspaced hm hm'
  exact ⟨m, m', hm, hm', by rw [hfingerprint, hfingerprint', heq], hbuild heq⟩

end Manifest

end StoredProc
