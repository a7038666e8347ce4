import StoredProc.Proofs.Manifest.Acceptance
import StoredProc.Proofs.Manifest.Reordering

/-! # The names that a manifest declares

The check of a manifest document asks for well-formed names of entities, of parameters
and of the variants of enums. It looks members up by their exact name, while reading
takes names in any case. So what is read has well-formed names wherever the two look at
the same member, and need not have them elsewhere.
-/

namespace StoredProc

namespace Manifest

variable {path : List String} {value : Json} {members : List (String × Json)}

/-! ## Checks that are passed -/

/-- What passes is an object that has what it needs, and whose members pass. -/
theorem Check.object_eq_nil_iff {required : List String}
    {checks : List (String × Json) → List String → List Violation} :
    Check.object required checks path value = [] ↔ ∃ source members, value = .obj source members ∧
      (∀ name ∈ required, (Json.get? name members).isSome = true) ∧ checks members path = [] := by
  cases value with
  | obj source members => simp [Check.object, Option.isSome_iff_ne_none]
  | null | bool | num | str | arr => simp [Check.object]

theorem Check.member_eq_nil_iff {name : String} {check : Check} :
    Check.member name check members path = [] ↔
      ∀ value, Json.get? name members = some value → check (path ++ [name]) value = [] := by
  rw [Check.member]
  cases Json.get? name members with
  | none => simp
  | some value => simp

/-- A list passes if each of its items does. -/
theorem Check.list_eq_nil {check : Check} (h : Check.list check path value = []) :
    ∃ source items, value = .arr source items ∧ ∀ item ∈ items, ∃ path, check path item = [] := by
  cases value with
  | arr source items =>
      refine ⟨source, items, rfl, fun item hitem => ?_⟩
      obtain ⟨i, hi⟩ := List.mem_iff_getElem?.mp hitem
      rw [Check.list, List.flatMap_eq_nil_iff] at h
      exact ⟨_, h (item, i) (List.mem_zipIdx_iff_getElem?.mpr hi)⟩
  | null | bool | num | str | obj => cases h

/-- A list that passes has no two items that are the same. -/
theorem Check.distinct_eq_nil {source : String} {items : List Json}
    (h : Check.distinct path (.arr source items) = []) :
    items.Pairwise fun earlier later => later.same earlier = false := by
  rw [List.pairwise_iff_getElem]
  intro i j hi hj hij
  rw [Check.distinct] at h
  split at h
  next => cases h
  next hnone =>
    rw [Bool.not_eq_true, List.any_eq_false] at hnone
    have hitem := hnone (items[j], j)
      (List.mem_zipIdx_iff_getElem?.mpr (List.getElem?_eq_getElem hj))
    rw [Bool.not_eq_true, List.any_eq_false] at hitem
    simpa using hitem items[i] (List.mem_take_iff_getElem.mpr ⟨i, by omega, rfl⟩)

/-- A value that spells a well-formed name. -/
def SpellsName (value : Json) : Prop := ∃ name, value.string? = some name ∧ isName name = true

/-- What passes the check of a name spells one. -/
theorem spellsName_of_nameCheck (h : nameCheck path value = []) : SpellsName value := by
  cases value with
  | str written =>
      rw [nameCheck] at h
      split at h
      next hname =>
        cases hunescape : Json.unescape? written with
        | none => simp [hunescape] at hname
        | some name => exact ⟨name, hunescape, by simpa [hunescape] using hname⟩
      next => cases h
  | null | bool | num | arr | obj => cases h

theorem SpellsName.ne_null (h : SpellsName value) : value ≠ .null := by
  rintro rfl
  obtain ⟨name, hname, -⟩ := h
  cases hname

/-- The text that is read from the last member is the name that it spells. -/
theorem SpellsName.isName_of_textMember? (h : SpellsName value) {field text : String}
    (hlast : Json.last? field members = some value)
    (htext : Json.textMember? field members = some text) : isName text = true := by
  obtain ⟨name, hname, hwell⟩ := h
  rw [Json.string?_of_textMember? htext hlast (SpellsName.ne_null ⟨name, hname, hwell⟩)] at hname
  exact Option.some.inj hname ▸ hwell

/-- What passes is one of the texts. -/
theorem exists_of_oneOf {texts : List String} (h : Check.oneOf texts path value = []) :
    ∃ text ∈ texts, value.string? = some text := by
  rw [Check.oneOf] at h
  split at h
  next text htext =>
    split at h
    next hmem => exact ⟨text, List.contains_iff_mem.mp hmem, htext⟩
    next => cases h
  next => cases h

/-! ## Documents that pass -/

/-- What the check says of the members of an entity, by the kind it sees. -/
structure CheckedEntity (members : List (String × Json)) : Prop where
  kind : ∃ value, Json.get? "kind" members = some value ∧ value ≠ .null
  name : ∃ value, Json.get? "name" members = some value ∧ SpellsName value
  variants : ∀ value, Json.get? "kind" members = some value → value.string? = some "Enum" →
    ∃ source items, Json.get? "variants" members = some (.arr source items) ∧
      (∀ item ∈ items, SpellsName item) ∧
      items.Pairwise fun earlier later => later.same earlier = false
  parameter : ∀ value, Json.get? "kind" members = some value → value.string? = some "Function" →
    ∀ parameter, Json.get? "parameter" members = some parameter →
      ∃ source inner, parameter = .obj source inner ∧
        ∃ name, Json.get? "name" inner = some name ∧ SpellsName name

theorem mayBe_of_get? {kind : String} {kinds : List String}
    (hget : Json.get? "kind" members = some value) (hvalue : value.string? = some kind)
    (hkind : kind ∈ kinds) : mayBe kinds members = true := by
  simpa [mayBe, hget, hvalue] using hkind

/-- What passes the check of an entity is an object that passes the checks of its kind. -/
theorem checkedEntity_of_entityCheck (h : entityCheck path value = []) :
    ∃ source members, value = .obj source members ∧ CheckedEntity members := by
  obtain ⟨source, members, rfl, hrequired, hchecks⟩ := Check.object_eq_nil_iff.mp h
  simp only [List.append_eq_nil_iff] at hchecks
  obtain ⟨⟨hkind, hname⟩, hrest⟩ := hchecks
  rw [kindChecks] at hrest
  simp only [List.append_eq_nil_iff] at hrest
  obtain ⟨⟨-, henum⟩, hfunction⟩ := hrest
  refine ⟨source, members, rfl, ⟨?_, ?_, ?_, ?_⟩⟩
  · obtain ⟨value, hvalue⟩ := Option.isSome_iff_exists.mp (hrequired "kind" (by simp))
    obtain ⟨text, -, htext⟩ := exists_of_oneOf (Check.member_eq_nil_iff.mp hkind value hvalue)
    refine ⟨value, hvalue, ?_⟩
    rintro rfl
    cases htext
  · obtain ⟨value, hvalue⟩ := Option.isSome_iff_exists.mp (hrequired "name" (by simp))
    exact ⟨value, hvalue,
      spellsName_of_nameCheck (Check.member_eq_nil_iff.mp hname value hvalue)⟩
  · intro value hget hvalue
    rw [if_pos (mayBe_of_get? hget hvalue (by simp)), List.append_eq_nil_iff] at henum
    obtain ⟨hneeded, hvariants⟩ := henum
    have hsome : (Json.get? "variants" members).isSome = true := by
      by_contra hnone
      rw [if_neg hnone] at hneeded
      cases hneeded
    obtain ⟨variants, hget⟩ := Option.isSome_iff_exists.mp hsome
    have hpassed := Check.member_eq_nil_iff.mp hvariants variants hget
    rw [List.append_eq_nil_iff] at hpassed
    obtain ⟨source, items, rfl, hitems⟩ := Check.list_eq_nil hpassed.1
    refine ⟨source, items, hget, fun item hitem => ?_, Check.distinct_eq_nil hpassed.2⟩
    obtain ⟨place, hplace⟩ := hitems item hitem
    exact spellsName_of_nameCheck hplace
  · intro value hget hvalue parameter hparameter
    rw [if_pos (mayBe_of_get? hget hvalue (by simp))] at hfunction
    simp only [List.append_eq_nil_iff] at hfunction
    have hpassed := Check.member_eq_nil_iff.mp hfunction.1.2 parameter hparameter
    obtain ⟨source, inner, rfl, hrequired, hinner⟩ := Check.object_eq_nil_iff.mp hpassed
    obtain ⟨name, hname⟩ := Option.isSome_iff_exists.mp (hrequired "name" (by simp))
    rw [List.append_eq_nil_iff] at hinner
    exact ⟨source, inner, rfl, name, hname,
      spellsName_of_nameCheck (Check.member_eq_nil_iff.mp hinner.1 name hname)⟩

end Manifest

/-! ## Where the check and the reader look -/

namespace Json

/-- The member that is read under a name is the one that is checked. -/
def Agrees (field : String) (members : List (String × Json)) : Prop :=
  last? field members = get? field members

/-- Whether the last member that is read under a name has exactly this name. -/
def endsExact (field : String) : List (String × Json) → Bool
  | [] => true
  | (key, _) :: rest =>
    if rest.any fun member => named field member.1 then endsExact field rest
    else !named field key || unescape? key == some field

variable {field : String} {members : List (String × Json)}

theorem named_of_unescape? {written : String} (h : unescape? written = some field) :
    named field written = true := by
  simp [named, h]

/-- A member of the exact name is one of the name in any case. -/
theorem get?_eq_none (h : ∀ member ∈ members, named field member.1 = false) :
    get? field members = none := by
  induction members with
  | nil => rfl
  | cons member rest ih =>
      rw [List.forall_mem_cons] at h
      rw [get?, ih h.2]
      refine if_neg fun hexact => ?_
      rw [beq_iff_eq] at hexact
      rw [named_of_unescape? hexact] at h
      cases h.1

/-- Where the last member has the exact name, the reader and the check look at the same value. -/
theorem agrees_of_endsExact (h : endsExact field members = true) : Agrees field members := by
  induction members with
  | nil => rfl
  | cons member rest ih =>
      rw [endsExact] at h
      rw [Agrees, last?, get?]
      split at h
      next hany =>
        have hsome : last? field rest ≠ none := fun hnone => by
          obtain ⟨later, hlater, hname⟩ := List.any_eq_true.mp hany
          rw [last?_eq_none_iff.mp hnone later hlater] at hname
          cases hname
        rw [← ih h]
        cases hlast : last? field rest with
        | none => exact absurd hlast hsome
        | some found => rfl
      next hany =>
        have hrest : ∀ later ∈ rest, named field later.1 = false := fun later hlater =>
          Bool.eq_false_iff.mpr fun hname => hany (List.any_eq_true.mpr ⟨later, hlater, hname⟩)
        have hsame : named field member.1 = (unescape? member.1 == some field) := by
          cases hname : named field member.1 with
          | true => simpa [hname] using h
          | false =>
              refine (Bool.eq_false_iff.mpr fun hexact => ?_).symm
              rw [named_of_unescape? (by simpa using hexact)] at hname
              cases hname
        rw [last?_eq_none_iff.mpr hrest, get?_eq_none hrest, hsame]

/-- Members that are all spelled exactly leave no other spelling to end with. -/
theorem endsExact_of_forall (h : ∀ member ∈ members,
    named field member.1 = true → unescape? member.1 = some field) :
    endsExact field members = true := by
  induction members with
  | nil => rfl
  | cons member rest ih =>
      rw [List.forall_mem_cons] at h
      rw [endsExact, ih h.2]
      split
      · rfl
      · cases hname : named field member.1 with
        | false => rfl
        | true => simp [h.1 hname]

/-- Two values that spell one text are the same for the check. -/
theorem same_of_string? {value other : Json} {text : String} (h : value.string? = some text)
    (hother : other.string? = some text) : value.same other = true := by
  cases value with
  | str written =>
      cases other with
      | str written' =>
          have heq : unescape? written = unescape? written' := h.trans hother.symm
          simp [same, heq]
      | null | bool | num | arr | obj => cases hother
  | null | bool | num | arr | obj => cases h

end Json

namespace Entity

open Manifest (isName SpellsName CheckedEntity)

/-- All names of an entity are well-formed, and no variant is listed twice. -/
def WellNamed : Entity → Prop
  | .struct name _ | .store name _ => isName name = true
  | .enum name variants =>
    isName name = true ∧ variants.Nodup ∧ ∀ variant ∈ variants, isName variant = true
  | .function decl =>
    isName decl.name = true ∧ ∀ parameter ∈ decl.parameter, isName parameter.name = true

/-- Whether the members that decide about the names of an entity end with the exact
spelling: its kind, name, variants and parameter, and the name of the parameter. -/
def endsExact (members : List (String × Json)) : Bool :=
  (["kind", "name", "variants", "parameter"].all fun field => Json.endsExact field members) &&
    match Json.get? "parameter" members with
    | some (.obj _ inner) => Json.endsExact "name" inner
    | _ => true

/-- The members of an entity in which the check and the reader look at the same values. -/
structure Agreed (members : List (String × Json)) : Prop where
  kind : Json.Agrees "kind" members
  name : Json.Agrees "name" members
  variants : Json.Agrees "variants" members
  parameter : Json.Agrees "parameter" members
  parameterName : ∀ source inner, Json.get? "parameter" members = some (.obj source inner) →
    Json.Agrees "name" inner

/-- Where the names end with the exact spelling, all of them are read as they are checked. -/
theorem agreed_of_endsExact {members : List (String × Json)} (h : endsExact members = true) :
    Agreed members := by
  rw [endsExact, Bool.and_eq_true, List.all_eq_true] at h
  obtain ⟨hfields, hparameter⟩ := h
  refine ⟨?_, ?_, ?_, ?_, fun source inner hget => ?_⟩
  · exact Json.agrees_of_endsExact (hfields "kind" (by simp))
  · exact Json.agrees_of_endsExact (hfields "name" (by simp))
  · exact Json.agrees_of_endsExact (hfields "variants" (by simp))
  · exact Json.agrees_of_endsExact (hfields "parameter" (by simp))
  · rw [hget] at hparameter
    exact Json.agrees_of_endsExact hparameter

/-! ## Variants -/

theorem readVariants?_eq_passOver (members : List (String × Json)) :
    readVariants? members = Json.passOver "variants" (fun _ => variantsOf?) [] members :=
  rfl

/-- Texts are read one by one, if none is `null`. -/
theorem map_string?_of_readTexts? {items : List Json} {texts : List String}
    (h : readTexts? items = some texts) (hitems : ∀ item ∈ items, item ≠ .null) :
    items.map Json.string? = texts.map some := by
  induction items generalizing texts with
  | nil =>
      cases h
      rfl
  | cons item rest ih =>
      rw [List.forall_mem_cons] at hitems
      have hread : readTexts? (item :: rest) = (do
          let text ← item.string?
          let texts ← readTexts? rest
          return text :: texts) := by
        rw [readTexts?]
        exact hitems.1
      rw [hread] at h
      simp only [Option.bind_eq_bind, Option.bind_eq_some_iff, Option.pure_def] at h
      obtain ⟨text, htext, texts, htexts, heq⟩ := h
      cases heq
      rw [List.map_cons, List.map_cons, htext, ih htexts hitems.2]

section Variants

variable {items : List Json} {texts : List String}

theorem isName_of_map_string? (h : items.map Json.string? = texts.map some)
    (hitems : ∀ item ∈ items, SpellsName item) : ∀ text ∈ texts, isName text = true := by
  intro text htext
  have hmem : some text ∈ items.map Json.string? := h ▸ List.mem_map_of_mem htext
  obtain ⟨item, hitem, hspells⟩ := List.mem_map.mp hmem
  obtain ⟨name, hname, hwell⟩ := hitems item hitem
  rw [hspells] at hname
  exact Option.some.inj hname ▸ hwell

/-- Different texts are what different values spell. -/
theorem nodup_of_map_string? (h : items.map Json.string? = texts.map some)
    (hitems : ∀ item ∈ items, SpellsName item)
    (hdistinct : items.Pairwise fun earlier later => later.same earlier = false) :
    texts.Nodup := by
  refine List.Nodup.of_map some ?_
  rw [← h, List.Nodup, List.pairwise_map]
  refine hdistinct.imp_of_mem fun {earlier later} hearlier _ hdiffers heq => ?_
  obtain ⟨name, hname, -⟩ := hitems earlier hearlier
  rw [Json.same_of_string? (heq ▸ hname) hname] at hdiffers
  cases hdiffers

end Variants

variable {members : List (String × Json)}

/-- The variants of an enum that passed are names, and none is listed twice. -/
theorem variants_wellNamed (hchecked : CheckedEntity members) (hagreed : Agreed members)
    (hkind : Json.textMember? "kind" members = some "Enum") {variants : List String}
    (hvariants : readVariants? members = some variants) :
    variants.Nodup ∧ ∀ variant ∈ variants, isName variant = true := by
  obtain ⟨value, hget, hne⟩ := hchecked.kind
  have hstring := Json.string?_of_textMember? hkind (hagreed.kind.trans hget) hne
  obtain ⟨source, items, hitems, hspell, hdistinct⟩ := hchecked.variants value hget hstring
  rw [readVariants?_eq_passOver] at hvariants
  obtain ⟨_, htexts⟩ := Json.exists_take_of_passOver hvariants (hagreed.variants.trans hitems)
  have hmap := map_string?_of_readTexts? htexts fun item hitem => (hspell item hitem).ne_null
  exact ⟨nodup_of_map_string? hmap hspell hdistinct, isName_of_map_string? hmap hspell⟩

/-! ## Parameters -/

theorem parameterOf_eq_passOver (members : List (String × Json)) :
    Function.parameterOf members = Json.passOver "parameter" Function.readParameter none members :=
  rfl

/-- The name of a parameter is the one that its last member spells. -/
theorem isName_of_readParameter {inner : List (String × Json)} {source : String}
    {start : Option Function.ParameterDocument} {document : Function.ParameterDocument}
    {value : Json} (h : Function.readParameter start (.obj source inner) = some (some document))
    (hlast : Json.last? "name" inner = some value) (hspells : SpellsName value) :
    isName document.name = true := by
  rw [Function.readParameter_obj] at h
  split at h
  next =>
    obtain ⟨found, hfound, heq⟩ := Option.map_eq_some_iff.mp h
    cases heq
    obtain ⟨before, htext⟩ := Json.exists_take_of_passOver
      (Function.ParameterDocument.passOver_name hfound) hlast
    obtain ⟨name, hname, hwell⟩ := hspells
    rw [Json.takeText_eq_some htext (SpellsName.ne_null ⟨name, hname, hwell⟩)] at hname
    exact Option.some.inj hname ▸ hwell
  next => cases h

/-- The parameter of a function that passed has a name that is well-formed. -/
theorem parameter_wellNamed (hchecked : CheckedEntity members) (hagreed : Agreed members)
    (hkind : Json.textMember? "kind" members = some "Function") {decl : Function}
    (hdecl : Function.ofMembers members = .ok decl) :
    ∀ parameter ∈ decl.parameter, isName parameter.name = true := by
  obtain ⟨value, hget, hne⟩ := hchecked.kind
  have hstring := Json.string?_of_textMember? hkind (hagreed.kind.trans hget) hne
  obtain ⟨document, hheader, hdeclares, -⟩ := Function.exists_header_of_ofMembers hdecl
  obtain ⟨-, hparameter, -⟩ := Function.of_readHeader hheader
  rw [parameterOf_eq_passOver] at hparameter
  intro parameter hmem
  rw [Option.mem_def] at hmem
  rw [hmem] at hdeclares
  cases hdeclares with
  | @some document =>
      -- A document without a parameter would have been read as one.
      cases hlast : Json.last? "parameter" members with
      | none =>
          rw [Json.passOver_eq_self hlast] at hparameter
          cases hparameter
      | some written =>
          have hwritten := hagreed.parameter.symm.trans hlast
          obtain ⟨source, inner, rfl, name, hname, hspells⟩ :=
            hchecked.parameter value hget hstring written hwritten
          obtain ⟨start, hread⟩ := Json.exists_take_of_passOver hparameter hlast
          exact isName_of_readParameter hread
            ((hagreed.parameterName source inner hwritten).trans hname) hspells

/-! ## Entities -/

/-- What an accepted entity is read from. -/
theorem ofMembers_cases {entity : Entity} (h : ofMembers members = .ok entity) :
    ∃ kind variants, Json.textMember? "kind" members = some kind ∧
      Json.textMember? "name" members = some entity.name ∧
      readVariants? members = some variants ∧
      ((∃ fields, entity = .struct entity.name fields) ∨
        (∃ fields, entity = .store entity.name fields) ∨
        (kind = "Enum" ∧ entity = .enum entity.name variants) ∨
        (kind = "Function" ∧ ∃ decl, Function.ofMembers members = .ok decl ∧
          entity = .function decl)) := by
  unfold ofMembers at h
  split at h
  next kind name variants _ hkind hname hvariants =>
    refine ⟨kind, variants, hkind, ?_⟩
    split at h
    next =>
      obtain ⟨fields, -, rfl⟩ := map_ok_iff.mp h
      exact ⟨hname, hvariants, .inl ⟨fields, rfl⟩⟩
    next =>
      obtain ⟨fields, -, rfl⟩ := map_ok_iff.mp h
      exact ⟨hname, hvariants, .inr (.inl ⟨fields, rfl⟩)⟩
    next =>
      cases h
      exact ⟨hname, hvariants, .inr (.inr (.inl ⟨rfl, rfl⟩))⟩
    next =>
      split at h
      next decl hdecl =>
        cases h
        obtain ⟨document, hheader, -⟩ := Function.exists_header_of_ofMembers hdecl
        exact ⟨(Function.of_readHeader hheader).1, hvariants,
          .inr (.inr (.inr ⟨rfl, decl, hdecl, rfl⟩))⟩
      next => cases h
      next => cases h
    next => cases h
  next => cases h

/-- An entity whose document is checked where it is read has well-formed names. -/
theorem wellNamed_of_agreed (hchecked : CheckedEntity members) (hagreed : Agreed members)
    {entity : Entity} (h : ofMembers members = .ok entity) : entity.WellNamed := by
  obtain ⟨kind, variants, hkind, hname, hvariants, hcases⟩ := ofMembers_cases h
  have hwell : isName entity.name = true := by
    obtain ⟨value, hget, hspells⟩ := hchecked.name
    exact hspells.isName_of_textMember? (hagreed.name.trans hget) hname
  obtain ⟨fields, heq⟩ | ⟨fields, heq⟩ | ⟨rfl, heq⟩ | ⟨rfl, decl, hdecl, rfl⟩ := hcases
  · rw [heq]
    exact hwell
  · rw [heq]
    exact hwell
  · rw [heq]
    exact ⟨hwell, variants_wellNamed hchecked hagreed hkind hvariants⟩
  · exact ⟨hwell, parameter_wellNamed hchecked hagreed hkind hdecl⟩

end Entity

/-! ## Manifests -/

namespace Manifest

variable {m : Manifest} {source : String} {format : Format}

/-- The documents of the entities of a text. -/
def entityDocumentsOf (source : String) (format : Format) : List Json :=
  match readText? source format with
  | some (.obj _ members, _) => entityDocuments members
  | _ => []

/-- Nothing is allowed beside the version and the entities, so the list of entities that is
read is the one that is checked. -/
theorem agrees_entities {text : String} {members : List (String × Json)}
    (h : manifestCheck [] (.obj text members) = []) : Json.Agrees "entities" members := by
  obtain ⟨text', members', heq, -, hchecks⟩ := Check.object_eq_nil_iff.mp h
  cases heq
  simp only [List.append_eq_nil_iff] at hchecks
  apply Json.agrees_of_endsExact
  refine Json.endsExact_of_forall fun member hmember hnamed => ?_
  have hnames := hchecks.2
  split at hnames
  next hall =>
    have hname := List.all_eq_true.mp hall member hmember
    cases hunescape : Json.unescape? member.1 with
    | none => simp [hunescape] at hname
    | some name =>
        simp only [hunescape, Option.getD_some, List.contains_cons, List.contains_nil,
          Bool.or_false, Bool.or_eq_true, beq_iff_eq] at hname
        rcases hname with rfl | rfl
        · simp [Json.named, hunescape] at hnamed
        · rfl
  next => cases hnames

/-- Each entity of a document that passed has passed. -/
theorem checked_of_mem_entityDocuments {text : String} {members : List (String × Json)}
    (h : manifestCheck [] (.obj text members) = []) {document : Json}
    (hdocument : document ∈ entityDocuments members) :
    ∃ text inner, document = .obj text inner ∧ CheckedEntity inner := by
  have hagrees := agrees_entities h
  obtain ⟨text', members', heq, hrequired, hchecks⟩ := Check.object_eq_nil_iff.mp h
  cases heq
  simp only [List.append_eq_nil_iff] at hchecks
  obtain ⟨value, hvalue⟩ := Option.isSome_iff_exists.mp (hrequired "entities" (by simp))
  obtain ⟨list, items, rfl, hitems⟩ :=
    Check.list_eq_nil (Check.member_eq_nil_iff.mp hchecks.1.2 value hvalue)
  rw [entityDocuments, hagrees, hvalue] at hdocument
  obtain ⟨place, hplace⟩ := hitems document hdocument
  exact checkedEntity_of_entityCheck hplace

/-- The entities of an accepted text are those of its documents, in order. Each has a name,
and all its names are well-formed if the members that decide about them end with the exact
spelling, the one that is checked. -/
theorem wellNamed_of_parse (h : parse source format = .ok m) :
    List.Forall₂ (fun document entity => Entity.ofJson document = .ok entity ∧ entity.name ≠ "" ∧
        ∃ text members, document = .obj text members ∧
          (Entity.endsExact members = true → entity.WellNamed))
      (entityDocumentsOf source format) m.entities := by
  obtain ⟨members, ⟨text, rest, hread, -, hcheck, -⟩, hentities⟩ := exists_spells_of_parse h
  have hdocuments : entityDocumentsOf source format = entityDocuments members := by
    rw [entityDocumentsOf, hread]
  rw [hdocuments]
  rw [List.forall₂_iff_get] at hentities ⊢
  refine ⟨hentities.1, fun i hi hi' => ?_⟩
  obtain ⟨hentity, hname⟩ := hentities.2 i hi hi'
  obtain ⟨inner, parts, heq, hchecked⟩ :=
    checked_of_mem_entityDocuments hcheck (List.get_mem _ ⟨i, hi⟩)
  refine ⟨hentity, hname, inner, parts, heq, fun hexact => ?_⟩
  rw [heq] at hentity
  exact Entity.wellNamed_of_agreed hchecked (Entity.agreed_of_endsExact hexact) hentity

/-! ## An enum and a function, and an enum with names in two spellings -/

def colorEnum : Json :=
  .object [("kind", .string "Enum"), ("name", .string "Color"),
    ("variants", .array [.string "Red", .string "Green"])]

def paintFunction : Json :=
  .object [("kind", .string "Function"), ("name", .string "paint"),
    ("parameter", .object [("NAME", .string "a color"), ("name", .string "color")]),
    ("body", .array [])]

/-- A manifest of entities with these documents. -/
def documentOf (entities : List Json) : Json :=
  .object [("version", .string "1.0.0"), ("entities", .array entities)]

theorem compact_documentOf {entities : List Json} (h : ∀ entity ∈ entities, entity.Compact) :
    (documentOf entities).Compact := by
  refine Json.compact_object ?_
  simp only [List.forall_mem_cons]
  exact ⟨Json.compact_string "1.0.0", .array h, by simp⟩

theorem compact_colorEnum : colorEnum.Compact := by
  refine Json.compact_object ?_
  simp only [List.forall_mem_cons]
  exact ⟨Json.compact_string _, Json.compact_string _,
    .array (by simp [Json.compact_string]), by simp⟩

theorem compact_paintFunction : paintFunction.Compact := by
  refine Json.compact_object ?_
  simp only [List.forall_mem_cons]
  exact ⟨Json.compact_string _, Json.compact_string _,
    Json.compact_object (by simp [Json.compact_string]), .array (by simp), by simp⟩

/-- An enum and a function are accepted, and their names are well-formed. -/
theorem wellNamed_of_parse_colors : ∃ m,
    parse (documentOf [colorEnum, paintFunction]).text .json = .ok m ∧ m.entities.length = 2 ∧
      ∀ entity ∈ m.entities, entity.WellNamed := by
  have hcompact : (documentOf [colorEnum, paintFunction]).Compact :=
    compact_documentOf (by simp [compact_colorEnum, compact_paintFunction])
  have hdocuments : entityDocumentsOf (documentOf [colorEnum, paintFunction]).text .json =
      [colorEnum, paintFunction] := by
    rw [entityDocumentsOf, readText?, hcompact.parseFirst?_text]
    rfl
  have hparse : ∃ m, parse (documentOf [colorEnum, paintFunction]).text .json = .ok m :=
    exists_parse hcompact rfl rfl rfl rfl rfl
  obtain ⟨m, hparse⟩ := hparse
  have hentities := wellNamed_of_parse hparse
  rw [hdocuments] at hentities
  refine ⟨m, hparse, hentities.length_eq.symm, ?_⟩
  generalize m.entities = entities at hentities
  obtain ⟨color, rest, hcolor, hrest, rfl⟩ := List.forall₂_cons_left_iff.mp hentities
  obtain ⟨paint, last, hpaint, hlast, rfl⟩ := List.forall₂_cons_left_iff.mp hrest
  obtain rfl := List.forall₂_nil_left_iff.mp hlast
  obtain ⟨-, -, _, _, hcolor, hwellColor⟩ := hcolor
  obtain ⟨-, -, _, _, hpaint, hwellPaint⟩ := hpaint
  obtain ⟨rfl, rfl⟩ := Json.obj.inj hcolor
  obtain ⟨rfl, rfl⟩ := Json.obj.inj hpaint
  exact List.forall_mem_cons.mpr ⟨hwellColor rfl, List.forall_mem_singleton.mpr (hwellPaint rfl)⟩

/-- An enum with a second name and second variants under names in another case. -/
def recasedEnum : Json :=
  .object [("kind", .string "Enum"), ("name", .string "Color"),
    ("variants", .array [.string "Red"]), ("Name", .string "my color"),
    ("Variants", .array [.string "Red", .string "Red"])]

theorem compact_recasedEnum : recasedEnum.Compact := by
  refine Json.compact_object ?_
  simp only [List.forall_mem_cons]
  exact ⟨Json.compact_string _, Json.compact_string _, .array (by simp [Json.compact_string]),
    Json.compact_string _, .array (by simp [Json.compact_string]), by simp⟩

/-- The enum is accepted with a name that is none, and with one variant listed twice. -/
theorem not_wellNamed_recasedEnum : ∃ m,
    parse (documentOf [recasedEnum]).text .json = .ok m ∧
      m.entities = [.enum "my color" ["Red", "Red"]] ∧
      ∀ entity ∈ m.entities, ¬ entity.WellNamed := by
  have hcompact : (documentOf [recasedEnum]).Compact :=
    compact_documentOf (List.forall_mem_singleton.mpr compact_recasedEnum)
  have hdeclared : declared (documentOf [recasedEnum]) =
      .ok { entities := [.enum "my color" ["Red", "Red"]] } := rfl
  have hparse : ∃ m, parse (documentOf [recasedEnum]).text .json = .ok m :=
    exists_parse hcompact rfl rfl rfl rfl hdeclared
  have hread : readText? (documentOf [recasedEnum]).text .json =
      some (documentOf [recasedEnum], []) := hcompact.parseFirst?_text
  obtain ⟨m, hparse⟩ := hparse
  obtain ⟨found, hfound, hentities⟩ := exists_declared (ofDocument_of_parse hread hparse)
  rw [hdeclared, Except.ok.injEq] at hfound
  rw [← hfound] at hentities
  refine ⟨m, hparse, hentities, ?_⟩
  rw [hentities, List.forall_mem_singleton]
  rintro ⟨hname, -⟩
  cases hname

end Manifest

end StoredProc
