import Mathlib.Data.String.Basic
import Mathlib.Logic.Relation
import StoredProc.Proofs.Compile.StoreView
import StoredProc.Proofs.DataType.Documents
import StoredProc.Proofs.Manifest.Names
import StoredProc.Proofs.Tree.Declarations
import StoredProc.Proofs.Tree.Reading

/-! # The order of fields in a manifest

Object types may stand anywhere in a manifest: as schemas, as types of parameters and
results, and as types of variables at any depth of a body. In which order their fields
are written changes nothing of what is compiled.
-/

namespace StoredProc

namespace Json

/-- Whether the value of a member is a type document. -/
def isTypeMember (name : String) : Bool :=
  named "type" name || named "schema" name || named "returnType" name

/-- Two documents that differ in the order of the fields of one object type, wherever
this type stands. The value of a number literal is a text and holds no types. -/
inductive Reordered : Json → Json → Prop
  | type {name source source' : String} {value value' : Json}
      {members members' : List (String × Json)} (hname : isTypeMember name = true)
      (hmembers : Replaced (name, value) (name, value') members members')
      (h : DataType.Reordered value value') :
      Reordered (.obj source members) (.obj source' members')
  | member {name source source' : String} {value value' : Json}
      {members members' : List (String × Json)} (hname : isTypeMember name = false)
      (hkind : textMember? "kind" members ≠ some "NumberLiteral")
      (hmembers : Replaced (name, value) (name, value') members members')
      (h : Reordered value value') :
      Reordered (.obj source members) (.obj source' members')
  | item {source source' : String} {value value' : Json} {items items' : List Json}
      (hitems : Replaced value value' items items') (h : Reordered value value') :
      Reordered (.arr source items) (.arr source' items')

/-- The names of members that hold types. -/
def typeFields : List String := ["type", "schema", "returnType"]

theorem isTypeMember_eq_any (name : String) :
    isTypeMember name = typeFields.any (named · name) := by
  simp [isTypeMember, typeFields, Bool.or_assoc]

/-- A type is not found under any other name. -/
theorem not_named_of_type {name field : String} (hname : isTypeMember name = true)
    (hfield : ∀ other ∈ typeFields,
      field.toList.map Char.toLower ≠ other.toList.map Char.toLower) :
    ¬ named field name = true := by
  intro hnamed
  rw [isTypeMember_eq_any, List.any_eq_true] at hname
  obtain ⟨other, hother, hnamed'⟩ := hname
  exact hfield other hother (eq_of_named hnamed hnamed')

/-- What is not a type is not found under the name of one. -/
theorem not_named_of_not_type {name field : String} (hname : isTypeMember name = false)
    (hfield : field ∈ typeFields) : ¬ named field name = true := by
  intro hnamed
  rw [isTypeMember_eq_any, List.any_eq_false] at hname
  exact hname field hfield hnamed

section Members

variable {name : String} {value value' : Json} {members members' : List (String × Json)}

/-- A type in another order leaves what is read of the members around it. -/
theorem Replaced.alikeMembers_of_type (hname : isTypeMember name = true)
    (hmembers : Replaced (name, value) (name, value') members members')
    (h : DataType.Reordered value value') : AlikeMembers members members' := by
  have hnode : ∀ field ∈ nodeFields, ¬ named field name = true := by
    have hother : ∀ field ∈ nodeFields, ∀ other ∈ typeFields,
        field.toList.map Char.toLower ≠ other.toList.map Char.toLower := by decide
    exact fun field hfield => not_named_of_type hname (hother field hfield)
  exact hmembers.alikeMembers h.compound (fun _ => h.ofJson_eq)
    (fun field hfield hnamed => absurd hnamed (hnode field hfield))
    (fun hnamed => absurd hnamed (hnode "value" (by decide)))

/-- A part that is read alike and is no type leaves what is read of the members around it. -/
theorem Replaced.alikeMembers_of_alike (hname : isTypeMember name = false)
    (hkind : textMember? "kind" members ≠ some "NumberLiteral")
    (hmembers : Replaced (name, value) (name, value') members members')
    (h : Alike value value') : AlikeMembers members members' :=
  hmembers.alikeMembers h.compound
    (fun hnamed => absurd hnamed (not_named_of_not_type hname (by decide))) (fun _ _ _ => h)
    fun _ => hkind

end Members

namespace Reordered

variable {value value' : Json}

/-- Every reader of nodes reads the two documents alike. -/
theorem alike (h : Reordered value value') : Alike value value' := by
  induction h with
  | @type _ source source' _ _ _ _ hname hmembers h =>
      exact (hmembers.alikeMembers_of_type hname h).alike source source'
  | @member _ source source' _ _ _ _ hname hkind hmembers _ ih =>
      exact (hmembers.alikeMembers_of_alike hname hkind ih).alike source source'
  | @item source source' _ _ _ _ hitems _ ih => exact ih.list hitems source source'

end Reordered

end Json

/-! ## Parameters -/

namespace Function

open Json (Replaced Compound Reordered)

/-- Two parameters of one name and one type. -/
structure ParameterDocument.Alike (document document' : ParameterDocument) : Prop where
  name : document.name = document'.name
  type : optionalType document.type = optionalType document'.type

/-- Two values that say the same of a parameter, whatever was said of it before. -/
def ReadsParameter (value value' : Json) : Prop :=
  ∀ start start', Option.Rel ParameterDocument.Alike start start' →
    Option.Rel (Option.Rel ParameterDocument.Alike) (readParameter start value)
      (readParameter start' value')

/-- Members of one name with one value, or with types that are read alike. -/
def AlikeMember (member member' : String × Json) : Prop :=
  member = member' ∨ member.1 = member'.1 ∧ Compound member.2 member'.2 ∧
    (Json.named "type" member.1 = true → DataType.ofJson member.2 = DataType.ofJson member'.2)

theorem optionalType_eq {value value' : Json} (hcompound : Compound value value')
    (h : DataType.ofJson value = DataType.ofJson value') :
    optionalType (some value) = optionalType (some value') := by
  cases hcompound <;> simp only [optionalType, h]

/-- Members that are alike change parameters that are alike to ones that are. -/
theorem ParameterDocument.Alike.readMember {document document' : ParameterDocument}
    (h : document.Alike document') {member member' : String × Json}
    (hmember : AlikeMember member member') :
    Option.Rel Alike (document.readMember member) (document'.readMember member') := by
  obtain ⟨name, value⟩ := member
  obtain ⟨name', value'⟩ := member'
  obtain heq | ⟨rfl, hcompound, htype⟩ := hmember
  · obtain ⟨rfl, rfl⟩ := Prod.mk.inj heq
    rw [ParameterDocument.readMember, ParameterDocument.readMember]
    split
    · split
      · exact .some h
      · cases value.string? with
        | none => exact .none
        | some text => exact .some ⟨rfl, h.type⟩
    · split
      · exact .some ⟨h.name, rfl⟩
      · exact .some h
  · rw [ParameterDocument.readMember, ParameterDocument.readMember]
    split
    · cases hcompound <;> exact .none
    · split
      next htyped => exact .some ⟨h.name, optionalType_eq hcompound (htype htyped)⟩
      next => exact .some h

/-- Objects whose members are alike say the same of a parameter. -/
theorem readsParameter_obj {members members' : List (String × Json)} (source source' : String)
    (hsound : Json.soundNames members = Json.soundNames members')
    (hmembers : List.Forall₂ AlikeMember members members') :
    ReadsParameter (.obj source members) (.obj source' members') := by
  intro start start' hstart
  have hstart : (start.getD {}).Alike (start'.getD {}) := by
    cases hstart with
    | some h => exact h
    | none => exact ⟨rfl, rfl⟩
  have hfold := Json.foldlM_rel (fun _ _ _ _ h hmember => h.readMember hmember) hmembers hstart
  rw [readParameter_obj, readParameter_obj, hsound]
  split
  · generalize members.foldlM ParameterDocument.readMember (start.getD {}) = found,
      members'.foldlM ParameterDocument.readMember (start'.getD {}) = found' at hfold ⊢
    cases hfold with
    | some h => exact .some (.some h)
    | none => exact .none
  · exact .none

/-- A value says of a parameter what it says. -/
theorem readsParameter_self (value : Json) : ReadsParameter value value := by
  intro start start' hstart
  cases value with
  | null => exact .some .none
  | obj source members =>
      exact readsParameter_obj source source rfl (List.forall₂_same.mpr fun _ _ => .inl rfl)
        start start' hstart
  | bool | num | str | arr => exact .none

/-- A parameter may be reordered in its type only, which is read alike. -/
theorem readsParameter_of_reordered {value value' : Json} (h : Reordered value value') :
    ReadsParameter value value' := by
  cases h with
  | @type name source source' type type' _ _ hname hmembers h =>
      apply readsParameter_obj source source' (Json.soundNames_eq hmembers)
      refine hmembers.forall₂.imp fun member member' hmember => ?_
      obtain heq | ⟨rfl, rfl⟩ := hmember
      · exact .inl heq
      · exact .inr ⟨rfl, h.compound, fun _ => h.ofJson_eq⟩
  | @member name source source' _ _ _ _ hname _ hmembers h =>
      apply readsParameter_obj source source' (Json.soundNames_eq hmembers)
      refine hmembers.forall₂.imp fun member member' hmember => ?_
      obtain heq | ⟨rfl, rfl⟩ := hmember
      · exact .inl heq
      · exact .inr ⟨rfl, h.alike.compound,
          fun hnamed => absurd hnamed (Json.not_named_of_not_type hname (by decide))⟩
  | item =>
      intro start start' _
      exact .none

/-- If one member is reordered, the parameter is alike. -/
theorem parameterOf_rel {name : String} {value value' : Json}
    {members members' : List (String × Json)}
    (hmembers : Replaced (name, value) (name, value') members members')
    (hparameter : Json.named "parameter" name = true → ReadsParameter value value') :
    Option.Rel (Option.Rel ParameterDocument.Alike) (parameterOf members)
      (parameterOf members') := by
  refine Json.foldlM_rel ?_ hmembers.forall₂ .none
  intro found found' member member' hfound hmember
  have hreads : member.1 = member'.1 ∧
      (Json.named "parameter" member.1 = true → ReadsParameter member.2 member'.2) := by
    obtain rfl | ⟨rfl, rfl⟩ := hmember
    · exact ⟨rfl, fun _ => readsParameter_self _⟩
    · exact ⟨rfl, hparameter⟩
  rw [← hreads.1]
  split
  next hnamed => exact hreads.2 hnamed found found' hfound
  next => exact .some hfound

/-- The parts of a function document in which its reader finds the same. -/
theorem ofMembers_eq {members members' : List (String × Json)}
    (h : Json.AlikeMembers members members')
    (hparameter : Option.Rel (Option.Rel ParameterDocument.Alike) (parameterOf members)
      (parameterOf members'))
    (hresult : optionalType (Json.last? "returnType" members) =
      optionalType (Json.last? "returnType" members')) :
    ofMembers members = ofMembers members' := by
  rw [ofMembers, ofMembers, readHeader_eq, readHeader_eq, h.sound, h.lists, h.text, h.loc, hresult, h.body]
  generalize parameterOf members = found, parameterOf members' = found' at hparameter ⊢
  cases hparameter with
  | none => rfl
  | some hfound =>
      cases hfound with
      | none => rfl
      | some hdocument =>
          cases Json.soundNames members' <;> try rfl
          cases Json.allNamed "body" Json.isListOrNull members' <;> try rfl
          cases Json.textMember? "name" members' <;> try rfl
          cases Location.ofMembers members' <;> try rfl
          simp only [guard_true, pure_bind, Option.bind_eq_bind, Option.bind_some, Option.pure_def,
            hdocument.name, hdocument.type]

end Function

/-! ## Entities -/

namespace Entity

open Json (Replaced Compound Reordered)

/-- The variants that one value lists. -/
def variantsOf? : Json → Option (List String)
  | .null => some []
  | .arr _ items => readTexts? items
  | _ => none

section Members

variable {name : String} {value value' : Json} {members members' : List (String × Json)}

/-- Variants are read alike if the value that was replaced lists the same. -/
theorem readVariants?_eq (hmembers : Replaced (name, value) (name, value') members members')
    (h : Json.named "variants" name = true → variantsOf? value = variantsOf? value') :
    readVariants? members = readVariants? members' := by
  apply hmembers.foldlM_eq
  intro found
  by_cases hnamed : Json.named "variants" name = true
  · simp only [if_pos hnamed]
    exact h hnamed
  · simp only [if_neg hnamed]

theorem readSchema_eq (name : String) (h : (Json.last? "schema" members).map DataType.ofJson =
    (Json.last? "schema" members').map DataType.ofJson) :
    readSchema name members = readSchema name members' := by
  rw [readSchema, readSchema]
  cases hfirst : Json.last? "schema" members <;> cases hsecond : Json.last? "schema" members' <;>
    simp only [hfirst, hsecond, Option.map_none, Option.map_some, reduceCtorEq,
      Option.some.injEq] at h
  · rfl
  · simp only [h]

theorem ofMembers_eq (h : Json.AlikeMembers members members')
    (hvariants : readVariants? members = readVariants? members')
    (hschema : (Json.last? "schema" members).map DataType.ofJson =
      (Json.last? "schema" members').map DataType.ofJson)
    (hfunction : Function.ofMembers members = Function.ofMembers members') :
    ofMembers members = ofMembers members' := by
  simp only [ofMembers, h.sound, h.text, hvariants, fun name => readSchema_eq name hschema,
    hfunction]

end Members

theorem readTexts?_eq {value value' : Json} {items items' : List Json}
    (hitems : Replaced value value' items items') (hcompound : Compound value value') :
    readTexts? items = readTexts? items' := by
  obtain ⟨before, after⟩ := hitems
  induction before with
  | nil => cases hcompound <;> rfl
  | cons item rest ih => cases item <;> simp only [List.cons_append, readTexts?, ih]

theorem variantsOf?_eq {value value' : Json} (h : Reordered value value') :
    variantsOf? value = variantsOf? value' := by
  cases h with
  | type | member => rfl
  | item hitems h => exact readTexts?_eq hitems h.alike.compound

/-- An entity is read alike. -/
theorem ofJson_eq_of_reordered {value value' : Json} (h : Reordered value value') :
    ofJson value = ofJson value' := by
  cases h with
  | type hname hmembers h =>
      apply ofMembers_eq (hmembers.alikeMembers_of_type hname h)
      · exact readVariants?_eq hmembers
          (absurd · (Json.not_named_of_type hname (by decide)))
      · exact Json.map_last?_eq hmembers fun _ => h.ofJson_eq
      · apply Function.ofMembers_eq (hmembers.alikeMembers_of_type hname h)
        · exact Function.parameterOf_rel hmembers
            (absurd · (Json.not_named_of_type hname (by decide)))
        · obtain heq | ⟨-, hlast, hlast'⟩ := Json.last?_cases hmembers "returnType"
          · rw [heq]
          · rw [hlast, hlast', Function.optionalType_eq h.compound h.ofJson_eq]
  | member hname hkind hmembers h =>
      have hmembers' := hmembers.alikeMembers_of_alike hname hkind h.alike
      apply ofMembers_eq hmembers'
      · exact readVariants?_eq hmembers fun _ => variantsOf?_eq h
      · exact Json.map_last?_eq hmembers
          (absurd · (Json.not_named_of_not_type hname (by decide)))
      · apply Function.ofMembers_eq hmembers'
        · exact Function.parameterOf_rel hmembers fun _ => Function.readsParameter_of_reordered h
        · obtain heq | ⟨hnamed, -, -⟩ := Json.last?_cases hmembers "returnType"
          · rw [heq]
          · exact absurd hnamed (Json.not_named_of_not_type hname (by decide))
  | item => rfl

end Entity

/-! ## Manifests -/

namespace Manifest

open Json (Replaced Compound Compact Reordered)

/-- The entities that a document declares, whether the rest of it is sound or not. -/
def declared : Json → Except Error Manifest
  | .obj _ members => addAll {} 0 (entityDocuments members)
  | _ => .ok {}

/-- Documents that are read alike are added alike. -/
theorem addAll_eq {documents documents' : List Json}
    (h : documents.map Entity.ofJson = documents'.map Entity.ofJson) (m : Manifest)
    (index : Nat) : addAll m index documents = addAll m index documents' := by
  induction documents generalizing documents' m index with
  | nil =>
      obtain rfl := List.map_eq_nil_iff.mp h.symm
      rfl
  | cons document rest ih =>
      obtain ⟨document', rest', rfl, hfirst, hrest⟩ := List.map_eq_cons_iff.mp h.symm
      rw [addAll, addAll, hfirst]
      simp only [ih hrest.symm]

/-- A reordering changes no entity of a document. -/
theorem declared_eq_of_reordered {document document' : Json} (h : Reordered document document') :
    declared document = declared document' := by
  cases h with
  | item => rfl
  | type hname hmembers h =>
      obtain heq | ⟨hnamed, -, -⟩ := Json.last?_cases hmembers "entities"
      · rw [declared, declared, entityDocuments, entityDocuments, heq]
      · exact absurd hnamed (Json.not_named_of_type hname (by decide))
  | member hname hkind hmembers h =>
      rw [declared, declared, entityDocuments, entityDocuments]
      obtain heq | ⟨-, hlast, hlast'⟩ := Json.last?_cases hmembers "entities"
      · rw [heq]
      · rw [hlast, hlast']
        cases h with
        | type | member => rfl
        | item hitems h =>
            exact addAll_eq (hitems.map_eq (Entity.ofJson_eq_of_reordered h)) {} 0

theorem declared_eq_of_reorderings {document document' : Json}
    (h : Relation.ReflTransGen Reordered document document') :
    declared document = declared document' := by
  induction h with
  | refl => rfl
  | tail _ hstep ih => exact ih.trans (declared_eq_of_reordered hstep)

/-- The manifest of an accepted document holds what the document declares. -/
theorem exists_declared {document : Json} {rest : List Char} {m : Manifest}
    (h : ofDocument document rest = .ok m) :
    ∃ found, declared document = .ok found ∧ m.entities = found.entities := by
  obtain ⟨text, members, found, rfl, _, _, hfound, rfl⟩ := exists_of_ofDocument h
  exact ⟨found, hfound, rfl⟩

theorem ofDocument_of_parse {source : String} {format : Format} {document : Json}
    {rest : List Char} {m : Manifest} (hread : readText? source format = some (document, rest))
    (h : parse source format = .ok m) : ofDocument document rest = .ok m := by
  obtain ⟨found, after, hfound, hdocument⟩ := exists_of_parse h
  cases hread.symm.trans hfound
  exact hdocument

/-- A text that spells a sound document, and that declares entities, is accepted. -/
theorem exists_parse_of_readText? {source text : String} {members : List (String × Json)}
    {rest : List Char} {m : Manifest} (hread : readText? source .json = some (.obj text members, rest))
    (hblank : (Json.skipBlanks rest).isEmpty = true)
    (hsound : (Json.obj text members).sound = true)
    (hrange : (Json.obj text members).inRange = true)
    (hviolations : manifestCheck [] (.obj text members) = [])
    (hversion : Json.textMember? "version" members = some "1.0.0")
    (hdeclared : declared (.obj text members) = .ok m) : ∃ m', parse source .json = .ok m' := by
  have hclean : violations (.obj text members) = [] := by
    simp [violations, hviolations]
  have hidentifiers : Version.identifiers "" = [""] := by
    rw [Version.identifiers, String.splitToList_of_valid]
    rfl
  have hsplit : Version.split? "1.0.0" = some (["1", "0", "0"], "", "") := by rfl
  have hparsed : Version.parse "1.0.0" = .ok ⟨1, 0, 0, "", ""⟩ := by
    simp only [Version.parse, hsplit, hidentifiers]
    rfl
  refine ⟨{ m with fingerprint := fingerprintOf (.obj text members) }, ?_⟩
  rw [parse, hread]
  simp only [hsound, hrange, Bool.and_self, if_true, ofDocument, hclean, hblank, hversion,
    Option.getD_some, hparsed]
  rw [declared] at hdeclared
  simp only [hdeclared]
  rfl

/-- The text of a sound document that declares entities is accepted. -/
theorem exists_parse {source : String} {members : List (String × Json)} {m : Manifest}
    (hcompact : Compact (.obj source members))
    (hsound : (Json.obj source members).sound = true)
    (hrange : (Json.obj source members).inRange = true)
    (hviolations : manifestCheck [] (.obj source members) = [])
    (hversion : Json.textMember? "version" members = some "1.0.0")
    (hdeclared : declared (.obj source members) = .ok m) : ∃ m', parse source .json = .ok m' :=
  exists_parse_of_readText? hcompact.parseFirst?_text rfl hsound hrange hviolations hversion
    hdeclared

/-! ## A store of users, written in two orders -/

def nameThenAge : List (String × String) := [("name", "string"), ("age", "int")]

def ageThenName : List (String × String) := [("age", "int"), ("name", "string")]

/-- The document of a user with fields of these names and kinds. -/
def userType (fields : List (String × String)) : Json :=
  DataType.typeDocument "Object"
    (.object (fields.map fun field => (field.1, DataType.typeDocument field.2 .null)))

def usersEntity (fields : List (String × String)) : Json :=
  .object [("kind", .string "HierarchicalStore"), ("name", .string "users"),
    ("schema", userType fields)]

/-- A manifest with one store, which holds users. -/
def usersDocument (fields : List (String × String)) : Json :=
  .object [("version", .string "1.0.0"), ("entities", .array [usersEntity fields])]

theorem reordered_usersDocument :
    Reordered (usersDocument nameThenAge) (usersDocument ageThenName) := by
  have htype : DataType.Reordered (userType nameThenAge) (userType ageThenName) :=
    .fields (by rfl) (.intro [_] []) (by decide) (.swap ..)
  refine .member (by rfl) (by decide) (.intro [_] []) (.item (.intro [] []) ?_)
  exact .type (by rfl) (.intro [_, _] []) htype

theorem compact_usersDocument (fields : List (String × String)) :
    Compact (usersDocument fields) := by
  have htype : Compact (userType fields) := by
    refine DataType.compact_typeDocument (Json.compact_object fun member hmember => ?_)
    obtain ⟨field, -, rfl⟩ := List.mem_map.mp hmember
    exact DataType.compact_typeDocument .null
  have hentity : Compact (usersEntity fields) :=
    Json.compact_object (by simp [Json.compact_string, htype])
  have hentities : Compact (.array [usersEntity fields]) := .array (by simpa using hentity)
  exact Json.compact_object (by simpa [Json.compact_string] using hentities)

/-- The fields are listed by name, whatever their order was. -/
theorem declared_usersDocument : declared (usersDocument nameThenAge) =
    .ok { entities := [.store "users" [("age", .int), ("name", .string)]] } := by
  have hsorted : DataType.sortFields
      [("name", (.ok .string : Except DataType.DecodeError DataType)), ("age", .ok .int)] =
      [("age", .ok .int), ("name", .ok .string)] :=
    DataType.sortFields_eq_of_pairwise (by decide) (.swap _ _ _)
  have htype : DataType.ofJson (userType nameThenAge) = (DataType.collectFields (DataType.sortFields
      [("name", .ok .string), ("age", .ok .int)])).map .object := rfl
  have hlast : Json.last? "schema" [("schema", userType nameThenAge)] =
      some (userType nameThenAge) := rfl
  have hschema : Entity.readSchema "users" [("schema", userType nameThenAge)] =
      .ok [("age", .int), ("name", .string)] := by
    simp only [Entity.readSchema, hlast, htype, hsorted]
    rfl
  have hentity : Entity.ofJson (usersEntity nameThenAge) =
      (Entity.readSchema "users" [("schema", userType nameThenAge)]).map (.store "users") := rfl
  have hdocument : declared (usersDocument nameThenAge) =
      addAll {} 0 [usersEntity nameThenAge] := rfl
  rw [hdocument, addAll, hentity, hschema]
  rfl

/-- Two accepted manifests whose documents differ in the order of the fields of object
types, anywhere and any number of times, are compiled alike: the program with its frame
sizes, or the error, and the failures of functions are the same. -/
theorem compile_eq_of_reordered {source source' : String} {format format' : Format}
    {document document' : Json} {rest rest' : List Char} {m m' : Manifest}
    (hread : readText? source format = some (document, rest))
    (hread' : readText? source' format' = some (document', rest'))
    (hreordered : Relation.ReflTransGen Reordered document document')
    (hparse : parse source format = .ok m) (hparse' : parse source' format' = .ok m') :
    m.compile = m'.compile := by
  obtain ⟨found, hfound, hentities⟩ := exists_declared (ofDocument_of_parse hread hparse)
  obtain ⟨found', hfound', hentities'⟩ := exists_declared (ofDocument_of_parse hread' hparse')
  have hdeclared := declared_eq_of_reorderings hreordered
  rw [hfound, hfound', Except.ok.injEq] at hdeclared
  apply compile_eq_of_entities
  rw [hentities, hentities', hdeclared]

/-- Both orders of the fields compile alike. -/
theorem compile_eq_of_reordered_users : ∃ m m',
    parse (usersDocument nameThenAge).text .json = .ok m ∧
    parse (usersDocument ageThenName).text .json = .ok m' ∧
    m.compile = m'.compile := by
  have hread : ∀ fields, readText? (usersDocument fields).text .json =
      some (usersDocument fields, []) := fun fields =>
    (compact_usersDocument fields).parseFirst?_text
  have hdeclared' := declared_eq_of_reordered reordered_usersDocument ▸ declared_usersDocument
  obtain ⟨m, hparse⟩ := exists_parse (compact_usersDocument nameThenAge)
    rfl rfl rfl rfl declared_usersDocument
  obtain ⟨m', hparse'⟩ := exists_parse (compact_usersDocument ageThenName)
    rfl rfl rfl rfl hdeclared'
  exact ⟨m, m', hparse, hparse',
    compile_eq_of_reordered (hread _) (hread _) (.single reordered_usersDocument) hparse hparse'⟩

end Manifest

end StoredProc
