import StoredProc.Manifest.Codec
import StoredProc.Proofs.Tree.Declarations
import StoredProc.Proofs.Tree.Respelling

/-! # Entities in the compact spelling

An entity document and its compact form describe one entity, up to the texts of lists and
objects that stand for numbers in the bodies of functions.
-/

namespace StoredProc

open Json (compactMembers)

namespace Function

/-- The same function with the texts of its number literals changed. -/
def mapNumbers (change : String → String) (f : Function) : Function :=
  { f with body := Statement.mapNumbersAll change f.body }

/-- A parameter as it is written in the compact spelling. -/
def ParameterDocument.compact (document : ParameterDocument) : ParameterDocument :=
  { document with type := document.type.map Json.compact }

theorem ParameterDocument.readMember_compact (document : ParameterDocument) (name : String)
    (value : Json) : document.compact.readMember (name, value.compact) =
      (document.readMember (name, value)).map ParameterDocument.compact := by
  rw [readMember, readMember]
  dsimp only
  split
  · cases value with
    | null => rfl
    | str written =>
        dsimp only [Json.compact, Json.respell, id]
        cases Json.string? (.str written) <;> rfl
    | bool | num | arr | obj => rfl
  · split <;> rfl

/-- A parameter is read alike in the compact spelling. -/
theorem readParameter_compact (start : Option ParameterDocument) (value : Json) :
    readParameter (start.map ParameterDocument.compact) value.compact =
      (readParameter start value).map (Option.map ParameterDocument.compact) := by
  cases value with
  | obj source members =>
      have hstart : (start.map ParameterDocument.compact).getD {} =
          (start.getD {}).compact := by
        cases start <;> rfl
      rw [Json.compact_obj, Json.written, readParameter_obj, readParameter_obj,
        Json.soundNames_compactMembers, hstart,
        Json.foldlM_compactMembers_view ParameterDocument.readMember_compact]
      split
      · rw [Option.map_map, Option.map_map]
        rfl
      · rfl
  | null | bool | num | str | arr => rfl

/-- The last parameter counts in either spelling. -/
theorem parameterOf_compactMembers (members : List (String × Json)) :
    parameterOf (compactMembers members) =
      (parameterOf members).map (Option.map ParameterDocument.compact) := by
  rw [parameterOf, parameterOf, ← Json.foldlM_compactMembers_view]
  · rfl
  · intro state name value
    dsimp only
    split
    · exact readParameter_compact state value
    · rfl

/-- The plain members of a function document in the compact spelling. -/
def Header.compact (header : Header) : Header :=
  { header with parameter := header.parameter.map ParameterDocument.compact }

/-- The plain members of a function are read alike in the compact spelling. -/
theorem readHeader_compactMembers (members : List (String × Json)) :
    readHeader (compactMembers members) = (readHeader members).map Header.compact := by
  rw [readHeader_eq, readHeader_eq, Json.soundNames_compactMembers,
    Json.allNamed_compactMembers _ _ Json.isListOrNull_compact, Json.textMember?_compactMembers,
    parameterOf_compactMembers, Location.ofMembers_compactMembers]
  cases Json.soundNames members <;> cases Json.allNamed "body" Json.isListOrNull members <;>
    cases Json.textMember? "name" members <;> cases parameterOf members <;>
    cases Location.ofMembers members <;> rfl

theorem optionalType_compact (document : Option Json) :
    optionalType (document.map Json.compact) = optionalType document := by
  cases document with
  | none => rfl
  | some value =>
      cases value with
      | null | bool | num | str | arr => rfl
      | obj source members =>
          exact congrArg (Except.map some) (DataType.ofJson_compact (.obj source members))

section Bodies

variable {members : List (String × Json)}
  (h : ∀ name value, Json.last? name members = some value → value.RespelledAlike)
include h

/-- A body is read alike in the compact spelling, but for numbers in brackets, which are kept as
they are spelled. -/
theorem map_mapError_body (name : String) :
    ((orEmpty (lastBody? (compactMembers members))).mapError (DecodeError.body name)).map
        (Statement.mapNumbersAll maskBrackets) =
      ((orEmpty (lastBody? members)).mapError (DecodeError.body name)).map
        (Statement.mapNumbersAll maskBrackets) := by
  have hcommutes : ∀ body : Except NodeError (List Statement),
      (body.mapError (DecodeError.body name)).map (Statement.mapNumbersAll maskBrackets) =
        (body.map (Statement.mapNumbersAll maskBrackets)).mapError (DecodeError.body name) := by
    intro body
    cases body <;> rfl
  rw [hcommutes, hcommutes, Json.RespelledAlike.map_body h]

/-- Whatever the parameter is, the rest of the document gives the same. -/
theorem map_rest_compact (name : String) (loc : Location) (parameter : Option Parameter)
    (result : Except DecodeError (Option DataType)) :
    Except.map (mapNumbers maskBrackets) (do
      let result ← result
      let body ← (orEmpty (lastBody? (compactMembers members))).mapError (DecodeError.body name)
      return { loc, name, parameter, result, body }) =
    Except.map (mapNumbers maskBrackets) (do
      let result ← result
      let body ← (orEmpty (lastBody? members)).mapError (DecodeError.body name)
      return { loc, name, parameter, result, body }) := by
  refine map_bind_eq (show result.map id = result.map id from rfl) fun result other hresult => ?_
  obtain rfl : result = other := hresult
  refine map_bind_eq (map_mapError_body h name) fun _ _ hbody => ?_
  exact congrArg (fun body => Except.ok (Function.mk loc name parameter result body)) hbody

/-- A function is read alike in the compact spelling, but for numbers in brackets. -/
theorem map_ofMembers_compact :
    (ofMembers (compactMembers members)).map (mapNumbers maskBrackets) =
      (ofMembers members).map (mapNumbers maskBrackets) := by
  unfold ofMembers
  rw [readHeader_compactMembers, Json.last?_compactMembers, optionalType_compact]
  cases readHeader members with
  | none => rfl
  | some header =>
      obtain ⟨name, parameter, loc⟩ := header
      cases parameter with
      | none => exact map_rest_compact h name loc none _
      | some document =>
          dsimp only [Option.map_some, Header.compact, ParameterDocument.compact]
          rw [optionalType_compact]
          split
          · rfl
          · cases optionalType document.type with
            | error cause => rfl
            | ok type => exact map_rest_compact h name loc _ _

end Bodies

end Function

namespace Entity

/-- The same entity with the texts of its number literals changed. -/
def mapNumbers (change : String → String) : Entity → Entity
  | .function decl => .function (decl.mapNumbers change)
  | entity => entity

theorem readTexts?_compact (items : List Json) :
    readTexts? (items.map Json.compact) = readTexts? items := by
  induction items with
  | nil => rfl
  | cons item rest ih =>
      cases item with
      | null => exact congrArg (Option.map ("" :: ·)) ih
      | str written =>
          rw [List.map_cons]
          simp only [Json.compact, Json.respell, id, readTexts?] at ih ⊢
          rw [ih]
      | bool | num | arr | obj => rfl

theorem readVariants?_compactMembers (members : List (String × Json)) :
    readVariants? (compactMembers members) = readVariants? members := by
  apply Json.foldlM_compactMembers
  intro found name value
  dsimp only
  cases value with
  | arr source items =>
      rw [Json.compact_arr, Json.array]
      dsimp only
      rw [readTexts?_compact]
  | null | bool | num | str | obj => rfl

theorem readSchema_compactMembers (name : String) (members : List (String × Json)) :
    readSchema name (compactMembers members) = readSchema name members := by
  rw [readSchema, readSchema, Json.last?_compactMembers]
  cases Json.last? "schema" members with
  | none => rfl
  | some document =>
      dsimp only [Option.map_some]
      rw [DataType.ofJson_compact]

/-- An entity is read alike in the compact spelling, but for numbers in brackets. -/
theorem map_ofMembers_compact {members : List (String × Json)}
    (h : ∀ name value, Json.last? name members = some value → value.RespelledAlike) :
    (ofMembers (compactMembers members)).map (mapNumbers maskBrackets) =
      (ofMembers members).map (mapNumbers maskBrackets) := by
  have hfunction := Function.map_ofMembers_compact h
  unfold ofMembers
  rw [Json.soundNames_compactMembers, Json.textMember?_compactMembers,
    Json.textMember?_compactMembers, readVariants?_compactMembers]
  split
  · split
    · rw [readSchema_compactMembers]
    · rw [readSchema_compactMembers]
    · rfl
    · cases hfirst : Function.ofMembers (compactMembers members) <;>
        cases hsecond : Function.ofMembers members <;>
        simp only [hfirst, hsecond, Except.map, reduceCtorEq, Except.error.injEq,
          Except.ok.injEq] at hfunction
      · rw [hfunction]
      · exact congrArg (Except.ok ∘ Entity.function) hfunction
    · rfl
  · rfl

/-- A document and its compact form describe one entity, up to the texts of lists and
objects that stand for numbers. -/
theorem map_ofJson_compact {document : Json} (h : document.Delimited) :
    (ofJson document.compact).map (mapNumbers maskBrackets) =
      (ofJson document).map (mapNumbers maskBrackets) := by
  cases h with
  | null | bool | num | str | arr => rfl
  | obj _ hvalues =>
      rw [Json.compact_obj, Json.written, ofJson, ofJson]
      refine map_ofMembers_compact fun name value hvalue => ?_
      obtain ⟨key, hmem, -⟩ := Json.exists_mem_of_last? hvalue
      exact (hvalues _ hmem).respelledAlike

end Entity

end StoredProc
