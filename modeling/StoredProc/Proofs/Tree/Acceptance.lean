import StoredProc.Proofs.Tree.Documents

/-! # The trees that are read

Function documents are read back as node documents are. With the texts of documents, which
spell them, the readers of texts give well-formed trees only, and they give every
well-formed tree whose numbers are numbers of the grammar.
-/

namespace StoredProc

/-! ## The spelling of documents -/

theorem Location.compact_document {loc : Location} (h : loc.InRange) : loc.document.Compact := by
  apply Json.compact_object
  simpa using ⟨Json.compact_string loc.file, (Json.settled_int h.line).compact,
    (Json.settled_int h.column).compact⟩

theorem compact_nodeDocument {kind : String} {loc : Location} {fields : List (String × Json)}
    (hloc : loc.InRange) (hfields : ∀ member ∈ fields, member.2.Compact) :
    (nodeDocument kind loc fields).Compact := by
  apply Json.compact_object
  rw [nodeMembers, List.forall_mem_cons, List.forall_mem_append, List.forall_mem_singleton]
  exact ⟨Json.compact_string kind, hfields, Location.compact_document hloc⟩

mutual

theorem Expr.compact_document :
    ∀ expr : Expr, expr.WellFormed IsJsonNumber → expr.document.Compact
  | .reference _ name dots, ⟨hloc, _, hdots⟩ => compact_nodeDocument hloc (by
      simpa using ⟨Json.compact_string name, .array (Dot.compact_documents dots hdots)⟩)
  | .string _ value, hloc =>
      compact_nodeDocument hloc (by simpa using Json.compact_string value)
  | .number _ text, ⟨hloc, htext⟩ => compact_nodeDocument hloc (by simpa using .num htext)
  | .array _ elements, ⟨hloc, helements⟩ => compact_nodeDocument hloc (by
      simpa using .array (Expr.compact_documents elements helements))
  | .object _ fields, ⟨hloc, hfields⟩ => compact_nodeDocument hloc (by
      simpa using .array (Expr.compact_fieldDocuments fields hfields))
  | .lambda _ row body, ⟨hloc, _, hbody⟩ => compact_nodeDocument hloc (by
      simpa using ⟨Json.compact_string row, .array (Statement.compact_documents body hbody)⟩)

theorem Dot.compact_document :
    ∀ dot : Dot, dot.WellFormed IsJsonNumber → dot.document.Compact
  | .field _ name, ⟨hloc, _⟩ =>
      compact_nodeDocument hloc (by simpa using Json.compact_string name)
  | .method _ name args, ⟨hloc, _, hargs⟩ => compact_nodeDocument hloc (by
      simpa using ⟨Json.compact_string name, .array (Expr.compact_documents args hargs)⟩)

theorem Statement.compact_document : ∀ statement : Statement,
    statement.WellFormed IsJsonNumber → statement.document.Compact
  | .reference _ name dots, ⟨hloc, _, hdots⟩ => compact_nodeDocument hloc (by
      simpa using ⟨Json.compact_string name, .array (Dot.compact_documents dots hdots)⟩)
  | .create _ name type value, ⟨hloc, _, _, hvalue⟩ => compact_nodeDocument hloc (by
      simpa using ⟨Json.compact_string name, type.compact_toJson,
        Expr.compact_document value hvalue⟩)
  | .ret _ none, hloc => compact_nodeDocument hloc (by simp)
  | .ret _ (some value), ⟨hloc, hvalue⟩ => compact_nodeDocument hloc (by
      simpa using Expr.compact_document value hvalue)
  | .ifThen _ condition body, ⟨hloc, hcondition, hbody⟩ => compact_nodeDocument hloc (by
      simpa using ⟨Expr.compact_document condition hcondition,
        .array (Statement.compact_documents body hbody)⟩)
  | .forIn _ row iterable body, ⟨hloc, hiterable, hbody⟩ => compact_nodeDocument hloc (by
      simpa using ⟨Json.compact_string row, Expr.compact_document iterable hiterable,
        .array (Statement.compact_documents body hbody)⟩)

theorem Expr.compact_documents : ∀ exprs : List Expr,
    Expr.WellFormedAll IsJsonNumber exprs → ∀ item ∈ Expr.documents exprs, item.Compact
  | [], _ => by simp [Expr.documents]
  | expr :: rest, ⟨hexpr, hrest⟩ => List.forall_mem_cons.mpr
      ⟨Expr.compact_document expr hexpr, Expr.compact_documents rest hrest⟩

theorem Expr.compact_fieldDocuments : ∀ fields : List (String × Expr),
    Expr.WellFormedFields IsJsonNumber fields →
      ∀ item ∈ Expr.fieldDocuments fields, item.Compact
  | [], _ => by simp [Expr.fieldDocuments]
  | (name, value) :: rest, ⟨hvalue, hrest⟩ => List.forall_mem_cons.mpr
      ⟨Json.compact_object (by
          simpa using ⟨Json.compact_string name, Expr.compact_document value hvalue⟩),
        Expr.compact_fieldDocuments rest hrest⟩

theorem Dot.compact_documents : ∀ dots : List Dot,
    Dot.WellFormedAll IsJsonNumber dots → ∀ item ∈ Dot.documents dots, item.Compact
  | [], _ => by simp [Dot.documents]
  | dot :: rest, ⟨hdot, hrest⟩ => List.forall_mem_cons.mpr
      ⟨Dot.compact_document dot hdot, Dot.compact_documents rest hrest⟩

theorem Statement.compact_documents : ∀ statements : List Statement,
    Statement.WellFormedAll IsJsonNumber statements →
      ∀ item ∈ Statement.documents statements, item.Compact
  | [], _ => by simp [Statement.documents]
  | statement :: rest, ⟨hstatement, hrest⟩ => List.forall_mem_cons.mpr
      ⟨Statement.compact_document statement hstatement,
        Statement.compact_documents rest hrest⟩

end

/-! ## Functions -/

namespace Function

/-- The document of a function is in the compact spelling. -/
theorem compact_document {f : Function} (h : f.WellFormed IsJsonNumber) : f.document.Compact := by
  refine compact_nodeDocument h.loc ?_
  have hbody : (Json.array (Statement.documents f.body)).Compact :=
    .array (Statement.compact_documents f.body h.body)
  rw [fieldDocuments, List.forall_mem_cons, List.forall_mem_append, List.forall_mem_append,
    List.forall_mem_singleton]
  refine ⟨Json.compact_string f.name, ⟨?_, ?_⟩, hbody⟩
  · intro member hmember
    simp only [Option.mem_toList, Option.map_eq_some_iff] at hmember
    obtain ⟨parameter, -, rfl⟩ := hmember
    exact Json.compact_object (by
      simpa using ⟨Json.compact_string parameter.name, parameter.type.compact_toJson⟩)
  · intro member hmember
    simp only [Option.mem_toList, Option.map_eq_some_iff] at hmember
    obtain ⟨type, -, rfl⟩ := hmember
    exact type.compact_toJson

theorem readParameter_document (parameter : Parameter) (start : Option ParameterDocument) :
    readParameter start (parameterDocument parameter) =
      some (some ⟨parameter.name, some parameter.type.toJson⟩) := by
  simp [parameterDocument, Json.object, Json.written, readParameter, Json.soundNames, Json.named,
    Json.string, Json.string?]

/-- The header of a function is read as it was written. -/
theorem readHeader_document {f : Function} (h : f.loc.InRange) :
    readHeader (Json.spelled (nodeMembers "Function" f.loc f.fieldDocuments)) =
      some ⟨f.name, f.parameter.map fun parameter =>
        ⟨parameter.name, some parameter.type.toJson⟩, f.loc⟩ := by
  have hbody : Json.allNamed "body" Json.isListOrNull (Json.spelled f.fieldDocuments) = true := by
    cases hparameter : f.parameter <;> cases hresult : f.result <;>
      simp [fieldDocuments, hparameter, hresult, Json.spelled, Json.allNamed, Json.named,
        Json.array, Json.isListOrNull]
  have hname : Json.textMember? "name" (Json.spelled f.fieldDocuments) = some f.name := by
    cases hparameter : f.parameter <;> cases hresult : f.result <;>
      simp [fieldDocuments, hparameter, hresult, Json.spelled, Json.textMember?, Json.named,
        Json.string, Json.string?]
  have hparameter : Json.passOver "parameter" readParameter none (Json.spelled f.fieldDocuments) =
      some (f.parameter.map fun parameter =>
        ⟨parameter.name, some parameter.type.toJson⟩) := by
    cases hparameter : f.parameter <;> cases hresult : f.result <;>
      simp [fieldDocuments, hparameter, hresult, Json.spelled, Json.passOver, Json.named,
        readParameter_document]
  have hloc : Json.lacks "loc" f.fieldDocuments = true := by
    cases hparameter : f.parameter <;> cases hresult : f.result <;>
      simp [fieldDocuments, hparameter, hresult, Json.lacks, Json.named]
  rw [← Json.passOver_nodeMembers (show "parameter" ∈ partNames by decide)] at hparameter
  simp only [readHeader, Json.soundNames_spelled,
    Json.allNamed_nodeMembers (show "body" ∈ partNames by decide), hbody,
    Json.textMember?_nodeMembers (show "name" ∈ partNames by decide), hname,
    Location.ofMembers_nodeMembers h hloc]
  rw [Json.passOver] at hparameter
  rw [hparameter]
  rfl

theorem optionalType_toJson {type : DataType} (h : type.Normal) :
    optionalType (some type.toJson) = .ok (some type) := by
  rw [optionalType, h.ofJson_toJson]
  · rfl
  · exact type.toJson_ne_null

theorem optionalType_map_toJson {type : Option DataType} (h : ∀ given ∈ type, given.Normal) :
    optionalType (type.map DataType.toJson) = .ok type := by
  cases type with
  | none => rfl
  | some type => exact optionalType_toJson (h type rfl)

/-- A well-formed function is read back from its document. -/
theorem ofJson_document {f : Function} (h : f.WellFormed IsJsonNumber) :
    ofJson f.document = .ok f := by
  have hresult : Json.last? "returnType" (Json.spelled f.fieldDocuments) =
      f.result.map DataType.toJson := by
    cases hparameter : f.parameter <;> cases hresult : f.result <;>
      simp [fieldDocuments, hparameter, hresult, Json.spelled, Json.last?, Json.named]
  have hbody : Json.last? "body" (Json.spelled f.fieldDocuments) =
      some (.array (Statement.documents f.body)) := by
    cases hparameter : f.parameter <;> cases hresult : f.result <;>
      simp [fieldDocuments, hparameter, hresult, Json.spelled, Json.last?, Json.named]
  change ofMembers (Json.spelled (nodeMembers "Function" f.loc f.fieldDocuments)) = .ok f
  rw [ofMembers, readHeader_document h.loc]
  dsimp only
  rw [Json.last?_nodeMembers (by decide), hresult, optionalType_map_toJson h.result,
    orEmpty_lastBody? hbody (Statement.ofJson_documents f.body h.body)]
  obtain ⟨loc, name, parameter, result, body⟩ := f
  cases parameter with
  | none => rfl
  | some parameter =>
    obtain ⟨hname, htype⟩ := h.parameter parameter rfl
    dsimp only [Option.map_some]
    rw [if_neg (by simpa using hname), optionalType_toJson htype]
    rfl

end Function

/-! ## Texts -/

section Texts

variable {source : String}

theorem Expr.wellFormed_of_parse {expr : Expr} (h : Expr.parse source = .ok expr) :
    expr.WellFormed IsNumberText := by
  unfold Expr.parse at h
  split at h
  next document _ => exact document.givesWellFormed.expr expr h
  next => cases h

theorem Statement.wellFormed_of_parse {statement : Statement}
    (h : Statement.parse source = .ok statement) : statement.WellFormed IsNumberText := by
  unfold Statement.parse at h
  split at h
  next document _ => exact document.givesWellFormed.statement statement h
  next => cases h

theorem Function.wellFormed_of_parse {f : Function} (h : Function.parse source = .ok f) :
    f.WellFormed IsNumberText := by
  unfold Function.parse at h
  split at h
  next => exact Function.wellFormed_of_ofJson h
  next => cases h

end Texts

/-- The readers accept exactly the well-formed trees. Whatever a text says, what is read from
it has every name, every number text and every type in order. Every such tree whose numbers
are numbers of the grammar is what the text of its document says. -/
theorem parse_exactly_wellFormed :
    (∀ source f, Function.parse source = .ok f → f.WellFormed IsNumberText) ∧
      (∀ source statement, Statement.parse source = .ok statement →
        statement.WellFormed IsNumberText) ∧
      (∀ source expr, Expr.parse source = .ok expr → expr.WellFormed IsNumberText) ∧
      (∀ f : Function, f.WellFormed IsJsonNumber → Function.parse f.document.text = .ok f) ∧
      (∀ statement : Statement, statement.WellFormed IsJsonNumber →
        Statement.parse statement.document.text = .ok statement) ∧
      ∀ expr : Expr, expr.WellFormed IsJsonNumber → Expr.parse expr.document.text = .ok expr := by
  refine ⟨fun _ _ => Function.wellFormed_of_parse, fun _ _ => Statement.wellFormed_of_parse,
    fun _ _ => Expr.wellFormed_of_parse, fun f h => ?_, fun statement h => ?_, fun expr h => ?_⟩
  · rw [Function.parse, (Function.compact_document h).parse?_text]
    exact Function.ofJson_document h
  · rw [Statement.parse, (Statement.compact_document statement h).parse?_text]
    exact Statement.ofJson_document statement h
  · rw [Expr.parse, (Expr.compact_document expr h).parse?_text]
    exact Expr.ofJson_document expr h

/-- A function with a parameter, nested blocks, a chain with a lambda and literals of every
kind. -/
def Function.greet : Function where
  loc := ⟨"shop.cdl", 2, 1⟩
  name := "greet"
  parameter := some ⟨"order", .object [("by", .ref "customers"), ("id", .int)]⟩
  result := some (.optional .string)
  body := [
    .create ⟨"shop.cdl", 3, 3⟩ "total" .double (.number ⟨"shop.cdl", 3, 15⟩ "-1.5e3"),
    .ifThen ⟨"shop.cdl", 4, 3⟩
      (.reference ⟨"shop.cdl", 4, 6⟩ "order" [.field ⟨"shop.cdl", 4, 11⟩ "by",
        .method ⟨"shop.cdl", 4, 14⟩ "has" [.lambda ⟨"", 0, 0⟩ "row" [.ret ⟨"", 0, 0⟩ none]]])
      [.ret ⟨"shop.cdl", 5, 5⟩ (some (.string ⟨"shop.cdl", 5, 12⟩ "say \"hi\"\n"))],
    .forIn ⟨"shop.cdl", 6, 3⟩ ""
      (.array ⟨"shop.cdl", 6, 7⟩ [.object ⟨"shop.cdl", 6, 8⟩
        [("", .string ⟨"shop.cdl", 6, 9⟩ "")]])
      [.reference ⟨"shop.cdl", 7, 5⟩ "total" []]]

/-- The function is well formed and is read back from its document. -/
theorem parse_exactly_wellFormed_greet :
    Function.greet.WellFormed IsJsonNumber ∧
      Function.parse Function.greet.document.text = .ok Function.greet ∧
      Function.greet.WellFormed IsNumberText := by
  have hnumber : IsJsonNumber "-1.5e3" := by
    have hscan : Json.scanNumber "-1.5e3".toList = some ("-1.5e3".toList, []) := by decide +kernel
    exact Json.isNumber_of_scanNumber hscan
  have hloc : ∀ (file : String) (line column : Int), 0 ≤ line → line < 100 → 0 ≤ column →
      column < 100 → Location.InRange ⟨file, line, column⟩ := by
    intro file line column hline hlineBound hcolumn hcolumnBound
    have hlimit : (int64Limit : Int) = 9223372036854775808 := rfl
    constructor <;> dsimp only [IsInt64] <;> omega
  have hbody : Statement.WellFormedAll IsJsonNumber Function.greet.body := by
    simp [Function.greet, Statement.WellFormedAll, Statement.WellFormed, Expr.WellFormed,
      Expr.WellFormedAll, Expr.WellFormedFields, Dot.WellFormed, Dot.WellFormedAll, hnumber, hloc,
      DataType.Normal.prim]
  have hgreet : Function.greet.WellFormed IsJsonNumber := by
    refine ⟨hloc _ _ _ (by decide) (by decide) (by decide) (by decide), ?_, ?_, hbody⟩
    · rintro parameter ⟨⟩
      refine ⟨by decide, .object (by decide) ?_⟩
      simpa using ⟨.ref rfl, .prim .int⟩
    · rintro type ⟨⟩
      exact .optional (.prim .string)
  obtain ⟨hread, -, -, hwritten, -⟩ := parse_exactly_wellFormed
  exact ⟨hgreet, hwritten _ hgreet, hread _ _ (hwritten _ hgreet)⟩

end StoredProc
