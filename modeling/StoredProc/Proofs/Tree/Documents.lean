import StoredProc.Proofs.Json.Blanks
import StoredProc.Proofs.Tree.WellFormed

/-! # Trees and their documents

The document of a node has its kind, the members of that kind and its place. A well-formed
tree whose numbers are numbers of the grammar is read back from its document, node by
node. So the readers accept exactly the well-formed trees.
-/

namespace StoredProc

namespace Json

/-- Members as they are spelled in an object. -/
def spelled (members : List (String × Json)) : List (String × Json) :=
  members.map fun member => (escape member.1, member.2)

theorem soundNames_spelled (members : List (String × Json)) :
    soundNames (spelled members) = true := by
  rw [spelled, soundNames, List.all_map]
  simp

theorem named_escape_comm (field name : String) :
    named field (escape name) = named name (escape field) := by
  simp only [named, unescape?_escape]
  exact BEq.comm

/-- Whether no member is called `field`. -/
def lacks (field : String) (members : List (String × Json)) : Bool :=
  members.all fun member => !named field (escape member.1)

end Json

/-! ## Documents -/

def Location.document (loc : Location) : Json :=
  .object [("file", .string loc.file), ("line", .int loc.line), ("column", .int loc.column)]

/-- The members of a node of some kind. -/
def nodeMembers (kind : String) (loc : Location) (fields : List (String × Json)) :
    List (String × Json) :=
  ("kind", .string kind) :: (fields ++ [("loc", loc.document)])

/-- The document of a node of some kind. -/
def nodeDocument (kind : String) (loc : Location) (fields : List (String × Json)) : Json :=
  .object (nodeMembers kind loc fields)

mutual

def Expr.document : Expr → Json
  | .reference loc name dots =>
    nodeDocument "VariableReference" loc
      [("name", .string name), ("dots", .array (Dot.documents dots))]
  | .string loc value => nodeDocument "StringLiteral" loc [("value", .string value)]
  | .number loc text => nodeDocument "NumberLiteral" loc [("value", .num text)]
  | .array loc elements =>
    nodeDocument "ArrayLiteral" loc [("elements", .array (Expr.documents elements))]
  | .object loc fields =>
    nodeDocument "ObjectLiteral" loc [("fields", .array (Expr.fieldDocuments fields))]
  | .lambda loc row body =>
    nodeDocument "AnonFunction" loc
      [("rowVar", .string row), ("body", .array (Statement.documents body))]

def Dot.document : Dot → Json
  | .field loc name => nodeDocument "FieldAccess" loc [("name", .string name)]
  | .method loc name args =>
    nodeDocument "MethodInvocation" loc
      [("name", .string name), ("args", .array (Expr.documents args))]

def Statement.document : Statement → Json
  | .reference loc name dots =>
    nodeDocument "VariableReference" loc
      [("name", .string name), ("dots", .array (Dot.documents dots))]
  | .create loc name type value =>
    nodeDocument "VariableCreation" loc
      [("name", .string name), ("type", type.toJson), ("value", value.document)]
  | .ret loc none => nodeDocument "ReturnStatement" loc []
  | .ret loc (some value) => nodeDocument "ReturnStatement" loc [("value", value.document)]
  | .ifThen loc condition body =>
    nodeDocument "If" loc
      [("condition", condition.document), ("body", .array (Statement.documents body))]
  | .forIn loc row iterable body =>
    nodeDocument "ForIn" loc
      [("rowVar", .string row), ("iterable", iterable.document),
        ("body", .array (Statement.documents body))]

def Expr.documents : List Expr → List Json
  | [] => []
  | expr :: rest => expr.document :: Expr.documents rest

def Expr.fieldDocuments : List (String × Expr) → List Json
  | [] => []
  | (name, value) :: rest =>
    .object [("name", .string name), ("value", value.document)] :: Expr.fieldDocuments rest

def Dot.documents : List Dot → List Json
  | [] => []
  | dot :: rest => dot.document :: Dot.documents rest

def Statement.documents : List Statement → List Json
  | [] => []
  | statement :: rest => statement.document :: Statement.documents rest

end

namespace Function

/-- The document of a parameter. -/
def parameterDocument (parameter : Parameter) : Json :=
  .object [("name", .string parameter.name), ("type", parameter.type.toJson)]

/-- What a function declares, except for its place. What it does not have is left out. -/
def fieldDocuments (f : Function) : List (String × Json) :=
  ("name", .string f.name) ::
    ((f.parameter.map fun parameter => ("parameter", parameterDocument parameter)).toList ++
      (f.result.map fun type => ("returnType", type.toJson)).toList ++
      [("body", .array (Statement.documents f.body))])

def document (f : Function) : Json := nodeDocument "Function" f.loc f.fieldDocuments

end Function

/-! ## Reading headers -/

namespace Json

variable {field : String} {members rest : List (String × Json)}

/-- The last member of a name is looked for at the back first. -/
theorem last?_append (front back : List (String × Json)) :
    last? field (front ++ back) = (last? field back).or (last? field front) := by
  induction front with
  | nil => simp [last?]
  | cons member front ih =>
      rw [List.cons_append, last?, ih, last?]
      cases last? field back <;> rfl

theorem last?_spelled_of_lacks (h : lacks field members = true) :
    last? field (spelled members) = none := by
  rw [last?_eq_none_iff]
  intro member hmember
  obtain ⟨given, hgiven, rfl⟩ := List.mem_map.mp hmember
  simpa using List.all_eq_true.mp h given hgiven

/-- Members that are not called so are passed over. -/
theorem passOver_append_of_lacks {α : Type} {take : α → Json → Option α}
    (h : lacks field members = true) (start : α) :
    passOver field take start (spelled members ++ rest) = passOver field take start rest := by
  rw [passOver, List.foldlM_append]
  have hself : passOver field take start (spelled members) = some start :=
    passOver_eq_self (last?_spelled_of_lacks h)
  rw [passOver] at hself
  rw [hself]
  rfl

end Json

open Json (spelled named last? passOver escape allNamed takeText textMember? present? lacks)

/-- A place is read back from its document, whatever was known before. -/
theorem Location.readParts_document {loc : Location} (h : loc.InRange) (start : Location) :
    start.readParts loc.document = some loc := by
  have hline := Json.int64?_int h.line
  have hcolumn := Json.int64?_int h.column
  obtain ⟨line, hlineText⟩ : ∃ text, Json.int loc.line = .num text := ⟨_, Double.int_eq _⟩
  obtain ⟨column, hcolumnText⟩ : ∃ text, Json.int loc.column = .num text := ⟨_, Double.int_eq _⟩
  rw [hlineText] at hline
  rw [hcolumnText] at hcolumn
  simp [Location.document, Json.object, Json.written, readParts, Json.soundNames, readMembers,
    named, Json.string, Json.string?, hlineText, hcolumnText, hline, hcolumn]

/-- Members that a node may have beside its kind and its place, with the name and the row
that they give: lists stand where lists are asked for. -/
structure NodeFields (fields : List (String × Json)) (name row : Option String) : Prop where
  kind : lacks "kind" fields = true
  loc : lacks "loc" fields = true
  lists : ∀ field ∈ ["body", "dots", "args", "elements"],
    allNamed field Json.isListOrNull (spelled fields) = true
  fieldList : allNamed "fields" NodeHeader.isFieldList (spelled fields) = true
  name : ∀ start, passOver "name" takeText start (spelled fields) =
    some (name.getD start)
  row : ∀ start, passOver "rowVar" takeText start (spelled fields) =
    some (row.getD start)

section Headers

variable {kind : String} {name row : Option String} {loc : Location}
  {fields : List (String × Json)}

theorem Json.spelled_nodeMembers (kind : String) (loc : Location) (fields : List (String × Json)) :
    spelled (nodeMembers kind loc fields) =
      (escape "kind", Json.string kind) ::
        (spelled fields ++ [(escape "loc", loc.document)]) := by
  simp [spelled, nodeMembers]

/-- The names of the parts of a node: neither its kind nor its place. -/
def partNames : List String :=
  ["name", "rowVar", "type", "value", "condition", "iterable", "elements", "args", "body", "dots",
    "fields", "parameter", "returnType"]

theorem not_named_of_mem_partNames {field : String} (h : field ∈ partNames) :
    named field (escape "kind") = false ∧
      named field (escape "loc") = false := by
  simp only [partNames, List.mem_cons, List.not_mem_nil, or_false] at h
  rcases h with rfl | rfl | rfl | rfl | rfl | rfl | rfl | rfl | rfl | rfl | rfl | rfl | rfl <;>
    simp [named]

/-- The parts of a node are found behind its kind and its place. -/
theorem Json.last?_nodeMembers {field : String} (h : field ∈ partNames) :
    last? field (spelled (nodeMembers kind loc fields)) =
      last? field (spelled fields) := by
  obtain ⟨hkind, hloc⟩ := not_named_of_mem_partNames h
  rw [Json.spelled_nodeMembers, last?, Json.last?_append, last?, hloc, hkind]
  cases last? field (spelled fields) <;> rfl

theorem Json.allNamed_nodeMembers {field : String} (h : field ∈ partNames)
    (accepts : Json → Bool) :
    allNamed field accepts (spelled (nodeMembers kind loc fields)) =
      allNamed field accepts (spelled fields) := by
  obtain ⟨hkind, hloc⟩ := not_named_of_mem_partNames h
  rw [Json.spelled_nodeMembers, allNamed, List.all_cons, List.all_append, hkind]
  simp [allNamed, hloc]

theorem Json.passOver_nodeMembers {α : Type} {field : String} (h : field ∈ partNames)
    (take : α → Json → Option α) (start : α) :
    passOver field take start (spelled (nodeMembers kind loc fields)) =
      passOver field take start (spelled fields) := by
  obtain ⟨hkind, hloc⟩ := not_named_of_mem_partNames h
  rw [Json.spelled_nodeMembers, passOver, List.foldlM_cons, hkind]
  simp [passOver, hloc]

theorem Json.textMember?_nodeMembers {field : String} (h : field ∈ partNames) :
    textMember? field (spelled (nodeMembers kind loc fields)) =
      textMember? field (spelled fields) :=
  Json.passOver_nodeMembers h takeText ""

/-- The kind of a node is read back from its document. -/
theorem Json.textMember?_kind (h : lacks "kind" fields = true) :
    textMember? "kind" (spelled (nodeMembers kind loc fields)) = some kind := by
  have hloc : named "kind" (escape "loc") = false := by simp [named]
  have htake : takeText "" (Json.string kind) = some kind := Json.unescape?_escape kind
  rw [Json.spelled_nodeMembers, Json.textMember?_eq_passOver]
  calc
    _ = passOver "kind" takeText kind
        (spelled fields ++ [(escape "loc", loc.document)]) := by
      rw [passOver, List.foldlM_cons, DataType.named_kind, if_pos rfl, htake]
      rfl
    _ = passOver "kind" takeText kind [(escape "loc", loc.document)] :=
      Json.passOver_append_of_lacks h kind
    _ = some kind := by simp [passOver, hloc]

/-- The place of a node is read back from its document. -/
theorem Location.ofMembers_nodeMembers (hloc : loc.InRange) (h : lacks "loc" fields = true) :
    Location.ofMembers (spelled (nodeMembers kind loc fields)) = some loc := by
  have hkind : named "loc" (escape "kind") = false := by simp [named]
  have hnamed : named "loc" (escape "loc") = true := by simp [named]
  rw [Json.spelled_nodeMembers, Location.ofMembers_eq, ← passOver]
  calc
    _ = passOver "loc" Location.readParts {}
        (spelled fields ++ [(escape "loc", loc.document)]) := by
      rw [passOver, List.foldlM_cons, hkind]
      rfl
    _ = passOver "loc" Location.readParts {} [(escape "loc", loc.document)] :=
      Json.passOver_append_of_lacks h _
    _ = some loc := by simp [passOver, hnamed, Location.readParts_document hloc]

/-- The header of a node is read as it was written. -/
theorem NodeFields.exists_read (h : NodeFields fields name row) (hloc : loc.InRange)
    (kind : String) :
    ∃ header, NodeHeader.read (spelled (nodeMembers kind loc fields)) = some header ∧
      header.kind = kind ∧ header.name = name.getD "" ∧ header.row = row.getD "" ∧
      header.loc = loc := by
  refine ⟨⟨kind, name.getD "", row.getD "", loc⟩, ?_, rfl, rfl, rfl, rfl⟩
  have hlists : (["body", "dots", "args", "elements"].all fun field =>
      allNamed field Json.isListOrNull (spelled (nodeMembers kind loc fields))) =
        true := by
    refine List.all_eq_true.mpr fun field hfield => ?_
    have hpart : ∀ field ∈ ["body", "dots", "args", "elements"], field ∈ partNames := by decide
    rw [Json.allNamed_nodeMembers (hpart field hfield), h.lists field hfield]
  have hname : textMember? "name" (spelled fields) = some (name.getD "") := h.name ""
  have hrow : textMember? "rowVar" (spelled fields) = some (row.getD "") := h.row ""
  simp only [NodeHeader.read, Json.soundNames_spelled, hlists,
    Json.allNamed_nodeMembers (show "fields" ∈ partNames by decide), h.fieldList,
    Json.textMember?_kind h.kind, Json.textMember?_nodeMembers (show "name" ∈ partNames by decide),
    hname, Json.textMember?_nodeMembers (show "rowVar" ∈ partNames by decide), hrow,
    Location.ofMembers_nodeMembers hloc h.loc]
  rfl

namespace NodeFields

theorem nil : NodeFields [] none none where
  kind := rfl
  loc := rfl
  lists := by simp [spelled, allNamed]
  fieldList := rfl
  name _ := rfl
  row _ := rfl

/-- One more member. What it gives as a name or as a row is overwritten by the others. -/
theorem cons {field : String} {value : Json} {name' row' : Option String}
    (h : NodeFields fields name row) (hpart : field ∈ partNames)
    (hlists : ∀ part ∈ ["body", "dots", "args", "elements"],
      named part (escape field) = true → value.isListOrNull = true)
    (hfields : named "fields" (escape field) = true →
      NodeHeader.isFieldList value = true)
    (hname : ∀ start, ∃ next, (if named "name" (escape field)
      then takeText start value else some start) = some next ∧
        name.getD next = name'.getD start)
    (hrow : ∀ start, ∃ next, (if named "rowVar" (escape field)
      then takeText start value else some start) = some next ∧
        row.getD next = row'.getD start) :
    NodeFields ((field, value) :: fields) name' row' where
  kind := by
    rw [lacks, List.all_cons, Json.named_escape_comm, (not_named_of_mem_partNames hpart).1]
    exact h.kind
  loc := by
    rw [lacks, List.all_cons, Json.named_escape_comm, (not_named_of_mem_partNames hpart).2]
    exact h.loc
  lists part hpart := by
    have hrest := h.lists part hpart
    have hvalue := hlists part hpart
    rw [allNamed] at hrest
    rw [spelled, List.map_cons, allNamed, List.all_cons, ← spelled, hrest,
      Bool.and_true]
    cases hnamed : named part (escape field) with
    | false => rfl
    | true => exact hvalue hnamed
  fieldList := by
    have hrest := h.fieldList
    rw [allNamed] at hrest
    rw [spelled, List.map_cons, allNamed, List.all_cons, ← spelled, hrest,
      Bool.and_true]
    cases hnamed : named "fields" (escape field) with
    | false => rfl
    | true => exact hfields hnamed
  name start := by
    obtain ⟨next, hnext, heq⟩ := hname start
    rw [spelled, List.map_cons, passOver, List.foldlM_cons, hnext, ← heq]
    exact h.name next
  row start := by
    obtain ⟨next, hnext, heq⟩ := hrow start
    rw [spelled, List.map_cons, passOver, List.foldlM_cons, hnext, ← heq]
    exact h.row next

theorem withName (h : NodeFields fields none row) (text : String) :
    NodeFields (("name", .string text) :: fields) (some text) row := by
  refine h.cons (by decide) (by simp [named]) (by simp [named]) (fun start => ?_)
    fun start => ⟨start, by simp [named], rfl⟩
  exact ⟨text, by simp [named, takeText, Json.string, Json.string?], rfl⟩

theorem withRow (h : NodeFields fields name none) (text : String) :
    NodeFields (("rowVar", .string text) :: fields) name (some text) := by
  refine h.cons (by decide) (by simp [named]) (by simp [named])
    (fun start => ⟨start, by simp [named], rfl⟩) fun start => ?_
  exact ⟨text, by simp [named, takeText, Json.string, Json.string?], rfl⟩

/-- A list of nodes. -/
theorem withList (h : NodeFields fields name row) {field : String}
    (hfield : field ∈ ["body", "dots", "args", "elements"]) (items : List Json) :
    NodeFields ((field, .array items) :: fields) name row := by
  have hpart : ∀ field ∈ ["body", "dots", "args", "elements"], field ∈ partNames := by decide
  refine h.cons (hpart field hfield) (fun _ _ _ => rfl) ?_ (fun start => ⟨start, ?_, rfl⟩)
    fun start => ⟨start, ?_, rfl⟩
  all_goals
    simp only [List.mem_cons, List.not_mem_nil, or_false] at hfield
    rcases hfield with rfl | rfl | rfl | rfl <;> simp [named]

/-- The fields of an object literal. -/
theorem withFields (h : NodeFields fields name row) {items : List Json}
    (hitems : items.all NodeHeader.isField = true) :
    NodeFields (("fields", .array items) :: fields) name row := by
  refine h.cons (by decide) (fun _ _ _ => rfl) (fun _ => hitems)
    (fun start => ⟨start, by simp [named], rfl⟩)
    fun start => ⟨start, by simp [named], rfl⟩

/-- A node or a type. -/
theorem withValue (h : NodeFields fields name row) {field : String}
    (hfield : field ∈ ["type", "value", "condition", "iterable"]) (value : Json) :
    NodeFields ((field, value) :: fields) name row := by
  have hpart : ∀ field ∈ ["type", "value", "condition", "iterable"], field ∈ partNames := by decide
  refine h.cons (hpart field hfield) ?_ ?_ (fun start => ⟨start, ?_, rfl⟩)
    fun start => ⟨start, ?_, rfl⟩
  all_goals
    simp only [List.mem_cons, List.not_mem_nil, or_false] at hfield
    rcases hfield with rfl | rfl | rfl | rfl <;> simp [named]

end NodeFields

end Headers

/-! ## Reading the parts of a node -/

section Parts

variable {kind field : String} {loc : Location} {fields : List (String × Json)}

theorem orEmpty_lastDots? {documents : List Json} {dots : List Dot}
    (hlast : last? "dots" (spelled fields) = some (.array documents))
    (h : documents.mapM Dot.ofJson = .ok dots) :
    orEmpty (lastDots? (spelled (nodeMembers kind loc fields))) = .ok dots := by
  rw [lastDots?_eq, Json.last?_nodeMembers (by decide), hlast, Option.map_some,
    Json.array, dotsOf_arr, h, orEmpty, Option.getD_some]

theorem orEmpty_lastBody? {documents : List Json} {body : List Statement}
    (hlast : last? "body" (spelled fields) = some (.array documents))
    (h : documents.mapM Statement.ofJson = .ok body) :
    orEmpty (lastBody? (spelled (nodeMembers kind loc fields))) = .ok body := by
  rw [lastBody?_eq, Json.last?_nodeMembers (by decide), hlast, Option.map_some,
    Json.array, statementsOf_arr, h, orEmpty, Option.getD_some]

theorem orEmpty_lastExprs? {documents : List Json} {exprs : List Expr} (hfield : field ∈ partNames)
    (hlast : last? field (spelled fields) = some (.array documents))
    (h : documents.mapM Expr.ofJson = .ok exprs) :
    orEmpty (lastExprs? field (spelled (nodeMembers kind loc fields))) = .ok exprs := by
  rw [lastExprs?_eq, Json.last?_nodeMembers hfield, hlast, Option.map_some,
    Json.array, exprsOf_arr, h, orEmpty, Option.getD_some]

theorem orEmpty_lastFields? {documents : List Json} {entries : List (String × Expr)}
    (hlast : last? "fields" (spelled fields) = some (.array documents))
    (h : documents.mapM readFieldLiteral = .ok entries) :
    orEmpty (lastFields? (spelled (nodeMembers kind loc fields))) = .ok entries := by
  rw [lastFields?_eq, Json.last?_nodeMembers (by decide), hlast, Option.map_some,
    Json.array, fieldsOf_arr, h, orEmpty, Option.getD_some]

theorem present?_of_last? {members : List (String × Json)} {value : Json}
    (hlast : last? field members = some value) (hvalue : value ≠ .null) :
    present? field members = some value := by
  rw [present?, hlast]
  cases value with
  | null => exact absurd rfl hvalue
  | bool | num | str | arr | obj => rfl

theorem present?_nodeMembers {value : Json} (hfield : field ∈ partNames)
    (hlast : last? field (spelled fields) = some value) (hvalue : value ≠ .null) :
    present? field (spelled (nodeMembers kind loc fields)) = some value :=
  present?_of_last? ((Json.last?_nodeMembers hfield).trans hlast) hvalue

theorem ne_null_of_ofJson {value : Json} {expr : Expr} (h : Expr.ofJson value = .ok expr) :
    value ≠ .null := by
  rintro rfl
  cases h

theorem required_nodeMembers {node : String} {value : Json} {expr : Expr}
    (hfield : field ∈ partNames) (hlast : last? field (spelled fields) = some value)
    (h : Expr.ofJson value = .ok expr) :
    required node field (spelled (nodeMembers kind loc fields))
      (lastExpr? field (spelled (nodeMembers kind loc fields))) = .ok expr := by
  unfold required
  rw [present?_nodeMembers hfield hlast (ne_null_of_ofJson h), lastExpr?_eq,
    Json.last?_nodeMembers hfield, hlast]
  exact h

end Parts

/-! ## Reading nodes -/

/-- The text of a number of the grammar. -/
def IsJsonNumber (text : String) : Prop := Json.IsNumber text.toList

/-- A number of the grammar has a text, which is not `null`. -/
theorem IsJsonNumber.isNumberText {text : String} (h : IsJsonNumber text) : IsNumberText text := by
  obtain ⟨c, tail, htext, hc⟩ := h.exists_cons
  constructor
  · rintro rfl
    cases htext
  · rintro rfl
    cases htext
    revert hc
    decide

/-- A number has no quotes that could be taken off. -/
theorem numberText?_of_last? {members : List (String × Json)} {text : String}
    (hlast : last? "value" members = some (.num text)) (h : IsJsonNumber text) :
    numberText? members = some text := by
  have hquote : ∀ c ∈ text.toList, (c == '"') = false := by
    intro c hc
    have htoken := h.isToken c hc
    simp only [Json.isToken, Bool.and_eq_true, decide_eq_true_eq] at htoken
    simpa using htoken.2
  have hdrop : ∀ cs : List Char, (∀ c ∈ cs, (c == '"') = false) →
      cs.dropWhile (fun c => c == '"') = cs := by
    intro cs hcs
    cases cs with
    | nil => rfl
    | cons c cs => rw [List.dropWhile_cons, hcs c List.mem_cons_self]; rfl
  obtain ⟨hne, hnull⟩ := h.isNumberText
  simp only [numberText?, hlast, Option.map_some, Option.getD_some, Json.text, hdrop _ hquote,
    hdrop text.toList.reverse fun c hc => hquote c (List.mem_reverse.mp hc), List.reverse_reverse,
    String.ofList_toList]
  rw [if_neg (not_or.mpr ⟨hne, hnull⟩)]

theorem DataType.toJson_ne_null (type : DataType) : type.toJson ≠ .null := by
  cases type <;> intro h <;> cases h

/-- The fields of an object literal are objects with a name. -/
theorem Expr.all_isField_fieldDocuments (fields : List (String × Expr)) :
    (Expr.fieldDocuments fields).all NodeHeader.isField = true := by
  induction fields with
  | nil => rfl
  | cons field rest ih =>
      rw [Expr.fieldDocuments, List.all_cons, ih, Bool.and_true]
      simp [Json.object, Json.written, NodeHeader.isField, Json.soundNames, textMember?,
        named, Json.string, Json.string?]

/-- A field is read back from its document. -/
theorem readFieldLiteral_document {name : String} {value : Expr} {document : Json}
    (h : Expr.ofJson document = .ok value) :
    readFieldLiteral (.object [("name", .string name), ("value", document)]) =
      .ok (name, value) := by
  have hname : textMember? "name"
      (spelled [("name", .string name), ("value", document)]) = some name := by
    simp [spelled, textMember?, named, Json.string, Json.string?]
  have hlast : last? "value"
      (spelled [("name", .string name), ("value", document)]) = some document := by
    simp [spelled, last?, named]
  rw [Json.object, ← spelled, Json.written, readFieldLiteral]
  simp only [hname, present?_of_last? hlast (ne_null_of_ofJson h), lastExpr?_eq, hlast,
    Option.map_some, h]
  rfl

/-! What a node is read as, by its kind. -/

section Kinds

variable {source : String} {members : List (String × Json)} {header : NodeHeader}
  (hread : NodeHeader.read members = some header)

/-- The expressions that an object with this header is read as. -/
structure Expr.ReadAs (source : String) (members : List (String × Json)) (header : NodeHeader) :
    Prop where
  reference : header.kind = "VariableReference" → header.name ≠ "" → ∀ dots,
    orEmpty (lastDots? members) = .ok dots →
      Expr.ofJson (.obj source members) = .ok (.reference header.loc header.name dots)
  string : header.kind = "StringLiteral" → ∀ value, stringValue? members = some value →
    Expr.ofJson (.obj source members) = .ok (.string header.loc value)
  number : header.kind = "NumberLiteral" → ∀ text, numberText? members = some text →
    Expr.ofJson (.obj source members) = .ok (.number header.loc text)
  array : header.kind = "ArrayLiteral" → ∀ elements,
    orEmpty (lastExprs? "elements" members) = .ok elements →
      Expr.ofJson (.obj source members) = .ok (.array header.loc elements)
  object : header.kind = "ObjectLiteral" → ∀ fields, orEmpty (lastFields? members) = .ok fields →
    Expr.ofJson (.obj source members) = .ok (.object header.loc fields)
  lambda : header.kind = "AnonFunction" → header.row ≠ "" → ∀ body,
    orEmpty (lastBody? members) = .ok body →
      Expr.ofJson (.obj source members) = .ok (.lambda header.loc header.row body)

/-- The links of a chain that an object with this header is read as. -/
structure Dot.ReadAs (source : String) (members : List (String × Json)) (header : NodeHeader) :
    Prop where
  field : header.kind = "FieldAccess" → header.name ≠ "" →
    Dot.ofJson (.obj source members) = .ok (.field header.loc header.name)
  method : header.kind = "MethodInvocation" → header.name ≠ "" → ∀ args,
    orEmpty (lastExprs? "args" members) = .ok args →
      Dot.ofJson (.obj source members) = .ok (.method header.loc header.name args)

/-- The statements that an object with this header is read as. -/
structure Statement.ReadAs (source : String) (members : List (String × Json))
    (header : NodeHeader) : Prop where
  reference : header.kind = "VariableReference" → header.name ≠ "" → ∀ dots,
    orEmpty (lastDots? members) = .ok dots →
      Statement.ofJson (.obj source members) = .ok (.reference header.loc header.name dots)
  create : header.kind = "VariableCreation" → header.name ≠ "" → ∀ document type value,
    present? "type" members = some document → DataType.ofJson document = .ok type →
      required header.kind "value" members (lastExpr? "value" members) = .ok value →
      Statement.ofJson (.obj source members) = .ok (.create header.loc header.name type value)
  retNone : header.kind = "ReturnStatement" → present? "value" members = none →
    Statement.ofJson (.obj source members) = .ok (.ret header.loc none)
  ret : header.kind = "ReturnStatement" → ∀ document value,
    present? "value" members = some document →
      required header.kind "value" members (lastExpr? "value" members) = .ok value →
      Statement.ofJson (.obj source members) = .ok (.ret header.loc (some value))
  ifThen : header.kind = "If" → ∀ condition body,
    required header.kind "condition" members (lastExpr? "condition" members) = .ok condition →
      orEmpty (lastBody? members) = .ok body →
      Statement.ofJson (.obj source members) = .ok (.ifThen header.loc condition body)
  forIn : header.kind = "ForIn" → ∀ iterable body,
    required header.kind "iterable" members (lastExpr? "iterable" members) = .ok iterable →
      orEmpty (lastBody? members) = .ok body →
      Statement.ofJson (.obj source members) = .ok (.forIn header.loc header.row iterable body)

include hread

/-- By its kind an object is read as an expression, from the parts that the kind has. -/
-- The header has one kind: in the other cases of the reader it would have a second one.
theorem Expr.readAs : Expr.ReadAs source members header := by
  constructor
  case reference =>
    intro hkind hname dots hdots
    rw [Expr.ofJson, hread]
    dsimp only
    split
    case h_1 =>
      rw [if_neg (by simpa using hname), hdots]
      rfl
    all_goals grind
  case string =>
    intro hkind value hvalue
    rw [Expr.ofJson, hread]
    dsimp only
    split
    case h_2 => rw [hvalue]
    all_goals grind
  case number =>
    intro hkind text htext
    rw [Expr.ofJson, hread]
    dsimp only
    split
    case h_3 => rw [htext]
    all_goals grind
  case array =>
    intro hkind elements helements
    rw [Expr.ofJson, hread]
    dsimp only
    split
    case h_4 =>
      rw [helements]
      rfl
    all_goals grind
  case object =>
    intro hkind fields hfields
    rw [Expr.ofJson, hread]
    dsimp only
    split
    case h_5 =>
      rw [hfields]
      rfl
    all_goals grind
  case lambda =>
    intro hkind hrow body hbody
    rw [Expr.ofJson, hread]
    dsimp only
    split
    case h_6 =>
      rw [if_neg (by simpa using hrow), hbody]
      rfl
    all_goals grind

/-- By its kind an object is read as a link of a chain, from the parts that the kind has. -/
theorem Dot.readAs : Dot.ReadAs source members header := by
  constructor
  case field =>
    intro hkind hname
    rw [Dot.ofJson, hread]
    dsimp only
    rw [if_neg (by simpa using hname)]
    split
    case h_1 => rfl
    all_goals grind
  case method =>
    intro hkind hname args hargs
    rw [Dot.ofJson, hread]
    dsimp only
    rw [if_neg (by simpa using hname)]
    split
    case h_2 =>
      rw [hargs]
      rfl
    all_goals grind

/-- By its kind an object is read as a statement, from the parts that the kind has. -/
theorem Statement.readAs : Statement.ReadAs source members header := by
  constructor
  case reference =>
    intro hkind hname dots hdots
    rw [Statement.ofJson, hread]
    dsimp only
    split
    case h_1 =>
      rw [if_neg (by simpa using hname), hdots]
      rfl
    all_goals grind
  case create =>
    intro hkind hname document type value hdocument htype hvalue
    rw [Statement.ofJson, hread]
    dsimp only
    split
    case h_2 =>
      rw [if_neg (by simpa using hname), hdocument]
      dsimp only
      rw [htype]
      dsimp only
      rw [hvalue]
      rfl
    all_goals grind
  case retNone =>
    intro hkind hvalue
    rw [Statement.ofJson, hread]
    dsimp only
    split
    case h_3 => rw [hvalue]
    all_goals grind
  case ret =>
    intro hkind document value hdocument hvalue
    rw [Statement.ofJson, hread]
    dsimp only
    split
    case h_3 =>
      rw [hdocument]
      dsimp only
      rw [hvalue]
      rfl
    all_goals grind
  case ifThen =>
    intro hkind condition body hcondition hbody
    rw [Statement.ofJson, hread]
    dsimp only
    split
    case h_4 =>
      rw [hcondition, hbody]
      rfl
    all_goals grind
  case forIn =>
    intro hkind iterable body hiterable hbody
    rw [Statement.ofJson, hread]
    dsimp only
    split
    case h_5 =>
      rw [hiterable, hbody]
      rfl
    all_goals grind

end Kinds

section Nodes

variable {loc : Location} {name row text : String}

theorem Expr.ofJson_reference {dots : List Dot} (hloc : loc.InRange) (hname : name ≠ "")
    (hdots : (Dot.documents dots).mapM Dot.ofJson = .ok dots) :
    Expr.ofJson (Expr.reference loc name dots).document = .ok (.reference loc name dots) := by
  have hfields := (NodeFields.nil.withList (show "dots" ∈ _ by decide)
    (Dot.documents dots)).withName name
  obtain ⟨header, hread, hkind, rfl, -, rfl⟩ := hfields.exists_read hloc "VariableReference"
  exact (Expr.readAs hread).reference hkind hname dots
    (orEmpty_lastDots? (by simp [last?, named, spelled]) hdots)

theorem Expr.ofJson_string (hloc : loc.InRange) :
    Expr.ofJson (Expr.string loc text).document = .ok (.string loc text) := by
  have hfields := NodeFields.nil.withValue (show "value" ∈ _ by decide) (.string text)
  have hvalue : stringValue? (spelled
      (nodeMembers "StringLiteral" loc [("value", .string text)])) = some text := by
    rw [stringValue?, Json.last?_nodeMembers (by decide)]
    simp [last?, named, spelled, Json.string, Json.string?]
  obtain ⟨header, hread, hkind, -, -, rfl⟩ := hfields.exists_read hloc "StringLiteral"
  exact (Expr.readAs hread).string hkind text hvalue

/-- A number literal of the grammar is read back with its text. -/
theorem Expr.ofJson_number (hloc : loc.InRange) (htext : IsJsonNumber text) :
    Expr.ofJson (Expr.number loc text).document = .ok (.number loc text) := by
  have hfields := NodeFields.nil.withValue (show "value" ∈ _ by decide) (.num text)
  have hvalue : numberText? (spelled
      (nodeMembers "NumberLiteral" loc [("value", .num text)])) = some text := by
    refine numberText?_of_last? ?_ htext
    rw [Json.last?_nodeMembers (by decide)]
    simp [last?, named, spelled]
  obtain ⟨header, hread, hkind, -, -, rfl⟩ := hfields.exists_read hloc "NumberLiteral"
  exact (Expr.readAs hread).number hkind text hvalue

theorem Expr.ofJson_array {elements : List Expr} (hloc : loc.InRange)
    (helements : (Expr.documents elements).mapM Expr.ofJson = .ok elements) :
    Expr.ofJson (Expr.array loc elements).document = .ok (.array loc elements) := by
  have hfields := NodeFields.nil.withList (show "elements" ∈ _ by decide)
    (Expr.documents elements)
  obtain ⟨header, hread, hkind, -, -, rfl⟩ := hfields.exists_read hloc "ArrayLiteral"
  exact (Expr.readAs hread).array hkind elements
    (orEmpty_lastExprs? (by decide) (by simp [last?, named, spelled]) helements)

theorem Expr.ofJson_object {fields : List (String × Expr)} (hloc : loc.InRange)
    (hentries : (Expr.fieldDocuments fields).mapM readFieldLiteral = .ok fields) :
    Expr.ofJson (Expr.object loc fields).document = .ok (.object loc fields) := by
  have hfields := NodeFields.nil.withFields (Expr.all_isField_fieldDocuments fields)
  obtain ⟨header, hread, hkind, -, -, rfl⟩ := hfields.exists_read hloc "ObjectLiteral"
  exact (Expr.readAs hread).object hkind fields
    (orEmpty_lastFields? (by simp [last?, named, spelled]) hentries)

theorem Expr.ofJson_lambda {body : List Statement} (hloc : loc.InRange) (hrow : row ≠ "")
    (hbody : (Statement.documents body).mapM Statement.ofJson = .ok body) :
    Expr.ofJson (Expr.lambda loc row body).document = .ok (.lambda loc row body) := by
  have hfields := (NodeFields.nil.withList (show "body" ∈ _ by decide)
    (Statement.documents body)).withRow row
  obtain ⟨header, hread, hkind, -, rfl, rfl⟩ := hfields.exists_read hloc "AnonFunction"
  exact (Expr.readAs hread).lambda hkind hrow body
    (orEmpty_lastBody? (by simp [last?, named, spelled]) hbody)

theorem Dot.ofJson_field (hloc : loc.InRange) (hname : name ≠ "") :
    Dot.ofJson (Dot.field loc name).document = .ok (.field loc name) := by
  have hfields := NodeFields.nil.withName name
  obtain ⟨header, hread, hkind, rfl, -, rfl⟩ := hfields.exists_read hloc "FieldAccess"
  exact (Dot.readAs hread).field hkind hname

theorem Dot.ofJson_method {args : List Expr} (hloc : loc.InRange) (hname : name ≠ "")
    (hargs : (Expr.documents args).mapM Expr.ofJson = .ok args) :
    Dot.ofJson (Dot.method loc name args).document = .ok (.method loc name args) := by
  have hfields := (NodeFields.nil.withList (show "args" ∈ _ by decide)
    (Expr.documents args)).withName name
  obtain ⟨header, hread, hkind, rfl, -, rfl⟩ := hfields.exists_read hloc "MethodInvocation"
  exact (Dot.readAs hread).method hkind hname args
    (orEmpty_lastExprs? (by decide) (by simp [last?, named, spelled]) hargs)

theorem Statement.ofJson_reference {dots : List Dot} (hloc : loc.InRange) (hname : name ≠ "")
    (hdots : (Dot.documents dots).mapM Dot.ofJson = .ok dots) :
    Statement.ofJson (Statement.reference loc name dots).document =
      .ok (.reference loc name dots) := by
  have hfields := (NodeFields.nil.withList (show "dots" ∈ _ by decide)
    (Dot.documents dots)).withName name
  obtain ⟨header, hread, hkind, rfl, -, rfl⟩ := hfields.exists_read hloc "VariableReference"
  exact (Statement.readAs hread).reference hkind hname dots
    (orEmpty_lastDots? (by simp [last?, named, spelled]) hdots)

theorem Statement.ofJson_create {type : DataType} {value : Expr} (hloc : loc.InRange)
    (hname : name ≠ "") (htype : type.Normal) (hvalue : Expr.ofJson value.document = .ok value) :
    Statement.ofJson (Statement.create loc name type value).document =
      .ok (.create loc name type value) := by
  have hfields := ((NodeFields.nil.withValue (show "value" ∈ _ by decide)
    value.document).withValue (show "type" ∈ _ by decide) type.toJson).withName name
  obtain ⟨header, hread, hkind, rfl, -, rfl⟩ := hfields.exists_read hloc "VariableCreation"
  exact (Statement.readAs hread).create hkind hname type.toJson type value
    (present?_nodeMembers (by decide) (by simp [last?, named, spelled])
      type.toJson_ne_null)
    htype.ofJson_toJson
    (required_nodeMembers (by decide) (by simp [last?, named, spelled]) hvalue)

theorem Statement.ofJson_ret_none (hloc : loc.InRange) :
    Statement.ofJson (Statement.ret loc none).document = .ok (.ret loc none) := by
  have hvalue : present? "value"
      (spelled (nodeMembers "ReturnStatement" loc [])) = none := by
    rw [present?, Json.last?_nodeMembers (by decide)]
    rfl
  obtain ⟨header, hread, hkind, -, -, rfl⟩ := NodeFields.nil.exists_read hloc "ReturnStatement"
  exact (Statement.readAs hread).retNone hkind hvalue

theorem Statement.ofJson_ret_some {value : Expr} (hloc : loc.InRange)
    (h : Expr.ofJson value.document = .ok value) :
    Statement.ofJson (Statement.ret loc (some value)).document = .ok (.ret loc (some value)) := by
  have hfields := NodeFields.nil.withValue (show "value" ∈ _ by decide) value.document
  have hlast : last? "value" (spelled [("value", value.document)]) =
      some value.document := by
    simp [last?, named, spelled]
  obtain ⟨header, hread, hkind, -, -, rfl⟩ := hfields.exists_read hloc "ReturnStatement"
  exact (Statement.readAs hread).ret hkind value.document value
    (present?_nodeMembers (by decide) hlast (ne_null_of_ofJson h))
    (required_nodeMembers (by decide) hlast h)

theorem Statement.ofJson_ifThen {condition : Expr} {body : List Statement} (hloc : loc.InRange)
    (hcondition : Expr.ofJson condition.document = .ok condition)
    (hbody : (Statement.documents body).mapM Statement.ofJson = .ok body) :
    Statement.ofJson (Statement.ifThen loc condition body).document =
      .ok (.ifThen loc condition body) := by
  have hfields := (NodeFields.nil.withList (show "body" ∈ _ by decide)
    (Statement.documents body)).withValue (show "condition" ∈ _ by decide) condition.document
  obtain ⟨header, hread, hkind, -, -, rfl⟩ := hfields.exists_read hloc "If"
  exact (Statement.readAs hread).ifThen hkind condition body
    (required_nodeMembers (by decide) (by simp [last?, named, spelled])
      hcondition)
    (orEmpty_lastBody? (by simp [last?, named, spelled]) hbody)

theorem Statement.ofJson_forIn {iterable : Expr} {body : List Statement} (hloc : loc.InRange)
    (hiterable : Expr.ofJson iterable.document = .ok iterable)
    (hbody : (Statement.documents body).mapM Statement.ofJson = .ok body) :
    Statement.ofJson (Statement.forIn loc row iterable body).document =
      .ok (.forIn loc row iterable body) := by
  have hfields := ((NodeFields.nil.withList (show "body" ∈ _ by decide)
    (Statement.documents body)).withValue (show "iterable" ∈ _ by decide)
      iterable.document).withRow row
  obtain ⟨header, hread, hkind, -, rfl, rfl⟩ := hfields.exists_read hloc "ForIn"
  exact (Statement.readAs hread).forIn hkind iterable body
    (required_nodeMembers (by decide) (by simp [last?, named, spelled]) hiterable)
    (orEmpty_lastBody? (by simp [last?, named, spelled]) hbody)

end Nodes

/-! ## Reading trees -/

mutual

/-- A well-formed expression is read back from its document. -/
theorem Expr.ofJson_document :
    ∀ expr : Expr, expr.WellFormed IsJsonNumber → Expr.ofJson expr.document = .ok expr
  | .reference _ _ dots, ⟨hloc, hname, hdots⟩ =>
      Expr.ofJson_reference hloc hname (Dot.ofJson_documents dots hdots)
  | .string .., hloc => Expr.ofJson_string hloc
  | .number .., ⟨hloc, htext⟩ => Expr.ofJson_number hloc htext
  | .array _ elements, ⟨hloc, helements⟩ =>
      Expr.ofJson_array hloc (Expr.ofJson_documents elements helements)
  | .object _ fields, ⟨hloc, hfields⟩ =>
      Expr.ofJson_object hloc (Expr.ofJson_fieldDocuments fields hfields)
  | .lambda _ _ body, ⟨hloc, hrow, hbody⟩ =>
      Expr.ofJson_lambda hloc hrow (Statement.ofJson_documents body hbody)

theorem Dot.ofJson_document :
    ∀ dot : Dot, dot.WellFormed IsJsonNumber → Dot.ofJson dot.document = .ok dot
  | .field .., ⟨hloc, hname⟩ => Dot.ofJson_field hloc hname
  | .method _ _ args, ⟨hloc, hname, hargs⟩ =>
      Dot.ofJson_method hloc hname (Expr.ofJson_documents args hargs)

/-- A well-formed statement is read back from its document. -/
theorem Statement.ofJson_document : ∀ statement : Statement,
    statement.WellFormed IsJsonNumber → Statement.ofJson statement.document = .ok statement
  | .reference _ _ dots, ⟨hloc, hname, hdots⟩ =>
      Statement.ofJson_reference hloc hname (Dot.ofJson_documents dots hdots)
  | .create _ _ _ value, ⟨hloc, hname, htype, hvalue⟩ =>
      Statement.ofJson_create hloc hname htype (Expr.ofJson_document value hvalue)
  | .ret _ none, hloc => Statement.ofJson_ret_none hloc
  | .ret _ (some value), ⟨hloc, hvalue⟩ =>
      Statement.ofJson_ret_some hloc (Expr.ofJson_document value hvalue)
  | .ifThen _ condition body, ⟨hloc, hcondition, hbody⟩ =>
      Statement.ofJson_ifThen hloc (Expr.ofJson_document condition hcondition)
        (Statement.ofJson_documents body hbody)
  | .forIn _ _ iterable body, ⟨hloc, hiterable, hbody⟩ =>
      Statement.ofJson_forIn hloc (Expr.ofJson_document iterable hiterable)
        (Statement.ofJson_documents body hbody)

theorem Expr.ofJson_documents : ∀ exprs : List Expr,
    Expr.WellFormedAll IsJsonNumber exprs → (Expr.documents exprs).mapM Expr.ofJson = .ok exprs
  | [], _ => rfl
  | expr :: rest, ⟨hexpr, hrest⟩ => by
      rw [Expr.documents, List.mapM_cons, Expr.ofJson_document expr hexpr,
        Expr.ofJson_documents rest hrest]
      rfl

theorem Expr.ofJson_fieldDocuments : ∀ fields : List (String × Expr),
    Expr.WellFormedFields IsJsonNumber fields →
      (Expr.fieldDocuments fields).mapM readFieldLiteral = .ok fields
  | [], _ => rfl
  | (name, value) :: rest, ⟨hvalue, hrest⟩ => by
      rw [Expr.fieldDocuments, List.mapM_cons,
        readFieldLiteral_document (Expr.ofJson_document value hvalue),
        Expr.ofJson_fieldDocuments rest hrest]
      rfl

theorem Dot.ofJson_documents : ∀ dots : List Dot,
    Dot.WellFormedAll IsJsonNumber dots → (Dot.documents dots).mapM Dot.ofJson = .ok dots
  | [], _ => rfl
  | dot :: rest, ⟨hdot, hrest⟩ => by
      rw [Dot.documents, List.mapM_cons, Dot.ofJson_document dot hdot,
        Dot.ofJson_documents rest hrest]
      rfl

theorem Statement.ofJson_documents : ∀ statements : List Statement,
    Statement.WellFormedAll IsJsonNumber statements →
      (Statement.documents statements).mapM Statement.ofJson = .ok statements
  | [], _ => rfl
  | statement :: rest, ⟨hstatement, hrest⟩ => by
      rw [Statement.documents, List.mapM_cons, Statement.ofJson_document statement hstatement,
        Statement.ofJson_documents rest hrest]
      rfl

end

end StoredProc
