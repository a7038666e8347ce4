import StoredProc.Proofs.DataType.Reordering

/-! # What a node is read from

The readers of nodes look up members by name and read lists item by item. So a document
is read as before when one of its parts is replaced by a part that every reader reads
alike.
-/

namespace StoredProc

open Json (Replaced Compound)

/-! ## Readers as lookups -/

/-- A search from the back that reads what it finds finds the last member of the name. -/
theorem eq_map_last? {α : Type} {field : String} {read : Json → α}
    {found : List (String × Json) → Option α} (hnil : found [] = none)
    (hcons : ∀ name value rest, found ((name, value) :: rest) =
      (found rest).or (if Json.named field name then some (read value) else none))
    (members : List (String × Json)) : found members = (Json.last? field members).map read := by
  induction members with
  | nil => exact hnil
  | cons member rest ih =>
      rw [hcons, ih, Json.last?]
      cases Json.last? field rest with
      | some found => rfl
      | none => cases Json.named field member.1 <;> rfl

theorem lastExpr?_eq (field : String) (members : List (String × Json)) :
    lastExpr? field members = (Json.last? field members).map Expr.ofJson := by
  refine eq_map_last? (by rw [lastExpr?]) (fun name value rest => ?_) members
  rw [lastExpr?]
  cases lastExpr? field rest <;> rfl

theorem lastBody?_eq (members : List (String × Json)) :
    lastBody? members = (Json.last? "body" members).map statementsOf := by
  refine eq_map_last? (by rw [lastBody?]) (fun name value rest => ?_) members
  rw [lastBody?]
  cases lastBody? rest <;> rfl

theorem lastExprs?_eq (field : String) (members : List (String × Json)) :
    lastExprs? field members = (Json.last? field members).map exprsOf := by
  refine eq_map_last? (by rw [lastExprs?]) (fun name value rest => ?_) members
  rw [lastExprs?]
  cases lastExprs? field rest <;> rfl

theorem lastDots?_eq (members : List (String × Json)) :
    lastDots? members = (Json.last? "dots" members).map dotsOf := by
  refine eq_map_last? (by rw [lastDots?]) (fun name value rest => ?_) members
  rw [lastDots?]
  cases lastDots? rest <;> rfl

theorem lastFields?_eq (members : List (String × Json)) :
    lastFields? members = (Json.last? "fields" members).map fieldsOf := by
  refine eq_map_last? (by rw [lastFields?]) (fun name value rest => ?_) members
  rw [lastFields?]
  cases lastFields? rest <;> rfl

theorem statementsOf_arr (source : String) (items : List Json) :
    statementsOf (.arr source items) = items.mapM Statement.ofJson := by
  rw [statementsOf]
  induction items with
  | nil => rw [readStatements]; rfl
  | cons item rest ih => rw [readStatements, ih, List.mapM_cons]

theorem exprsOf_arr (source : String) (items : List Json) :
    exprsOf (.arr source items) = items.mapM Expr.ofJson := by
  rw [exprsOf]
  induction items with
  | nil => rw [readExprs]; rfl
  | cons item rest ih => rw [readExprs, ih, List.mapM_cons]

theorem dotsOf_arr (source : String) (items : List Json) :
    dotsOf (.arr source items) = items.mapM Dot.ofJson := by
  rw [dotsOf]
  induction items with
  | nil => rw [readDots]; rfl
  | cons item rest ih => rw [readDots, ih, List.mapM_cons]

theorem fieldsOf_arr (source : String) (items : List Json) :
    fieldsOf (.arr source items) = items.mapM readFieldLiteral := by
  rw [fieldsOf]
  induction items with
  | nil => rw [readFieldLiterals]; rfl
  | cons item rest ih => rw [readFieldLiterals, ih, List.mapM_cons]

/-- Read the parts of a location over what is known of it so far. -/
def Location.readParts (start : Location) : Json → Option Location
  | .null => some start
  | .obj _ parts => if Json.soundNames parts then start.readMembers parts else none
  | _ => none

theorem Location.ofMembers_eq (members : List (String × Json)) :
    Location.ofMembers members = members.foldlM (fun loc member =>
      if Json.named "loc" member.1 then loc.readParts member.2 else some loc) {} :=
  rfl

/-- Whether a value is an object field with a text as name. -/
def NodeHeader.isField : Json → Bool
  | .null => true
  | .obj _ members => Json.soundNames members && (Json.textMember? "name" members).isSome
  | _ => false

theorem NodeHeader.isFieldList_arr (source : String) (items : List Json) :
    isFieldList (.arr source items) = items.all isField :=
  rfl

theorem NodeHeader.kind_of_read {members : List (String × Json)} {header : NodeHeader}
    (h : NodeHeader.read members = some header) :
    Json.textMember? "kind" members = some header.kind := by
  simp only [NodeHeader.read, Option.bind_eq_bind, Option.bind_eq_some_iff] at h
  obtain ⟨-, -, -, -, -, -, kind, hkind, name, -, row, -, loc, -, heq⟩ := h
  obtain rfl := Option.some.inj heq
  exact hkind

/-! ## Parts that are read alike -/

/-- Two lists or objects that every reader of nodes reads alike. -/
structure Json.Alike (value value' : Json) : Prop where
  compound : Compound value value'
  location : ∀ start : Location, start.readParts value = start.readParts value'
  isField : NodeHeader.isField value = NodeHeader.isField value'
  isFieldList : NodeHeader.isFieldList value = NodeHeader.isFieldList value'
  statement : Statement.ofJson value = Statement.ofJson value'
  expr : Expr.ofJson value = Expr.ofJson value'
  dot : Dot.ofJson value = Dot.ofJson value'
  field : readFieldLiteral value = readFieldLiteral value'
  statements : statementsOf value = statementsOf value'
  exprs : exprsOf value = exprsOf value'
  dots : dotsOf value = dotsOf value'
  fields : fieldsOf value = fieldsOf value'

/-- Two lists of members in which every reader of nodes finds the same. -/
structure Json.AlikeMembers (members members' : List (String × Json)) : Prop where
  sound : Json.soundNames members = Json.soundNames members'
  text : ∀ field, Json.textMember? field members = Json.textMember? field members'
  lists : ∀ field, Json.allNamed field Json.isListOrNull members =
    Json.allNamed field Json.isListOrNull members'
  header : NodeHeader.read members = NodeHeader.read members'
  loc : Location.ofMembers members = Location.ofMembers members'
  location : ∀ start : Location, start.readMembers members = start.readMembers members'
  present : ∀ field, (Json.present? field members).isSome = (Json.present? field members').isSome
  type : (Json.present? "type" members).map DataType.ofJson =
    (Json.present? "type" members').map DataType.ofJson
  value : lastExpr? "value" members = lastExpr? "value" members'
  condition : lastExpr? "condition" members = lastExpr? "condition" members'
  iterable : lastExpr? "iterable" members = lastExpr? "iterable" members'
  elements : lastExprs? "elements" members = lastExprs? "elements" members'
  args : lastExprs? "args" members = lastExprs? "args" members'
  body : lastBody? members = lastBody? members'
  dots : lastDots? members = lastDots? members'
  fields : lastFields? members = lastFields? members'
  string : stringValue? members = stringValue? members'
  number : Json.textMember? "kind" members = some "NumberLiteral" →
    numberText? members = numberText? members'

/-- One list item that is read alike makes the lists be read alike. -/
theorem Json.Alike.list {value value' : Json} {items items' : List Json}
    (h : Json.Alike value value') (hitems : Replaced value value' items items')
    (source source' : String) : Json.Alike (.arr source items) (.arr source' items') where
  compound := .lists ..
  location _ := rfl
  isField := rfl
  isFieldList := by
    rw [NodeHeader.isFieldList_arr, NodeHeader.isFieldList_arr, hitems.all_eq h.isField]
  statement := by
    rw [Statement.ofJson, Statement.ofJson] <;> simp
  expr := by
    rw [Expr.ofJson, Expr.ofJson] <;> simp
  dot := by
    rw [Dot.ofJson, Dot.ofJson] <;> simp
  field := by
    rw [readFieldLiteral, readFieldLiteral] <;> simp
  statements := by
    rw [statementsOf_arr, statementsOf_arr, hitems.mapM_eq h.statement]
  exprs := by
    rw [exprsOf_arr, exprsOf_arr, hitems.mapM_eq h.expr]
  dots := by
    rw [dotsOf_arr, dotsOf_arr, hitems.mapM_eq h.dot]
  fields := by
    rw [fieldsOf_arr, fieldsOf_arr, hitems.mapM_eq h.field]

theorem required_eq {α : Type} {kind field : String} {members members' : List (String × Json)}
    (hpresent : (Json.present? field members).isSome = (Json.present? field members').isSome)
    (found : Option (Except NodeError α)) :
    required kind field members found = required kind field members' found := by
  unfold required
  cases hfirst : Json.present? field members <;> cases hsecond : Json.present? field members' <;>
    simp only [hfirst, hsecond, Option.isSome_none, Option.isSome_some, reduceCtorEq] at hpresent
  · rfl
  · cases found <;> rfl

namespace Json.AlikeMembers

variable {members members' : List (String × Json)} (h : Json.AlikeMembers members members')
  (source source' : String)
include h

/-- Members that are alike are read as the same statement. -/
theorem statement : Statement.ofJson (.obj source members) =
    Statement.ofJson (.obj source' members') := by
  rw [Statement.ofJson, Statement.ofJson, h.header]
  cases NodeHeader.read members' with
  | none => rfl
  | some header =>
      dsimp only
      split
      · rw [h.dots]
      · rw [required_eq (h.present "value"), h.value]
        have htype := h.type
        cases hfirst : present? "type" members <;> cases hsecond : present? "type" members' <;>
          simp only [hfirst, hsecond, Option.map_none, Option.map_some, reduceCtorEq,
            Option.some.injEq] at htype
        · rfl
        · simp only [htype]
      · rw [required_eq (h.present "value"), h.value]
        have hvalue := h.present "value"
        cases hfirst : present? "value" members <;> cases hsecond : present? "value" members' <;>
          simp only [hfirst, hsecond, Option.isSome_none, Option.isSome_some, reduceCtorEq]
            at hvalue ⊢
      · rw [required_eq (h.present "condition"), h.condition, h.body]
      · rw [required_eq (h.present "iterable"), h.iterable, h.body]
      · rfl

/-- Members that are alike are read as the same expression. -/
theorem expr : Expr.ofJson (.obj source members) = Expr.ofJson (.obj source' members') := by
  rw [Expr.ofJson, Expr.ofJson, h.header]
  cases hheader : NodeHeader.read members' with
  | none => rfl
  | some header =>
      dsimp only
      split
      · rw [h.dots]
      · rw [h.string]
      · rename_i hkind
        rw [h.number]
        rw [h.text, NodeHeader.kind_of_read hheader, hkind]
      · rw [h.elements]
      · rw [h.fields]
      · rw [h.body]
      · rfl

theorem dot : Dot.ofJson (.obj source members) = Dot.ofJson (.obj source' members') := by
  rw [Dot.ofJson, Dot.ofJson, h.header]
  cases NodeHeader.read members' with
  | none => rfl
  | some header =>
      dsimp only
      rw [h.args]

theorem field : readFieldLiteral (.obj source members) =
    readFieldLiteral (.obj source' members') := by
  rw [readFieldLiteral, readFieldLiteral, h.text "name", h.value]
  have hvalue := h.present "value"
  cases hfirst : present? "value" members <;> cases hsecond : present? "value" members' <;>
    simp only [hfirst, hsecond, Option.isSome_none, Option.isSome_some, reduceCtorEq] at hvalue ⊢
  cases lastExpr? "value" members' <;> rfl

/-- Objects with members that are read alike are read alike. -/
theorem alike : Json.Alike (.obj source members) (.obj source' members') where
  compound := .objects ..
  location start := by
    rw [Location.readParts, Location.readParts, h.sound, h.location]
  isField := by
    rw [NodeHeader.isField, NodeHeader.isField, h.sound, h.text]
  isFieldList := rfl
  statement := h.statement source source'
  expr := h.expr source source'
  dot := h.dot source source'
  field := h.field source source'
  statements := by
    rw [statementsOf, statementsOf] <;> simp
  exprs := by
    rw [exprsOf, exprsOf] <;> simp
  dots := by
    rw [dotsOf, dotsOf] <;> simp
  fields := by
    rw [fieldsOf, fieldsOf] <;> simp

end Json.AlikeMembers

namespace Json

/-- The members that readers of nodes look into. -/
def nodeFields : List String :=
  ["loc", "value", "condition", "iterable", "elements", "args", "body", "dots", "fields"]

section Replaced

variable {name : String} {value value' : Json} {members members' : List (String × Json)}

theorem readMembers_eq (hmembers : Replaced (name, value) (name, value') members members')
    (hcompound : Compound value value') (start : Location) :
    start.readMembers members = start.readMembers members' := by
  apply hmembers.foldlM_eq
  intro loc
  cases hcompound <;> rfl

/-- A place is read alike if the value that was replaced is no place, or is one alike. -/
theorem location_eq (hmembers : Replaced (name, value) (name, value') members members')
    (hloc : named "loc" name = true → Alike value value') :
    Location.ofMembers members = Location.ofMembers members' := by
  rw [Location.ofMembers_eq, Location.ofMembers_eq]
  apply hmembers.foldlM_eq
  intro loc
  cases hname : named "loc" name with
  | false => rfl
  | true => simp only [if_true, (hloc hname).location]

theorem read_eq (hmembers : Replaced (name, value) (name, value') members members')
    (hcompound : Compound value value')
    (hloc : named "loc" name = true → Alike value value')
    (hfields : named "fields" name = true → Alike value value') :
    NodeHeader.read members = NodeHeader.read members' := by
  have hlists : ∀ field, allNamed field isListOrNull members =
      allNamed field isListOrNull members' := fun field =>
    allNamed_eq hmembers fun _ => hcompound.isListOrNull_eq
  simp only [NodeHeader.read, soundNames_eq hmembers, textMember?_eq hmembers hcompound, hlists,
    location_eq hmembers hloc, allNamed_eq hmembers fun hname => (hfields hname).isFieldList]

/-- A part that is read alike in its place leaves all that is read of the members. The
value of a number literal is a text, and no other spelling of it will do. -/
theorem Replaced.alikeMembers
    (hmembers : Replaced (name, value) (name, value') members members')
    (hcompound : Compound value value')
    (htype : named "type" name = true → DataType.ofJson value = DataType.ofJson value')
    (hnode : ∀ field ∈ nodeFields, named field name = true → Alike value value')
    (hnumber : named "value" name = true → textMember? "kind" members ≠ some "NumberLiteral") :
    AlikeMembers members members' where
  sound := soundNames_eq hmembers
  text _ := textMember?_eq hmembers hcompound
  lists _ := allNamed_eq hmembers fun _ => hcompound.isListOrNull_eq
  header := read_eq hmembers hcompound (hnode _ (by decide)) (hnode _ (by decide))
  loc := location_eq hmembers (hnode _ (by decide))
  location := readMembers_eq hmembers hcompound
  present := isSome_present?_eq hmembers hcompound
  type := map_present?_eq hmembers hcompound htype
  value := by
    simp only [lastExpr?_eq]
    exact map_last?_eq hmembers fun hname => (hnode _ (by decide) hname).expr
  condition := by
    simp only [lastExpr?_eq]
    exact map_last?_eq hmembers fun hname => (hnode _ (by decide) hname).expr
  iterable := by
    simp only [lastExpr?_eq]
    exact map_last?_eq hmembers fun hname => (hnode _ (by decide) hname).expr
  elements := by
    simp only [lastExprs?_eq]
    exact map_last?_eq hmembers fun hname => (hnode _ (by decide) hname).exprs
  args := by
    simp only [lastExprs?_eq]
    exact map_last?_eq hmembers fun hname => (hnode _ (by decide) hname).exprs
  body := by
    simp only [lastBody?_eq]
    exact map_last?_eq hmembers fun hname => (hnode _ (by decide) hname).statements
  dots := by
    simp only [lastDots?_eq]
    exact map_last?_eq hmembers fun hname => (hnode _ (by decide) hname).dots
  fields := by
    simp only [lastFields?_eq]
    exact map_last?_eq hmembers fun hname => (hnode _ (by decide) hname).fields
  string := by
    rw [stringValue?, stringValue?]
    obtain heq | ⟨-, hlast, hlast'⟩ := last?_cases hmembers "value"
    · rw [heq]
    · rw [hlast, hlast']
      cases hcompound <;> rfl
  number hkind := by
    rw [numberText?, numberText?]
    obtain heq | ⟨hname, -, -⟩ := last?_cases hmembers "value"
    · rw [heq]
    · exact absurd hkind (hnumber hname)

end Replaced

end Json

end StoredProc
