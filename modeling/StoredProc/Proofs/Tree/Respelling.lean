import StoredProc.Proofs.Json.Blanks
import StoredProc.Proofs.Json.LastMember
import StoredProc.Proofs.Tree.NumberTexts
import StoredProc.Proofs.Tree.Reading

/-! # Nodes in the compact spelling

The blanks in a document do not change what is read from it, with one exception: a number
literal keeps the text of its value, and if that is a list or an object, the text has the
blanks in it. So a document and its compact form are read alike up to such texts.
-/

namespace StoredProc

namespace Json

/-! ## Members -/

section Members

variable (field : String) (members : List (String × Json))

theorem soundNames_compactMembers : soundNames (compactMembers members) = soundNames members := by
  rw [compactMembers, soundNames, List.all_map]
  rfl

/-- The last member of a name is found in either spelling. -/
theorem last?_compactMembers :
    last? field (compactMembers members) = (last? field members).map compact := by
  induction members with
  | nil => rfl
  | cons member rest ih =>
      rw [compactMembers, List.map_cons, last?, last?, ← compactMembers, ih]
      cases last? field rest with
      | some found => rfl
      | none => cases named field member.1 <;> rfl

theorem present?_compactMembers :
    present? field (compactMembers members) = (present? field members).map compact := by
  rw [present?, present?, last?_compactMembers]
  cases last? field members with
  | none => rfl
  | some value => cases value <;> rfl

theorem allNamed_compactMembers {accepts : Json → Bool}
    (h : ∀ value : Json, accepts value.compact = accepts value) :
    allNamed field accepts (compactMembers members) = allNamed field accepts members := by
  rw [allNamed, allNamed, compactMembers, List.all_map]
  congr 1
  funext member
  exact congrArg (!named field member.1 || ·) (h member.2)

variable {members}

/-- A pass whose state sees the spelling of values only through `view`. -/
theorem foldlM_compactMembers_view {α : Type} {view : α → α} {step : α → String × Json → Option α}
    (h : ∀ state name value,
      step (view state) (name, compact value) = (step state (name, value)).map view)
    (start : α) :
    (compactMembers members).foldlM step (view start) = (members.foldlM step start).map view := by
  induction members generalizing start with
  | nil => rfl
  | cons member rest ih =>
      rw [compactMembers, List.map_cons, List.foldlM_cons, List.foldlM_cons, ← compactMembers,
        h start member.1 member.2]
      cases step start member with
      | none => rfl
      | some next => exact ih next

/-- A pass that does not see the spelling of values. -/
theorem foldlM_compactMembers {α : Type} {step : α → String × Json → Option α}
    (h : ∀ state name value, step state (name, compact value) = step state (name, value))
    (start : α) : (compactMembers members).foldlM step start = members.foldlM step start := by
  rw [compactMembers, List.foldlM_map]
  congr 1
  funext state member
  exact h state member.1 member.2

theorem textMember?_compactMembers :
    textMember? field (compactMembers members) = textMember? field members := by
  apply foldlM_compactMembers
  intro found name value
  cases value <;> rfl

end Members

theorem isListOrNull_compact (value : Json) : value.compact.isListOrNull = value.isListOrNull := by
  cases value <;> rfl

end Json

open Json (compactMembers)

/-! ## Locations and headers -/

section Headers

variable (members : List (String × Json))

theorem Location.readMembers_compactMembers (start : Location) :
    start.readMembers (compactMembers members) = start.readMembers members := by
  apply Json.foldlM_compactMembers
  intro loc name value
  cases value <;> rfl

theorem Location.readParts_compact (start : Location) (value : Json) :
    start.readParts value.compact = start.readParts value := by
  cases value with
  | obj source parts =>
      rw [Json.compact_obj, Json.written, readParts, readParts, Json.soundNames_compactMembers,
        readMembers_compactMembers]
  | null | bool | num | str | arr => rfl

theorem Location.ofMembers_compactMembers :
    Location.ofMembers (compactMembers members) = Location.ofMembers members := by
  rw [Location.ofMembers_eq, Location.ofMembers_eq]
  apply Json.foldlM_compactMembers
  intro loc name value
  rw [readParts_compact]

theorem NodeHeader.isField_compact (value : Json) : isField value.compact = isField value := by
  cases value with
  | obj source inner =>
      rw [Json.compact_obj, Json.written, isField, isField, Json.soundNames_compactMembers,
        Json.textMember?_compactMembers]
  | null | bool | num | str | arr => rfl

theorem NodeHeader.isFieldList_compact (value : Json) :
    isFieldList value.compact = isFieldList value := by
  cases value with
  | arr source items =>
      rw [Json.compact_arr, Json.array, isFieldList_arr, isFieldList_arr, List.all_map]
      congr 1
      funext item
      exact isField_compact item
  | null | bool | num | str | obj => rfl

theorem NodeHeader.read_compactMembers :
    NodeHeader.read (compactMembers members) = NodeHeader.read members := by
  simp only [NodeHeader.read, Json.soundNames_compactMembers, Json.textMember?_compactMembers,
    Json.allNamed_compactMembers _ _ Json.isListOrNull_compact,
    Json.allNamed_compactMembers _ _ isFieldList_compact, Location.ofMembers_compactMembers]

end Headers

/-! ## Types -/

namespace DataType

/-- By induction on the document, types and their data are read alike in the compact spelling. -/
theorem ofJson_readData_compact (value : Json) :
    ofJson value.compact = ofJson value ∧ readData value.compact = readData value := by
  induction value using Json.inductionOn with
  | null | bool | num | str => exact ⟨rfl, rfl⟩
  | arr source items ih =>
      refine ⟨rfl, ?_⟩
      rw [Json.compact_arr, Json.array, readData, readData, readItems_eq_map, readItems_eq_map,
        List.map_map]
      exact congrArg Data.list (List.map_congr_left fun item hitem => (ih item hitem).1)
  | obj source members ih =>
      rw [Json.compact_obj, Json.written]
      constructor
      · have hdata : ((Json.last? "data" members).map Json.compact).map readData =
            (Json.last? "data" members).map readData := by
          rw [Option.map_map]
          refine Option.map_congr fun value hvalue => ?_
          obtain ⟨name, hmem, -⟩ := Json.exists_mem_of_last? hvalue
          exact (ih _ hmem).2
        rw [ofJson, ofJson, Json.soundNames_compactMembers, Json.textMember?_compactMembers,
          lastData_eq, lastData_eq, Json.last?_compactMembers, hdata]
      · rw [readData, readData, readFields_eq_map, readFields_eq_map,
          Json.soundNames_compactMembers, compactMembers, List.map_map]
        congr 2
        refine congrArg some (List.map_congr_left fun member hmember => ?_)
        rw [Function.comp_apply, (ih member hmember).1]

theorem ofJson_compact (value : Json) : ofJson value.compact = ofJson value :=
  (ofJson_readData_compact value).1

end DataType

/-! ## Computations that agree up to a change of their results -/

section Results

variable {ε α β γ δ : Type}

/-- Two steps give alike results if the first ones are alike and the second ones keep that. -/
theorem map_bind_eq {first second : Except ε α} {view : α → γ} {next other : α → Except ε β}
    {result : β → δ} (hfirst : first.map view = second.map view)
    (hnext : ∀ a b, view a = view b → (next a).map result = (other b).map result) :
    (first >>= next).map result = (second >>= other).map result := by
  cases first with
  | error fault =>
      cases second with
      | error _ =>
          cases hfirst
          rfl
      | ok _ => cases hfirst
  | ok a =>
      cases second with
      | error _ => cases hfirst
      | ok b => exact hnext a b (Except.ok.inj hfirst)

/-- Items that are read alike one by one are read alike together. -/
theorem map_mapM_compact {read : Json → Except ε α} {view : α → γ} {items : List Json}
    (h : ∀ item ∈ items, (read item.compact).map view = (read item).map view) :
    ((items.map Json.compact).mapM read).map (List.map view) =
      (items.mapM read).map (List.map view) := by
  induction items with
  | nil => rfl
  | cons item rest ih =>
      rw [List.forall_mem_cons] at h
      rw [List.map_cons, List.mapM_cons, List.mapM_cons]
      refine map_bind_eq h.1 fun a b hab => map_bind_eq (ih h.2) fun others others' hothers => ?_
      exact congrArg Except.ok (by rw [List.map_cons, List.map_cons, hab, hothers])

end Results

/-! ## Nodes -/

section Nodes

variable {members : List (String × Json)} {field : String}

/-- The list of the last member of a name, if there is one. -/
theorem map_orEmpty_compact {α γ : Type} {read : Json → Except NodeError (List α)}
    {view : List α → γ}
    (h : ∀ value, Json.last? field members = some value →
      (read value.compact).map view = (read value).map view) :
    (orEmpty ((Json.last? field (compactMembers members)).map read)).map view =
      (orEmpty ((Json.last? field members).map read)).map view := by
  rw [Json.last?_compactMembers]
  cases hlast : Json.last? field members with
  | none => rfl
  | some value => exact h value hlast

/-- A part that a node needs is read alike, or missing alike. -/
theorem map_required_compact {α : Type} {kind : String} {view : Expr → α}
    (h : ∀ value, Json.last? field members = some value →
      (Expr.ofJson value.compact).map view = (Expr.ofJson value).map view) :
    (required kind field (compactMembers members)
        (lastExpr? field (compactMembers members))).map view =
      (required kind field members (lastExpr? field members)).map view := by
  unfold required
  rw [lastExpr?_eq, lastExpr?_eq, Json.present?_compactMembers, Json.present?,
    Json.last?_compactMembers]
  cases hlast : Json.last? field members with
  | none => rfl
  | some value =>
      cases value with
      | null => rfl
      | bool | num | str | arr | obj => exact h _ hlast

/-- Without quotes around it the text of a list or an object is still one. -/
theorem exists_numberText? {value : Json} (hlast : Json.last? "value" members = some value)
    (hvalue : isBracketed value.text = true) :
    ∃ text, numberText? members = some text ∧ isBracketed text = true := by
  obtain ⟨c, rest, hcs, hc⟩ := exists_cons_of_isBracketed hvalue
  have hquote : (c == '"') = false := by rcases hc with rfl | rfl <;> rfl
  -- The quotes at the end are gone, and the bracket in front stops the search for more.
  obtain ⟨kept, hkept⟩ : ∃ kept, ((c :: rest).reverse.dropWhile (· == '"')).reverse =
      c :: kept := by
    rw [List.reverse_cons, List.dropWhile_append]
    split
    · exact ⟨[], by simp [List.dropWhile, hquote]⟩
    · exact ⟨_, by rw [List.reverse_append]; rfl⟩
  have hdrop : (c :: rest).dropWhile (· == '"') = c :: rest :=
    List.dropWhile_cons_of_neg (by simp [hquote])
  have htext : isBracketed (String.ofList (c :: kept)) = true := by
    rw [isBracketed, String.toList_ofList]
    rcases hc with rfl | rfl <;> rfl
  refine ⟨String.ofList (c :: kept), ?_, htext⟩
  simp only [numberText?, hlast, Option.map_some, Option.getD_some, hcs]
  rw [hdrop, hkept, if_neg]
  rintro (hempty | hnull)
  · rw [hempty] at htext
    simp [isBracketed] at htext
  · rw [hnull] at htext
    simp [isBracketed] at htext

/-- A value is its own compact form, or its text is that of a list or an object in both
spellings. -/
theorem Json.Delimited.compact_cases {value : Json} (h : value.Delimited) :
    value.compact = value ∨
      isBracketed value.text = true ∧ isBracketed value.compact.text = true := by
  cases h with
  | null | bool | num | str => exact .inl rfl
  | arr hsource =>
      obtain ⟨rest, hsource⟩ := hsource
      refine .inr ⟨?_, ?_⟩
      · rw [Json.text, isBracketed, hsource]
        rfl
      · rw [isBracketed, Json.toList_text_compact_arr]
        rfl
  | obj hsource =>
      obtain ⟨rest, hsource⟩ := hsource
      refine .inr ⟨?_, ?_⟩
      · rw [Json.text, isBracketed, hsource]
        rfl
      · rw [isBracketed, Json.toList_text_compact_obj]
        rfl

/-- The text of a number stays as it is, unless it stands in brackets. -/
theorem map_numberText?_compact
    (h : ∀ value, Json.last? "value" members = some value → value.Delimited) :
    (numberText? (compactMembers members)).map maskBrackets =
      (numberText? members).map maskBrackets := by
  cases hlast : Json.last? "value" members with
  | none => rw [numberText?, numberText?, Json.last?_compactMembers, hlast, Option.map_none]
  | some value =>
      have hcompact : Json.last? "value" (compactMembers members) = some value.compact := by
        rw [Json.last?_compactMembers, hlast, Option.map_some]
      rcases (h value hlast).compact_cases with heq | ⟨hvalue, hvalue'⟩
      · rw [numberText?, numberText?, hcompact, hlast, heq]
      · obtain ⟨text, htext, hbracketed⟩ := exists_numberText? hlast hvalue
        obtain ⟨text', htext', hbracketed'⟩ := exists_numberText? hcompact hvalue'
        rw [htext, htext', Option.map_some, Option.map_some, maskBrackets, maskBrackets,
          if_pos hbracketed, if_pos hbracketed']

end Nodes

/-- What every reader of nodes gives for a value and for its compact form is the same up
to the texts of lists and objects that stand for numbers. -/
structure Json.RespelledAlike (value : Json) : Prop where
  statement : (Statement.ofJson value.compact).map (Statement.mapNumbers maskBrackets) =
    (Statement.ofJson value).map (Statement.mapNumbers maskBrackets)
  expr : (Expr.ofJson value.compact).map (Expr.mapNumbers maskBrackets) =
    (Expr.ofJson value).map (Expr.mapNumbers maskBrackets)
  dot : (Dot.ofJson value.compact).map (Dot.mapNumbers maskBrackets) =
    (Dot.ofJson value).map (Dot.mapNumbers maskBrackets)
  field : (readFieldLiteral value.compact).map (Prod.map id (Expr.mapNumbers maskBrackets)) =
    (readFieldLiteral value).map (Prod.map id (Expr.mapNumbers maskBrackets))
  statements : (statementsOf value.compact).map (Statement.mapNumbersAll maskBrackets) =
    (statementsOf value).map (Statement.mapNumbersAll maskBrackets)
  exprs : (exprsOf value.compact).map (Expr.mapNumbersAll maskBrackets) =
    (exprsOf value).map (Expr.mapNumbersAll maskBrackets)
  dots : (dotsOf value.compact).map (Dot.mapNumbersAll maskBrackets) =
    (dotsOf value).map (Dot.mapNumbersAll maskBrackets)
  fields : (fieldsOf value.compact).map (Expr.mapNumbersFields maskBrackets) =
    (fieldsOf value).map (Expr.mapNumbersFields maskBrackets)

namespace Json.RespelledAlike

/-- A value that is neither a list nor an object is its own compact form. -/
theorem of_compact_eq {value : Json} (h : value.compact = value) : value.RespelledAlike := by
  constructor <;> rw [h]

/-- A list is read alike if its items are. -/
theorem list {items : List Json} (h : ∀ item ∈ items, item.RespelledAlike) (source : String) :
    (Json.arr source items).RespelledAlike where
  statement := by
    rw [compact_arr, array, Statement.ofJson, Statement.ofJson] <;> simp
  expr := by
    rw [compact_arr, array, Expr.ofJson, Expr.ofJson] <;> simp
  dot := by
    rw [compact_arr, array, Dot.ofJson, Dot.ofJson] <;> simp
  field := by
    rw [compact_arr, array, readFieldLiteral, readFieldLiteral] <;> simp
  statements := by
    rw [compact_arr, array, statementsOf_arr, statementsOf_arr,
      funext (Statement.mapNumbersAll_eq_map maskBrackets)]
    exact map_mapM_compact fun item hitem => (h item hitem).statement
  exprs := by
    rw [compact_arr, array, exprsOf_arr, exprsOf_arr,
      funext (Expr.mapNumbersAll_eq_map maskBrackets)]
    exact map_mapM_compact fun item hitem => (h item hitem).expr
  dots := by
    rw [compact_arr, array, dotsOf_arr, dotsOf_arr, funext (Dot.mapNumbersAll_eq_map maskBrackets)]
    exact map_mapM_compact fun item hitem => (h item hitem).dot
  fields := by
    rw [compact_arr, array, fieldsOf_arr, fieldsOf_arr,
      funext (Expr.mapNumbersFields_eq_map maskBrackets)]
    exact map_mapM_compact fun item hitem => (h item hitem).field

section Members

variable {members : List (String × Json)}
  (h : ∀ name value, Json.last? name members = some value → value.RespelledAlike)
include h

theorem map_dots :
    (orEmpty (lastDots? (compactMembers members))).map (Dot.mapNumbersAll maskBrackets) =
      (orEmpty (lastDots? members)).map (Dot.mapNumbersAll maskBrackets) := by
  rw [lastDots?_eq, lastDots?_eq]
  exact map_orEmpty_compact fun value hvalue => (h _ value hvalue).dots

theorem map_body :
    (orEmpty (lastBody? (compactMembers members))).map (Statement.mapNumbersAll maskBrackets) =
      (orEmpty (lastBody? members)).map (Statement.mapNumbersAll maskBrackets) := by
  rw [lastBody?_eq, lastBody?_eq]
  exact map_orEmpty_compact fun value hvalue => (h _ value hvalue).statements

theorem map_exprs (field : String) :
    (orEmpty (lastExprs? field (compactMembers members))).map (Expr.mapNumbersAll maskBrackets) =
      (orEmpty (lastExprs? field members)).map (Expr.mapNumbersAll maskBrackets) := by
  rw [lastExprs?_eq, lastExprs?_eq]
  exact map_orEmpty_compact fun value hvalue => (h _ value hvalue).exprs

theorem map_fields :
    (orEmpty (lastFields? (compactMembers members))).map (Expr.mapNumbersFields maskBrackets) =
      (orEmpty (lastFields? members)).map (Expr.mapNumbersFields maskBrackets) := by
  rw [lastFields?_eq, lastFields?_eq]
  exact map_orEmpty_compact fun value hvalue => (h _ value hvalue).fields

theorem map_required (kind field : String) :
    (required kind field (compactMembers members)
        (lastExpr? field (compactMembers members))).map (Expr.mapNumbers maskBrackets) =
      (required kind field members (lastExpr? field members)).map
        (Expr.mapNumbers maskBrackets) :=
  map_required_compact fun value hvalue => (h _ value hvalue).expr

/-- An object is read as a statement alike if its members are. -/
theorem map_statement (source source' : String) :
    (Statement.ofJson (.obj source' (compactMembers members))).map
        (Statement.mapNumbers maskBrackets) =
      (Statement.ofJson (.obj source members)).map (Statement.mapNumbers maskBrackets) := by
  rw [Statement.ofJson, Statement.ofJson, NodeHeader.read_compactMembers]
  cases NodeHeader.read members with
  | none => rfl
  | some header =>
      dsimp only
      split
      · split
        · rfl
        · exact map_bind_eq (map_dots h) fun _ _ heq =>
            congrArg (Except.ok ∘ Statement.reference header.loc header.name) heq
      · split
        · rfl
        · rw [present?_compactMembers]
          cases present? "type" members with
          | none => rfl
          | some document =>
              dsimp only [Option.map_some]
              rw [DataType.ofJson_compact]
              cases DataType.ofJson document with
              | error cause => rfl
              | ok type =>
                  exact map_bind_eq (map_required h _ _) fun _ _ heq =>
                    congrArg (Except.ok ∘ Statement.create header.loc header.name type) heq
      · rw [present?_compactMembers]
        cases present? "value" members with
        | none => rfl
        | some document =>
            exact map_bind_eq (map_required h _ _) fun _ _ heq =>
              congrArg (Except.ok ∘ Statement.ret header.loc ∘ some) heq
      · exact map_bind_eq (map_required h _ _) fun _ _ hcondition =>
          map_bind_eq (map_body h) fun _ _ hbody =>
            congrArg Except.ok (congrArg₂ (Statement.ifThen header.loc) hcondition hbody)
      · exact map_bind_eq (map_required h _ _) fun _ _ hiterable =>
          map_bind_eq (map_body h) fun _ _ hbody =>
            congrArg Except.ok (congrArg₂ (Statement.forIn header.loc header.row) hiterable hbody)
      · rfl

/-- An object is read as an expression alike if its members are. A number in brackets keeps its
spelling, so it must be seen to stand in brackets. -/
theorem map_expr (source source' : String)
    (hdelimited : ∀ value, Json.last? "value" members = some value → value.Delimited) :
    (Expr.ofJson (.obj source' (compactMembers members))).map (Expr.mapNumbers maskBrackets) =
      (Expr.ofJson (.obj source members)).map (Expr.mapNumbers maskBrackets) := by
  rw [Expr.ofJson, Expr.ofJson, NodeHeader.read_compactMembers]
  cases NodeHeader.read members with
  | none => rfl
  | some header =>
      dsimp only
      split
      · split
        · rfl
        · exact map_bind_eq (map_dots h) fun _ _ heq =>
            congrArg (Except.ok ∘ Expr.reference header.loc header.name) heq
      · rw [stringValue?, stringValue?, last?_compactMembers]
        cases last? "value" members with
        | none => rfl
        | some value => cases value <;> rfl
      · have hnumber := map_numberText?_compact hdelimited
        cases hfirst : numberText? (compactMembers members) <;>
          cases hsecond : numberText? members <;>
          simp only [hfirst, hsecond, Option.map_none, Option.map_some, reduceCtorEq,
            Option.some.injEq] at hnumber
        · rfl
        · exact congrArg (Except.ok ∘ Expr.number header.loc) hnumber
      · exact map_bind_eq (map_exprs h _) fun _ _ heq =>
          congrArg (Except.ok ∘ Expr.array header.loc) heq
      · exact map_bind_eq (map_fields h) fun _ _ heq =>
          congrArg (Except.ok ∘ Expr.object header.loc) heq
      · split
        · rfl
        · exact map_bind_eq (map_body h) fun _ _ heq =>
            congrArg (Except.ok ∘ Expr.lambda header.loc header.row) heq
      · rfl

theorem map_dot (source source' : String) :
    (Dot.ofJson (.obj source' (compactMembers members))).map (Dot.mapNumbers maskBrackets) =
      (Dot.ofJson (.obj source members)).map (Dot.mapNumbers maskBrackets) := by
  rw [Dot.ofJson, Dot.ofJson, NodeHeader.read_compactMembers]
  cases NodeHeader.read members with
  | none => rfl
  | some header =>
      dsimp only
      split
      · rfl
      · split
        · rfl
        · exact map_bind_eq (map_exprs h _) fun _ _ heq =>
            congrArg (Except.ok ∘ Dot.method header.loc header.name) heq
        · rfl

theorem map_field (source source' : String) :
    (readFieldLiteral (.obj source' (compactMembers members))).map
        (Prod.map id (Expr.mapNumbers maskBrackets)) =
      (readFieldLiteral (.obj source members)).map
        (Prod.map id (Expr.mapNumbers maskBrackets)) := by
  rw [readFieldLiteral, readFieldLiteral, textMember?_compactMembers, lastExpr?_eq, lastExpr?_eq,
    present?_compactMembers, present?, last?_compactMembers]
  cases hlast : last? "value" members with
  | none => rfl
  | some value =>
      cases value with
      | null => rfl
      | bool | num | str | arr | obj =>
          exact map_bind_eq (h _ _ hlast).expr fun _ _ heq =>
            congrArg (Except.ok ∘ Prod.mk ((textMember? "name" members).getD "")) heq

/-- An object is read alike if its parts are. -/
theorem object (source : String)
    (hdelimited : ∀ value, Json.last? "value" members = some value → value.Delimited) :
    (Json.obj source members).RespelledAlike where
  statement := by
    rw [compact_obj]
    exact map_statement h _ _
  expr := by
    rw [compact_obj]
    exact map_expr h _ _ hdelimited
  dot := by
    rw [compact_obj]
    exact map_dot h _ _
  field := by
    rw [compact_obj]
    exact map_field h _ _
  statements := by
    rw [compact_obj, written, statementsOf, statementsOf] <;> simp
  exprs := by
    rw [compact_obj, written, exprsOf, exprsOf] <;> simp
  dots := by
    rw [compact_obj, written, dotsOf, dotsOf] <;> simp
  fields := by
    rw [compact_obj, written, fieldsOf, fieldsOf] <;> simp

end Members

end Json.RespelledAlike

/-- What was read from a text is read alike without its blanks. -/
theorem Json.Delimited.respelledAlike {value : Json} (h : value.Delimited) :
    value.RespelledAlike := by
  induction h with
  | null | bool | num | str => exact .of_compact_eq rfl
  | arr _ _ ih => exact .list ih _
  | obj _ hvalues ih =>
      refine .object (fun name value hvalue => ?_) _ fun value hvalue => ?_
      · obtain ⟨key, hmem, -⟩ := Json.exists_mem_of_last? hvalue
        exact ih _ hmem
      · obtain ⟨key, hmem, -⟩ := Json.exists_mem_of_last? hvalue
        exact hvalues _ hmem

end StoredProc
