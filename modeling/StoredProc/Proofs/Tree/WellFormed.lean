import StoredProc.Proofs.DataType.Normal
import StoredProc.Proofs.Json.Integers
import StoredProc.Proofs.Tree.Declarations
import StoredProc.Proofs.Tree.Reading

/-! # Well-formed trees

Whatever a document says, a tree that is read from it has names where names are needed,
numbers with a text, types in the form in which types are read, and places within 64 bits.
-/

namespace StoredProc

/-- A place whose numbers have 64 bits. -/
structure Location.InRange (loc : Location) : Prop where
  line : IsInt64 loc.line
  column : IsInt64 loc.column

mutual

/-- An expression that has all its names, its number texts being as given. -/
def Expr.WellFormed (number : String → Prop) : Expr → Prop
  | .reference loc name dots => loc.InRange ∧ name ≠ "" ∧ Dot.WellFormedAll number dots
  | .string loc _ => loc.InRange
  | .number loc text => loc.InRange ∧ number text
  | .array loc elements => loc.InRange ∧ Expr.WellFormedAll number elements
  | .object loc fields => loc.InRange ∧ Expr.WellFormedFields number fields
  | .lambda loc row body => loc.InRange ∧ row ≠ "" ∧ Statement.WellFormedAll number body

def Dot.WellFormed (number : String → Prop) : Dot → Prop
  | .field loc name => loc.InRange ∧ name ≠ ""
  | .method loc name args => loc.InRange ∧ name ≠ "" ∧ Expr.WellFormedAll number args

/-- A statement that has all its names. The row of a loop may go without. -/
def Statement.WellFormed (number : String → Prop) : Statement → Prop
  | .reference loc name dots => loc.InRange ∧ name ≠ "" ∧ Dot.WellFormedAll number dots
  | .create loc name type value =>
    loc.InRange ∧ name ≠ "" ∧ type.Normal ∧ value.WellFormed number
  | .ret loc none => loc.InRange
  | .ret loc (some value) => loc.InRange ∧ value.WellFormed number
  | .ifThen loc condition body =>
    loc.InRange ∧ condition.WellFormed number ∧ Statement.WellFormedAll number body
  | .forIn loc _ iterable body =>
    loc.InRange ∧ iterable.WellFormed number ∧ Statement.WellFormedAll number body

def Expr.WellFormedAll (number : String → Prop) : List Expr → Prop
  | [] => True
  | expr :: rest => expr.WellFormed number ∧ Expr.WellFormedAll number rest

def Expr.WellFormedFields (number : String → Prop) : List (String × Expr) → Prop
  | [] => True
  | (_, value) :: rest => value.WellFormed number ∧ Expr.WellFormedFields number rest

def Dot.WellFormedAll (number : String → Prop) : List Dot → Prop
  | [] => True
  | dot :: rest => dot.WellFormed number ∧ Dot.WellFormedAll number rest

def Statement.WellFormedAll (number : String → Prop) : List Statement → Prop
  | [] => True
  | statement :: rest => statement.WellFormed number ∧ Statement.WellFormedAll number rest

end

/-- A function whose parameter has a name and whose body is well formed. -/
structure Function.WellFormed (number : String → Prop) (f : Function) : Prop where
  loc : f.loc.InRange
  parameter : ∀ parameter ∈ f.parameter, parameter.name ≠ "" ∧ parameter.type.Normal
  result : ∀ type ∈ f.result, type.Normal
  body : Statement.WellFormedAll number f.body

section Lists

variable {number : String → Prop}

theorem Expr.wellFormedAll_iff {exprs : List Expr} :
    Expr.WellFormedAll number exprs ↔ ∀ expr ∈ exprs, expr.WellFormed number := by
  induction exprs with
  | nil => simp [Expr.WellFormedAll]
  | cons expr rest ih => simp [Expr.WellFormedAll, ih]

theorem Expr.wellFormedFields_iff {fields : List (String × Expr)} :
    Expr.WellFormedFields number fields ↔ ∀ field ∈ fields, field.2.WellFormed number := by
  induction fields with
  | nil => simp [Expr.WellFormedFields]
  | cons field rest ih => simp [Expr.WellFormedFields, ih]

theorem Dot.wellFormedAll_iff {dots : List Dot} :
    Dot.WellFormedAll number dots ↔ ∀ dot ∈ dots, dot.WellFormed number := by
  induction dots with
  | nil => simp [Dot.WellFormedAll]
  | cons dot rest ih => simp [Dot.WellFormedAll, ih]

theorem Statement.wellFormedAll_iff {statements : List Statement} :
    Statement.WellFormedAll number statements ↔
      ∀ statement ∈ statements, statement.WellFormed number := by
  induction statements with
  | nil => simp [Statement.WellFormedAll]
  | cons statement rest ih => simp [Statement.WellFormedAll, ih]

end Lists

/-! ## Places -/

/-- What every step of a pass keeps, the pass keeps. -/
theorem foldlM_invariant {α β : Type} {step : β → α → Option β} {kept : β → Prop}
    (hstep : ∀ state item next, kept state → step state item = some next → kept next)
    {items : List α} {start stop : β} (hstart : kept start)
    (h : items.foldlM step start = some stop) : kept stop := by
  induction items generalizing start with
  | nil =>
      cases h
      exact hstart
  | cons item rest ih =>
      rw [List.foldlM_cons, Option.bind_eq_bind, Option.bind_eq_some_iff] at h
      obtain ⟨next, hnext, h⟩ := h
      exact ih (hstep start item next hstart hnext) h

namespace Location

theorem inRange_default : InRange {} := by
  constructor <;> exact ⟨by decide, by decide⟩

/-- Numbers that are read into a place have 64 bits. -/
theorem inRange_of_readMembers {start stop : Location} {members : List (String × Json)}
    (hstart : start.InRange) (h : start.readMembers members = some stop) : stop.InRange := by
  refine foldlM_invariant (fun loc member next hloc hnext => ?_) hstart h
  dsimp only at hnext
  split at hnext
  · cases hnext
    exact hloc
  · split at hnext
    · obtain ⟨file, -, rfl⟩ := Option.map_eq_some_iff.mp hnext
      exact ⟨hloc.line, hloc.column⟩
    · split at hnext
      · obtain ⟨line, hline, rfl⟩ := Option.map_eq_some_iff.mp hnext
        exact ⟨Json.isInt64_of_int64? hline, hloc.column⟩
      · split at hnext
        · obtain ⟨column, hcolumn, rfl⟩ := Option.map_eq_some_iff.mp hnext
          exact ⟨hloc.line, Json.isInt64_of_int64? hcolumn⟩
        · cases hnext
          exact hloc

/-- A place that is read has numbers of 64 bits. -/
theorem inRange_of_ofMembers {loc : Location} {members : List (String × Json)}
    (h : ofMembers members = some loc) : loc.InRange := by
  rw [ofMembers_eq] at h
  refine foldlM_invariant (fun loc member next hloc hnext => ?_) inRange_default h
  split at hnext
  · unfold readParts at hnext
    split at hnext
    · cases hnext
      exact hloc
    · split at hnext
      · exact inRange_of_readMembers hloc hnext
      · cases hnext
    · cases hnext
  · cases hnext
    exact hloc

end Location

theorem NodeHeader.inRange_of_read {members : List (String × Json)} {header : NodeHeader}
    (h : NodeHeader.read members = some header) : header.loc.InRange := by
  simp only [NodeHeader.read, Option.bind_eq_bind, Option.bind_eq_some_iff] at h
  obtain ⟨-, -, -, -, -, -, kind, -, name, -, row, -, loc, hloc, heq⟩ := h
  obtain rfl := Option.some.inj heq
  exact Location.inRange_of_ofMembers hloc

/-! ## Nodes -/

/-- The text of a number that is read: there is one, and it is not that of no value. -/
def IsNumberText (text : String) : Prop := text ≠ "" ∧ text ≠ "null"

/-- The text of a number is neither empty nor `null`. -/
theorem isNumberText_of_numberText? {members : List (String × Json)} {text : String}
    (h : numberText? members = some text) : IsNumberText text := by
  unfold numberText? at h
  dsimp only at h
  split at h
  next => cases h
  next hnot =>
    cases h
    exact not_or.mp hnot

theorem ne_of_not_isEmpty {name : String} (h : ¬name.isEmpty = true) : name ≠ "" := by
  rintro rfl
  exact h rfl

section Results

variable {ε α β : Type} {good : β → Prop}

/-- What holds of each result holds of all. -/
theorem forall_of_mapM {read : α → Except ε β} {items : List α} {results : List β}
    (h : items.mapM read = .ok results)
    (hread : ∀ item ∈ items, ∀ result, read item = .ok result → good result) :
    ∀ result ∈ results, good result := by
  induction items generalizing results with
  | nil =>
      cases h
      simp
  | cons item rest ih =>
      rw [List.forall_mem_cons] at hread
      rw [List.mapM_cons] at h
      obtain ⟨result, hresult, h⟩ := bind_ok_iff.mp h
      obtain ⟨others, hothers, h⟩ := bind_ok_iff.mp h
      cases h
      exact List.forall_mem_cons.mpr ⟨hread.1 result hresult, ih hothers hread.2⟩

/-- A list that may be left out is as good as the empty list, or as what is read. -/
theorem of_orEmpty {field : String} {members : List (String × Json)}
    {read : Json → Except NodeError (List β)} {good : List β → Prop} (hnil : good [])
    (hread : ∀ value, Json.last? field members = some value →
      ∀ results, read value = .ok results → good results)
    {results : List β} (h : orEmpty ((Json.last? field members).map read) = .ok results) :
    good results := by
  cases hlast : Json.last? field members with
  | none =>
      rw [hlast] at h
      cases h
      exact hnil
  | some value =>
      rw [hlast] at h
      exact hread value hlast results h

/-- A part that a node needs is read from its last member. -/
theorem exists_last?_of_required {kind field : String} {members : List (String × Json)}
    {expr : Expr}
    (h : required kind field members (lastExpr? field members) = .ok expr) :
    ∃ value, Json.last? field members = some value ∧ Expr.ofJson value = .ok expr := by
  unfold required at h
  rw [lastExpr?_eq] at h
  cases hlast : Json.last? field members with
  | none =>
      rw [hlast, Option.map_none] at h
      split at h
      next heq => cases heq
      next => cases h
  | some value =>
      rw [hlast, Option.map_some] at h
      split at h
      next heq =>
        cases heq
        exact ⟨value, rfl, h⟩
      next => cases h

end Results

/-- What every reader of nodes gives for a value is well formed. -/
structure Json.GivesWellFormed (value : Json) : Prop where
  statement : ∀ statement, Statement.ofJson value = .ok statement →
    statement.WellFormed IsNumberText
  expr : ∀ expr, Expr.ofJson value = .ok expr → expr.WellFormed IsNumberText
  dot : ∀ dot, Dot.ofJson value = .ok dot → dot.WellFormed IsNumberText
  field : ∀ field, readFieldLiteral value = .ok field → field.2.WellFormed IsNumberText
  statements : ∀ statements, statementsOf value = .ok statements →
    Statement.WellFormedAll IsNumberText statements
  exprs : ∀ exprs, exprsOf value = .ok exprs → Expr.WellFormedAll IsNumberText exprs
  dots : ∀ dots, dotsOf value = .ok dots → Dot.WellFormedAll IsNumberText dots
  fields : ∀ fields, fieldsOf value = .ok fields → Expr.WellFormedFields IsNumberText fields

namespace Json.GivesWellFormed

/-- A value that is no node and no list gives nothing. -/
theorem scalar {value : Json} (hlist : ∀ source items, value ≠ .arr source items)
    (hobject : ∀ source members, value ≠ .obj source members) : value.GivesWellFormed := by
  cases value with
  | arr source items => exact absurd rfl (hlist source items)
  | obj source members => exact absurd rfl (hobject source members)
  | null | bool | num | str =>
      constructor <;> intro result h <;> cases h <;> trivial

/-- A list gives what is well formed if its items do. -/
theorem list {items : List Json} (h : ∀ item ∈ items, item.GivesWellFormed) (source : String) :
    (Json.arr source items).GivesWellFormed where
  statement _ hread := by
    cases hread
  expr _ hread := by
    cases hread
  dot _ hread := by
    cases hread
  field _ hread := by
    cases hread
  statements _ hread := by
    rw [statementsOf_arr] at hread
    exact Statement.wellFormedAll_iff.mpr
      (forall_of_mapM hread fun item hitem => (h item hitem).statement)
  exprs _ hread := by
    rw [exprsOf_arr] at hread
    exact Expr.wellFormedAll_iff.mpr (forall_of_mapM hread fun item hitem => (h item hitem).expr)
  dots _ hread := by
    rw [dotsOf_arr] at hread
    exact Dot.wellFormedAll_iff.mpr (forall_of_mapM hread fun item hitem => (h item hitem).dot)
  fields _ hread := by
    rw [fieldsOf_arr] at hread
    exact Expr.wellFormedFields_iff.mpr
      (forall_of_mapM hread fun item hitem => (h item hitem).field)

section Members

variable {members : List (String × Json)}
  (h : ∀ name value, Json.last? name members = some value → value.GivesWellFormed)
include h

theorem of_dots {dots : List Dot} (hread : orEmpty (lastDots? members) = .ok dots) :
    Dot.WellFormedAll IsNumberText dots := by
  rw [lastDots?_eq] at hread
  exact of_orEmpty trivial (fun value hvalue => (h _ value hvalue).dots) hread

theorem of_body {body : List Statement} (hread : orEmpty (lastBody? members) = .ok body) :
    Statement.WellFormedAll IsNumberText body := by
  rw [lastBody?_eq] at hread
  exact of_orEmpty trivial (fun value hvalue => (h _ value hvalue).statements) hread

theorem of_exprs {field : String} {exprs : List Expr}
    (hread : orEmpty (lastExprs? field members) = .ok exprs) :
    Expr.WellFormedAll IsNumberText exprs := by
  rw [lastExprs?_eq] at hread
  exact of_orEmpty trivial (fun value hvalue => (h _ value hvalue).exprs) hread

theorem of_fields {fields : List (String × Expr)}
    (hread : orEmpty (lastFields? members) = .ok fields) :
    Expr.WellFormedFields IsNumberText fields := by
  rw [lastFields?_eq] at hread
  exact of_orEmpty trivial (fun value hvalue => (h _ value hvalue).fields) hread

theorem of_required {kind field : String} {expr : Expr}
    (hread : required kind field members (lastExpr? field members) = .ok expr) :
    expr.WellFormed IsNumberText := by
  obtain ⟨value, hvalue, hexpr⟩ := exists_last?_of_required hread
  exact (h field value hvalue).expr expr hexpr

/-- Each kind of statement is read with its name, and from parts that are well formed. -/
theorem statement_obj {source : String} {statement : Statement}
    (hread : Statement.ofJson (.obj source members) = .ok statement) :
    statement.WellFormed IsNumberText := by
  rw [Statement.ofJson] at hread
  split at hread
  next => cases hread
  next header hheader =>
    have hloc := NodeHeader.inRange_of_read hheader
    split at hread
    next =>
      split at hread
      next => cases hread
      next hname =>
        obtain ⟨dots, hdots, hread⟩ := bind_ok_iff.mp hread
        cases hread
        exact ⟨hloc, ne_of_not_isEmpty hname, of_dots h hdots⟩
    next =>
      split at hread
      next => cases hread
      next hname =>
        split at hread
        next => cases hread
        next document _ =>
          split at hread
          next => cases hread
          next type htype =>
            obtain ⟨value, hvalue, hread⟩ := bind_ok_iff.mp hread
            cases hread
            exact ⟨hloc, ne_of_not_isEmpty hname, DataType.normal_of_ofJson htype,
              of_required h hvalue⟩
    next =>
      split at hread
      next =>
        cases hread
        exact hloc
      next =>
        obtain ⟨value, hvalue, hread⟩ := bind_ok_iff.mp hread
        cases hread
        exact ⟨hloc, of_required h hvalue⟩
    next =>
      obtain ⟨condition, hcondition, hread⟩ := bind_ok_iff.mp hread
      obtain ⟨body, hbody, hread⟩ := bind_ok_iff.mp hread
      cases hread
      exact ⟨hloc, of_required h hcondition, of_body h hbody⟩
    next =>
      obtain ⟨iterable, hiterable, hread⟩ := bind_ok_iff.mp hread
      obtain ⟨body, hbody, hread⟩ := bind_ok_iff.mp hread
      cases hread
      exact ⟨hloc, of_required h hiterable, of_body h hbody⟩
    next => cases hread

/-- Each kind of expression is read with its name, and from parts that are well formed. -/
theorem expr_obj {source : String} {expr : Expr}
    (hread : Expr.ofJson (.obj source members) = .ok expr) : expr.WellFormed IsNumberText := by
  rw [Expr.ofJson] at hread
  split at hread
  next => cases hread
  next header hheader =>
    have hloc := NodeHeader.inRange_of_read hheader
    split at hread
    next =>
      split at hread
      next => cases hread
      next hname =>
        obtain ⟨dots, hdots, hread⟩ := bind_ok_iff.mp hread
        cases hread
        exact ⟨hloc, ne_of_not_isEmpty hname, of_dots h hdots⟩
    next =>
      split at hread
      next => cases hread
      next =>
        cases hread
        exact hloc
    next =>
      split at hread
      next => cases hread
      next text htext =>
        cases hread
        exact ⟨hloc, isNumberText_of_numberText? htext⟩
    next =>
      obtain ⟨elements, helements, hread⟩ := bind_ok_iff.mp hread
      cases hread
      exact ⟨hloc, of_exprs h helements⟩
    next =>
      obtain ⟨fields, hfields, hread⟩ := bind_ok_iff.mp hread
      cases hread
      exact ⟨hloc, of_fields h hfields⟩
    next =>
      split at hread
      next => cases hread
      next hrow =>
        obtain ⟨body, hbody, hread⟩ := bind_ok_iff.mp hread
        cases hread
        exact ⟨hloc, ne_of_not_isEmpty hrow, of_body h hbody⟩
    next => cases hread

/-- Each kind of link is read with its name, and from parts that are well formed. -/
theorem dot_obj {source : String} {dot : Dot} (hread : Dot.ofJson (.obj source members) = .ok dot) :
    dot.WellFormed IsNumberText := by
  rw [Dot.ofJson] at hread
  split at hread
  next => cases hread
  next header hheader =>
    have hloc := NodeHeader.inRange_of_read hheader
    split at hread
    next => cases hread
    next hname =>
      split at hread
      next =>
        cases hread
        exact ⟨hloc, ne_of_not_isEmpty hname⟩
      next =>
        obtain ⟨args, hargs, hread⟩ := bind_ok_iff.mp hread
        cases hread
        exact ⟨hloc, ne_of_not_isEmpty hname, of_exprs h hargs⟩
      next => cases hread

/-- A field is read with a value that is well formed. -/
theorem field_obj {source : String} {field : String × Expr}
    (hread : readFieldLiteral (.obj source members) = .ok field) :
    field.2.WellFormed IsNumberText := by
  rw [readFieldLiteral, lastExpr?_eq] at hread
  cases hlast : Json.last? "value" members with
  | none =>
      rw [Json.present?, hlast] at hread
      cases hread
  | some value =>
      rw [Json.present?, hlast, Option.map_some] at hread
      cases value with
      | null => cases hread
      | bool | num | str | arr | obj =>
          obtain ⟨expr, hexpr, hread⟩ := bind_ok_iff.mp hread
          cases hread
          exact (h _ _ hlast).expr expr hexpr

/-- An object gives what is well formed if its members do. -/
theorem object (source : String) : (Json.obj source members).GivesWellFormed where
  statement _ := statement_obj h
  expr _ := expr_obj h
  dot _ := dot_obj h
  field _ := field_obj h
  statements _ hread := by
    rw [statementsOf] at hread
    · cases hread
      trivial
    · simp
  exprs _ hread := by
    rw [exprsOf] at hread
    · cases hread
      trivial
    · simp
  dots _ hread := by
    rw [dotsOf] at hread
    · cases hread
      trivial
    · simp
  fields _ hread := by
    rw [fieldsOf] at hread
    · cases hread
      trivial
    · simp

end Members

end Json.GivesWellFormed

/-- Only well-formed trees are read. -/
theorem Json.givesWellFormed (value : Json) : value.GivesWellFormed := by
  induction value using Json.inductionOn with
  | null | bool | num | str => exact .scalar (by simp) (by simp)
  | arr source items ih => exact .list ih source
  | obj source members ih =>
      refine .object (fun name value hvalue => ?_) source
      obtain ⟨key, hmem, -⟩ := Json.exists_mem_of_last? hvalue
      exact ih _ hmem

/-! ## Functions -/

namespace Function

/-- A type that is read is in the form in which types are read. -/
theorem normal_of_optionalType {document : Option Json} {found : Option DataType}
    (h : optionalType document = .ok found) : ∀ type ∈ found, type.Normal := by
  unfold optionalType at h
  split at h
  next =>
    cases h
    simp
  next =>
    cases h
    simp
  next document _ =>
    obtain ⟨type, htype, rfl⟩ := map_ok_iff.mp h
    simpa using DataType.normal_of_ofJson htype

/-- A function whose members are read is well formed. -/
theorem wellFormed_of_ofMembers {members : List (String × Json)} {f : Function}
    (h : ofMembers members = .ok f) : f.WellFormed IsNumberText := by
  obtain ⟨document, hheader, hdeclares, hresult, hbody⟩ := exists_header_of_ofMembers h
  obtain ⟨-, -, hloc⟩ := of_readHeader hheader
  refine ⟨Location.inRange_of_ofMembers hloc, ?_, normal_of_optionalType hresult,
    Json.GivesWellFormed.of_body (fun _ value _ => value.givesWellFormed) hbody⟩
  intro parameter hparameter
  rw [Option.mem_def] at hparameter
  rw [hparameter] at hdeclares
  cases hdeclares with
  | @some document type hname htype =>
      refine ⟨ne_of_not_isEmpty (by simp [hname]), ?_⟩
      cases type with
      | none => exact .any
      | some type => exact normal_of_optionalType htype type rfl

theorem wellFormed_of_ofJson {document : Json} {f : Function} (h : ofJson document = .ok f) :
    f.WellFormed IsNumberText := by
  cases document with
  | null =>
      have hempty : ofMembers [] = .ok f := h
      exact wellFormed_of_ofMembers hempty
  | obj source members => exact wellFormed_of_ofMembers h
  | bool | num | str | arr => cases h

end Function

end StoredProc
