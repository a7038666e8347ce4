import StoredProc.Compile.Expression

/-! # Elaboration of expressions

The rules by which expressions become code, one for every form that is accepted.
A rule says what it needs of the scope, of the manifest and of the target, and
which code it gives. Every expression that the compiler accepts has a derivation,
so properties of accepted expressions are proved by induction on the rules.
-/

namespace StoredProc

/-- A computation in two parts succeeds when both parts do. -/
theorem bind_ok_iff {ε α β : Type} {first : Except ε α} {next : α → Except ε β} {result : β} :
    (first >>= next) = .ok result ↔ ∃ value, first = .ok value ∧ next value = .ok result := by
  cases first with
  | error fault => simp [bind, Except.bind]
  | ok value => simp [bind, Except.bind]

@[simp]
theorem faultAt_ne_ok {α : Type} (loc : Location) (fault : Fault) (value : α) :
    (faultAt loc fault : Except LocatedFault α) ≠ .ok value := by
  simp [faultAt]

/-! ## Rules -/

/-- A part of an expression, with what is expected of it and what is known of it
afterwards: a value, the elements of an array, the fields of an object, records to
insert, the chain behind a value, and the chain that leads to an array in a row. -/
inductive Part where
  | value (target : DataType) (expr : Expr) (type : DataType)
  | elements (elem : DataType) (exprs : List Expr)
  | fields (expected : Option Fields) (entries : List (String × Expr)) (types : Fields)
  | records (store : String) (schema : Fields) (exprs : List Expr)
  | chain (current : DataType) (dots : List Dot) (type : DataType)
  | change (current : DataType) (dots : List Dot) (path : List String)

/-- The code of the parts of expressions. -/
inductive Elaborates (m : Manifest) (scope : Scope) : Part → Code → Prop
  -- Names: variables come before stores.
  | ofVariable {target type : DataType} {loc : Location} {name : String} {dots : List Dot}
      {held : Variable} {code : Code} (hheld : scope.get? name = some held)
      (hsome : target.isNothing = false)
      (hchain : Elaborates m scope (.chain held.type dots type) code)
      (hfits : target.compatible type = true) :
      Elaborates m scope (.value target (.reference loc name dots) type)
        (.copyFromHeap held.slot :: code)
  | all {target : DataType} {loc : Location} {name : String} {schema : Fields}
      (hfree : scope.get? name = none) (hstore : m.store? name = some schema)
      (hfits : target.compatible (.array (.object schema)) = true) :
      Elaborates m scope (.value target (.reference loc name []) (.array (.object schema)))
        [.getAll name]
  | append {loc methodLoc : Location} {name : String} {schema : Fields} {args : List Expr}
      {code : Code} (hfree : scope.get? name = none) (hstore : m.store? name = some schema)
      (hrecords : Elaborates m scope (.records name schema args) code) :
      Elaborates m scope
        (.value .any (.reference loc name [.method methodLoc "append" args]) (.array (.ref name)))
        code
  | count {target : DataType} {loc methodLoc : Location} {name : String} {schema : Fields}
      (hfree : scope.get? name = none) (hstore : m.store? name = some schema)
      (hfits : target.compatible .int = true) :
      Elaborates m scope (.value target (.reference loc name [.method methodLoc "len" []]) .int)
        [.storeLen name]
  | rows {target : DataType} {loc methodLoc lambdaLoc returnLoc rowLoc : Location}
      {name row : String} {schema : Fields} (hfree : scope.get? name = none)
      (hstore : m.store? name = some schema)
      (hfits : target.compatible (.array (.object schema)) = true) :
      Elaborates m scope
        (.value target
          (.reference loc name [.method methodLoc "select"
            [.lambda lambdaLoc row [.ret returnLoc (some (.reference rowLoc row []))]]])
          (.array (.object schema)))
        [.getAll name]
  | pointers {target : DataType} {loc methodLoc lambdaLoc returnLoc rowLoc refLoc : Location}
      {name row : String} {schema : Fields} (hfree : scope.get? name = none)
      (hstore : m.store? name = some schema)
      (hfits : target.compatible (.array (.ref name)) = true) :
      Elaborates m scope
        (.value target
          (.reference loc name [.method methodLoc "select"
            [.lambda lambdaLoc row
              [.ret returnLoc (some (.reference rowLoc row [.method refLoc "ref" []]))]]])
          (.array (.ref name)))
        [.query name (schema.map Prod.fst)]
  -- Literals: without an expected type the parts have none either.
  | text {target : DataType} {loc : Location} {value : String}
      (hfits : target.compatible .string = true) :
      Elaborates m scope (.value target (.string loc value) .string) [.text value]
  | int {target : DataType} {loc : Location} {text : String} {value : Int}
      (hfits : target.compatible .int = true) (hread : readInt64? text = some value) :
      Elaborates m scope (.value target (.number loc text) .int) [.int value]
  | double {target : DataType} {loc : Location} {text : String} {value : Double}
      (hfits : target.compatible .double = true) (hread : Double.read? text = some value)
      (hfinite : value.isFinite = true) :
      Elaborates m scope (.value target (.number loc text) .double) [.double value]
  | array {elem : DataType} {loc : Location} {exprs : List Expr} {code : Code}
      (helements : Elaborates m scope (.elements elem exprs) code) :
      Elaborates m scope (.value (.array elem) (.array loc exprs) (.array elem)) (.newArray :: code)
  | openArray {loc : Location} {exprs : List Expr} {code : Code}
      (helements : Elaborates m scope (.elements .any exprs) code) :
      Elaborates m scope (.value .any (.array loc exprs) (.array .any)) (.newArray :: code)
  | object {expected types : Fields} {loc : Location} {entries : List (String × Expr)} {code : Code}
      (hnodup : (entries.map Prod.fst).Nodup)
      (hexpected : ∀ name ∈ entries.map Prod.fst, (DataType.field? expected name).isSome = true)
      (hcomplete : ∀ name ∈ expected.map Prod.fst, name ∈ entries.map Prod.fst)
      (hfields : Elaborates m scope (.fields (some expected) entries types) code) :
      Elaborates m scope (.value (.object expected) (.object loc entries) (.object expected))
        (.newObject :: code)
  | openObject {types : Fields} {loc : Location} {entries : List (String × Expr)} {code : Code}
      (hnodup : (entries.map Prod.fst).Nodup)
      (hfields : Elaborates m scope (.fields none entries types) code) :
      Elaborates m scope (.value .any (.object loc entries) (.ofFields types)) (.newObject :: code)
  -- Lists of values.
  | noElements {elem : DataType} : Elaborates m scope (.elements elem []) []
  | element {elem type : DataType} {expr : Expr} {rest : List Expr} {value code : Code}
      (hvalue : Elaborates m scope (.value elem expr type) value)
      (hrest : Elaborates m scope (.elements elem rest) code) :
      Elaborates m scope (.elements elem (expr :: rest)) (value ++ .arrayPush :: code)
  | noFields {expected : Option Fields} : Elaborates m scope (.fields expected [] []) []
  | field {expected : Option Fields} {type : DataType} {types : Fields} {name : String}
      {expr : Expr} {rest : List (String × Expr)} {value code : Code}
      (hvalue : Elaborates m scope (.value (Expr.fieldTarget expected name) expr type) value)
      (hrest : Elaborates m scope (.fields expected rest types) code) :
      Elaborates m scope (.fields expected ((name, expr) :: rest) ((name, type) :: types))
        (.text name :: value ++ .setField 1 :: code)
  | noRecords {store : String} {schema : Fields} : Elaborates m scope (.records store schema []) []
  | record {store : String} {schema : Fields} {type : DataType} {expr : Expr} {rest : List Expr}
      {value code : Code} (hvalue : Elaborates m scope (.value (.object schema) expr type) value)
      (hrest : Elaborates m scope (.records store schema rest) code) :
      Elaborates m scope (.records store schema (expr :: rest)) (value ++ .insert store :: code)
  -- Chains: fields of objects, methods of pointers, and the length of arrays.
  | stop {current : DataType} : Elaborates m scope (.chain current [] current) []
  | access {fields : Fields} {next type : DataType} {loc : Location} {name : String}
      {rest : List Dot} {code : Code} (hfield : DataType.field? fields name = some next)
      (hrest : Elaborates m scope (.chain next rest type) code) :
      Elaborates m scope (.chain (.object fields) (.field loc name :: rest) type)
        (.text name :: .getField 1 :: code)
  | delete {store : String} {schema : Fields} {type : DataType} {loc : Location} {rest : List Dot}
      {code : Code} (hstore : m.store? store = some schema)
      (hrest : Elaborates m scope (.chain .bool rest type) code) :
      Elaborates m scope (.chain (.ref store) (.method loc "delete" [] :: rest) type)
        (.deleteOne store :: code)
  | find {store : String} {schema : Fields} {type : DataType} {loc : Location} {rest : List Dot}
      {code : Code} (hstore : m.store? store = some schema)
      (hrest : Elaborates m scope (.chain (.optional (.object schema)) rest type) code) :
      Elaborates m scope (.chain (.ref store) (.method loc "deref" [] :: rest) type)
        (.findOne store [Instruction.idField] :: code)
  | update {store row : String} {schema : Fields} {type : DataType}
      {loc lambdaLoc changeLoc returnLoc rowLoc : Location} {dots rest : List Dot}
      {path : List String} {value code : Code} (hstore : m.store? store = some schema)
      (hlength : 2 ≤ dots.length)
      (hchange : Elaborates m scope (.change (.object schema) dots path) value)
      (hrest : Elaborates m scope (.chain (.optional (.object schema)) rest type) code) :
      Elaborates m scope
        (.chain (.ref store)
          (.method loc "deref" [.lambda lambdaLoc row [.reference changeLoc row dots,
            .ret returnLoc (some (.reference rowLoc row []))]] :: rest)
          type)
        (.newPush :: value ++ .pushAt path :: .updateOne store :: code)
  | length {elem type : DataType} {loc : Location} {rest : List Dot} {code : Code}
      (hrest : Elaborates m scope (.chain .int rest type) code) :
      Elaborates m scope (.chain (.array elem) (.method loc "len" [] :: rest) type)
        (.arrayLen :: code)
  | push {elem type : DataType} {loc : Location} {expr : Expr} {code : Code}
      (hvalue : Elaborates m scope (.value elem expr type) code) :
      Elaborates m scope (.change (.array elem) [.method loc "append" [expr]] []) code
  | descend {fields : Fields} {next : DataType} {loc : Location} {name : String} {rest : List Dot}
      {path : List String} {code : Code} (hfield : DataType.field? fields name = some next)
      (hrest : Elaborates m scope (.change next rest path) code) :
      Elaborates m scope (.change (.object fields) (.field loc name :: rest) (name :: path)) code

/-! ## Checks that have passed -/

namespace Expr

variable {m : Manifest} {scope : Scope} {target : DataType} {loc : Location}

theorem checked_eq_ok {type : DataType} {code : Code} {result : TypedCode}
    (h : checked loc target code type = .ok result) :
    result = (code, type) ∧ target.compatible type = true := by
  unfold checked at h
  split at h
  next hfits => exact ⟨(Except.ok.inj h).symm, hfits⟩
  next => simp at h

/-- The body of a selection is the row itself, or a pointer to it. -/
theorem selectionOfDots_eq_ok {dots : List Dot} {chosen : Selection}
    (h : selectionOfDots dots = .ok chosen) :
    chosen = .rows ∧ dots = [] ∨
      chosen = .pointers ∧ ∃ refLoc rest, dots = .method refLoc "ref" [] :: rest := by
  unfold selectionOfDots at h
  split at h
  next => exact Or.inl ⟨(Except.ok.inj h).symm, rfl⟩
  next => simp at h
  next refLoc name args rest =>
    split at h
    next => simp at h
    next hname =>
      split at h
      next hargs =>
        obtain rfl : args = [] := List.isEmpty_iff.mp hargs
        obtain rfl : name = "ref" := by simpa using hname
        exact Or.inr ⟨(Except.ok.inj h).symm, refLoc, rest, rfl⟩
      next => simp at h

/-- The two forms of functions that select. -/
theorem selection_eq_ok {args : List Expr} {chosen : Selection}
    (h : selection target loc args = .ok chosen) :
    ∃ lambdaLoc row returnLoc rowLoc dots,
      args = [.lambda lambdaLoc row [.ret returnLoc (some (.reference rowLoc row dots))]] ∧
        (chosen = .rows ∧ dots = [] ∨
          chosen = .pointers ∧ ∃ refLoc, dots = [.method refLoc "ref" []]) := by
  unfold selection at h
  split at h
  next arg =>
    split at h
    next => simp at h
    next =>
      split at h
      next lambdaLoc row body =>
        unfold selectionOfBody at h
        split at h
        next returnLoc rowLoc name dots =>
          split at h
          next hrow =>
            simp only [Bool.and_eq_true, decide_eq_true_eq] at hrow
            obtain ⟨rfl, hlength⟩ := hrow
            refine ⟨lambdaLoc, name, returnLoc, rowLoc, dots, rfl, ?_⟩
            rcases selectionOfDots_eq_ok h with hrows | ⟨rfl, refLoc, rest, rfl⟩
            · exact Or.inl hrows
            · obtain rfl : rest = [] := by simpa using hlength
              exact Or.inr ⟨rfl, refLoc, rfl⟩
          next => simp at h
        all_goals simp at h
      next => simp at h
  next => simp at h

/-- Names that pass the check are distinct, new, and expected. -/
theorem checkNames_eq_ok {expected : Option Fields} {names seen : List String}
    (h : checkNames expected loc seen names = .ok ()) :
    names.Nodup ∧ (∀ name ∈ names, name ∉ seen) ∧
      ∀ name ∈ names, expectsField expected name = true := by
  induction names generalizing seen with
  | nil => simp
  | cons name rest ih =>
      unfold checkNames at h
      split at h
      next => simp at h
      next hseen =>
        split at h
        next hexpected =>
          obtain ⟨hnodup, hfresh, hrest⟩ := ih h
          have hnot : name ∉ rest := fun hmem => hfresh name hmem List.mem_cons_self
          refine ⟨List.nodup_cons.mpr ⟨hnot, hnodup⟩, ?_, ?_⟩
          · intro other hmem
            rcases List.mem_cons.mp hmem with rfl | hmem
            · simpa using hseen
            · exact fun hold => hfresh other hmem (List.mem_cons_of_mem _ hold)
          · intro other hmem
            rcases List.mem_cons.mp hmem with rfl | hmem
            · exact hexpected
            · exact hrest other hmem
        next => simp at h

theorem checkMissing_eq_ok {expected : Option Fields} {names : List String}
    (h : checkMissing expected loc names = .ok ()) :
    ∀ name ∈ (expected.getD []).map Prod.fst, name ∈ names := by
  unfold checkMissing at h
  split at h
  next => simp at h
  next hnone =>
    intro name hmem
    simpa using List.find?_eq_none.mp hnone name hmem

theorem returnsRow_eq_true {row : String} {last : Statement} (h : returnsRow row last = true) :
    ∃ returnLoc rowLoc, last = .ret returnLoc (some (.reference rowLoc row [])) := by
  unfold returnsRow at h
  split at h
  next returnLoc rowLoc name =>
    obtain rfl : name = row := by simpa using h
    exact ⟨returnLoc, rowLoc, rfl⟩
  next => cases h

/-- A change of a row ends with a call of `append`. -/
theorem checkAppend_eq_ok {dots : List Dot} (h : checkAppend loc dots = .ok ()) :
    ∃ methodLoc args, dots.getLast? = some (.method methodLoc "append" args) := by
  unfold checkAppend at h
  split at h
  next methodLoc name args hlast =>
    split at h
    next hname =>
      simp only [Bool.and_eq_true, decide_eq_true_eq] at hname
      exact ⟨methodLoc, args, hname.1 ▸ hlast⟩
    next => simp at h
  next => simp at h
  next => simp at h

/-- Fields are found in objects only, and their code is the name and an access. -/
theorem fieldCode_eq_ok {current : DataType} {name : String} {result : TypedCode}
    (h : fieldCode current loc name = .ok result) :
    ∃ fields type, current = .object fields ∧ DataType.field? fields name = some type ∧
      result = ([.text name, .getField 1], type) := by
  unfold fieldCode at h
  split at h
  next fields =>
    split at h
    next type hfield => exact ⟨fields, type, rfl, hfield, (Except.ok.inj h).symm⟩
    next => simp at h
  next => simp at h

/-- The body of a function that changes its row appends to the row and returns it. -/
theorem mutationCode_eq_ok {row : String} {schema : Fields} {body : List Statement}
    {path : List String} {code : Code}
    (h : mutationCode m scope loc row schema body = .ok (path, code)) :
    ∃ changeLoc dots returnLoc rowLoc,
      body = [.reference changeLoc row dots, .ret returnLoc (some (.reference rowLoc row []))] ∧
        2 ≤ dots.length ∧ checkAppend changeLoc dots = .ok () ∧
        appendCode m scope (.object schema) changeLoc dots = .ok (path, code) := by
  unfold mutationCode at h
  split at h
  next first last =>
    split at h
    next hlast =>
      split at h
      next changeLoc name dots =>
        split at h
        next hrow =>
          simp only [Bool.and_eq_true, decide_eq_true_eq] at hrow
          obtain ⟨rfl, hlength⟩ := hrow
          obtain ⟨⟨⟩, happend, h⟩ := bind_ok_iff.mp h
          obtain ⟨returnLoc, rowLoc, rfl⟩ := returnsRow_eq_true hlast
          exact ⟨changeLoc, dots, returnLoc, rowLoc, rfl, hlength, happend, h⟩
        next => simp at h
      next => simp at h
    next => simp at h
  next => simp at h

/-! ## Accepted expressions -/

/-- A string literal elaborates where the target takes texts. -/
theorem elaborates_of_stringCode {value : String} {code : Code} {type : DataType}
    (h : stringCode target loc value = .ok (code, type)) :
    Elaborates m scope (.value target (.string loc value) type) code := by
  unfold stringCode at h
  split at h
  · cases h
    exact .text rfl
  · cases h
    exact .text rfl
  · simp at h

theorem intCode_eq_ok_iff {text : String} {result : TypedCode} :
    intCode loc text = .ok result ↔
      ∃ value, readInt64? text = some value ∧ result = ([.int value], .int) := by
  unfold intCode
  split
  next value hread => simp [hread, eq_comm]
  next hread => simp [hread]

/-- A decimal literal has code exactly if it is read as a finite double. -/
theorem doubleCode_eq_ok_iff {text : String} {result : TypedCode} :
    doubleCode loc text = .ok result ↔
      ∃ value, Double.read? text = some value ∧ value.isFinite = true ∧
        result = ([.double value], .double) := by
  unfold doubleCode
  split
  next value hread =>
    rw [hread]
    by_cases hfinite : value.isFinite = true
    · rw [if_pos hfinite]
      constructor
      · rintro ⟨⟩
        exact ⟨value, rfl, hfinite, rfl⟩
      · rintro ⟨_, ⟨⟩, -, rfl⟩
        rfl
    · rw [if_neg hfinite]
      constructor
      · intro h
        simp at h
      · rintro ⟨_, ⟨⟩, hvalue, -⟩
        exact absurd hvalue hfinite
  next hread => simp [hread]

theorem elaborates_of_intCode {text : String} {code : Code} {type : DataType}
    (h : intCode loc text = .ok (code, type)) (hfits : target.compatible .int = true) :
    Elaborates m scope (.value target (.number loc text) type) code := by
  obtain ⟨value, hread, heq⟩ := intCode_eq_ok_iff.mp h
  cases heq
  exact .int hfits hread

theorem elaborates_of_doubleCode {text : String} {code : Code} {type : DataType}
    (h : doubleCode loc text = .ok (code, type)) (hfits : target.compatible .double = true) :
    Elaborates m scope (.value target (.number loc text) type) code := by
  obtain ⟨value, hread, hfinite, heq⟩ := doubleCode_eq_ok_iff.mp h
  cases heq
  exact .double hfits hread hfinite

/-- A number is taken for an integer or a double as the target wants it, and elaborates as
that. -/
theorem elaborates_of_numberCode {text : String} {code : Code} {type : DataType}
    (h : numberCode target loc text = .ok (code, type)) :
    Elaborates m scope (.value target (.number loc text) type) code := by
  unfold numberCode at h
  split at h
  · exact elaborates_of_intCode h rfl
  · exact elaborates_of_doubleCode h rfl
  · split at h
    · exact elaborates_of_intCode h rfl
    · exact elaborates_of_doubleCode h rfl
  · simp at h

/-- The name of a store alone stands for all of its records. -/
theorem elaborates_of_allCode {name : String} {schema : Fields} {code : Code} {type : DataType}
    (hfree : scope.get? name = none) (hstore : m.store? name = some schema)
    (h : allCode target loc name schema = .ok (code, type)) :
    Elaborates m scope (.value target (.reference loc name []) type) code := by
  unfold allCode at h
  split at h
  next => simp at h
  next =>
    split at h
    next hfits =>
      cases h
      exact .all hfree hstore hfits
    next => simp at h

/-- A selection from a store stands for its records or for pointers to them. -/
theorem elaborates_of_selectCode {methodLoc : Location} {name : String} {schema : Fields}
    {args : List Expr} {code : Code} {type : DataType} (hfree : scope.get? name = none)
    (hstore : m.store? name = some schema)
    (h : selectCode target methodLoc name schema args = .ok (code, type)) :
    Elaborates m scope (.value target (.reference loc name [.method methodLoc "select" args]) type)
      code := by
  unfold selectCode at h
  obtain ⟨chosen, hchosen, hchecked⟩ := bind_ok_iff.mp h
  obtain ⟨_, _, _, _, _, rfl, ⟨rfl, rfl⟩ | ⟨rfl, _, rfl⟩⟩ := selection_eq_ok hchosen
  · obtain ⟨hresult, hfits⟩ := checked_eq_ok hchecked
    cases hresult
    exact .rows hfree hstore hfits
  · obtain ⟨hresult, hfits⟩ := checked_eq_ok hchecked
    cases hresult
    exact .pointers hfree hstore hfits

mutual

/-- Every expression that has code has a derivation. -/
theorem elaborates_of_code {code : Code} {type : DataType} :
    ∀ {target : DataType} {expr : Expr}, expr.code m scope target = .ok (code, type) →
      Elaborates m scope (.value target expr type) code
  | target, .reference loc name dots, h => by
      unfold Expr.code at h
      split at h
      next held hheld =>
        split at h
        next => simp at h
        next hsome =>
          obtain ⟨⟨chain, last⟩, hchain, h⟩ := bind_ok_iff.mp h
          obtain ⟨hresult, hfits⟩ := checked_eq_ok h
          cases hresult
          exact .ofVariable hheld (by simpa using hsome) (elaborates_of_chainCode hchain) hfits
      next hfree =>
        split at h
        next schema hstore => exact elaborates_of_storeCode hfree hstore h
        next => simp at h
  | target, .string loc value, h => by
      unfold Expr.code at h
      exact elaborates_of_stringCode h
  | target, .number loc text, h => by
      unfold Expr.code at h
      exact elaborates_of_numberCode h
  | target, .array loc exprs, h => by
      unfold Expr.code at h
      obtain ⟨elem, helem, h⟩ := bind_ok_iff.mp h
      obtain ⟨pushes, hpushes, h⟩ := bind_ok_iff.mp h
      cases h
      have helements := elaborates_of_elementsCode hpushes
      unfold elementType at helem
      split at helem
      next => cases helem; exact .array helements
      next => cases helem; exact .openArray helements
      next => simp at helem
  | target, .object loc entries, h => by
      unfold Expr.code at h
      obtain ⟨expected, hexpected, h⟩ := bind_ok_iff.mp h
      obtain ⟨_, hnames, h⟩ := bind_ok_iff.mp h
      obtain ⟨_, hmissing, h⟩ := bind_ok_iff.mp h
      obtain ⟨⟨sets, types⟩, hsets, h⟩ := bind_ok_iff.mp h
      cases h
      have hfields := elaborates_of_fieldsCode hsets
      obtain ⟨hnodup, _, hknown⟩ := checkNames_eq_ok hnames
      unfold objectFields at hexpected
      split at hexpected
      next => cases hexpected; exact .object hnodup hknown (checkMissing_eq_ok hmissing) hfields
      next => cases hexpected; exact .openObject hnodup hfields
      next => simp at hexpected
  | target, .lambda loc row body, h => by
      unfold Expr.code at h
      simp at h
termination_by _ expr => sizeOf expr

theorem elaborates_of_elementsCode {elem : DataType} {code : Code} :
    ∀ {exprs : List Expr}, elementsCode m scope elem exprs = .ok code →
      Elaborates m scope (.elements elem exprs) code
  | [], h => by
      unfold elementsCode at h
      cases h
      exact .noElements
  | expr :: rest, h => by
      unfold elementsCode at h
      obtain ⟨⟨value, type⟩, hvalue, h⟩ := bind_ok_iff.mp h
      obtain ⟨more, hmore, h⟩ := bind_ok_iff.mp h
      cases h
      exact .element (elaborates_of_code hvalue) (elaborates_of_elementsCode hmore)
termination_by exprs => sizeOf exprs

theorem elaborates_of_fieldsCode {expected : Option Fields} {code : Code} {types : Fields} :
    ∀ {entries : List (String × Expr)}, fieldsCode m scope expected entries = .ok (code, types) →
      Elaborates m scope (.fields expected entries types) code
  | [], h => by
      unfold fieldsCode at h
      cases h
      exact .noFields
  | (name, expr) :: rest, h => by
      unfold fieldsCode at h
      obtain ⟨⟨value, type⟩, hvalue, h⟩ := bind_ok_iff.mp h
      obtain ⟨⟨more, types⟩, hmore, h⟩ := bind_ok_iff.mp h
      cases h
      exact .field (elaborates_of_code hvalue) (elaborates_of_fieldsCode hmore)
termination_by entries => sizeOf entries

theorem elaborates_of_insertsCode {store : String} {schema : Fields} {code : Code} :
    ∀ {exprs : List Expr}, insertsCode m scope store schema exprs = .ok code →
      Elaborates m scope (.records store schema exprs) code
  | [], h => by
      unfold insertsCode at h
      cases h
      exact .noRecords
  | expr :: rest, h => by
      unfold insertsCode at h
      obtain ⟨⟨value, type⟩, hvalue, h⟩ := bind_ok_iff.mp h
      obtain ⟨more, hmore, h⟩ := bind_ok_iff.mp h
      cases h
      exact .record (elaborates_of_code hvalue) (elaborates_of_insertsCode hmore)
termination_by exprs => sizeOf exprs

/-- A chain on a store is a selection, an insertion, or a question for its length. -/
theorem elaborates_of_storeCode {loc : Location} {name : String} {schema : Fields} {code : Code}
    {target type : DataType} (hfree : scope.get? name = none)
    (hstore : m.store? name = some schema) :
    ∀ {dots : List Dot}, storeCode m scope target loc name schema dots = .ok (code, type) →
      Elaborates m scope (.value target (.reference loc name dots) type) code
  | [], h => by
      unfold storeCode at h
      exact elaborates_of_allCode hfree hstore h
  | [.field _ _], h => by
      unfold storeCode at h
      simp at h
  | [.method methodLoc method args], h => by
      unfold storeCode at h
      split at h
      next hmethod =>
        split at h
        next hany =>
          obtain ⟨inserts, hinserts, h⟩ := bind_ok_iff.mp h
          cases h
          subst hmethod
          obtain rfl : target = .any := by cases target <;> first | rfl | cases hany
          exact .append hfree hstore (elaborates_of_insertsCode hinserts)
        next => simp at h
      next =>
        split at h
        next hmethod =>
          split at h
          next hargs =>
            obtain rfl : args = [] := List.isEmpty_iff.mp hargs
            obtain ⟨hresult, hfits⟩ := checked_eq_ok h
            cases hresult
            subst hmethod
            exact .count hfree hstore hfits
          next => simp at h
        next =>
          split at h
          next hmethod =>
            subst hmethod
            exact elaborates_of_selectCode hfree hstore h
          next => simp at h
  | _ :: _ :: _, h => by
      unfold storeCode at h
      simp at h
termination_by dots => sizeOf dots

/-- A chain goes on with a field of an object, or with a method of a pointer. -/
theorem elaborates_of_chainCode {code : Code} {type : DataType} :
    ∀ {current : DataType} {dots : List Dot}, chainCode m scope current dots = .ok (code, type) →
      Elaborates m scope (.chain current dots type) code
  | current, [], h => by
      unfold chainCode at h
      cases h
      exact .stop
  | current, .field loc name :: rest, h => by
      unfold chainCode at h
      obtain ⟨⟨first, next⟩, hfirst, h⟩ := bind_ok_iff.mp h
      obtain ⟨⟨more, last⟩, hmore, h⟩ := bind_ok_iff.mp h
      cases h
      unfold dotCode at hfirst
      obtain ⟨fields, type, rfl, hfield, hresult⟩ := fieldCode_eq_ok hfirst
      cases hresult
      exact .access hfield (elaborates_of_chainCode hmore)
  | current, .method loc name args :: rest, h => by
      unfold chainCode at h
      obtain ⟨⟨first, next⟩, hfirst, h⟩ := bind_ok_iff.mp h
      obtain ⟨⟨more, last⟩, hmore, h⟩ := bind_ok_iff.mp h
      cases h
      have hrest := elaborates_of_chainCode hmore
      unfold dotCode at hfirst
      split at hfirst
      next store =>
        split at hfirst
        next => simp at hfirst
        next schema hstore =>
          split at hfirst
          next hname =>
            split at hfirst
            next hargs =>
              obtain rfl : args = [] := List.isEmpty_iff.mp hargs
              cases hfirst
              subst hname
              exact .delete hstore hrest
            next => simp at hfirst
          next =>
            split at hfirst
            next hname =>
              subst hname
              split at hfirst
              next =>
                cases hfirst
                exact .find hstore hrest
              next lambdaLoc row body =>
                obtain ⟨⟨path, value⟩, hvalue, hfirst⟩ := bind_ok_iff.mp hfirst
                cases hfirst
                obtain ⟨changeLoc, dots, returnLoc, rowLoc, rfl, hlength, hchange⟩ :=
                  elaborates_of_mutationCode hvalue
                simpa using Elaborates.update hstore hlength hchange hrest
              next => simp at hfirst
              next => simp at hfirst
            next => simp at hfirst
      next =>
        split at hfirst
        next hname =>
          split at hfirst
          next hargs =>
            obtain rfl : args = [] := List.isEmpty_iff.mp hargs
            cases hfirst
            subst hname
            exact .length hrest
          next => simp at hfirst
        next => simp at hfirst
      next => simp at hfirst
termination_by _ dots => sizeOf dots

/-- The body of a mutation is one change of its row, which is returned then. -/
theorem elaborates_of_mutationCode {loc : Location} {row : String} {schema : Fields}
    {path : List String} {code : Code} {body : List Statement}
    (h : mutationCode m scope loc row schema body = .ok (path, code)) :
    ∃ changeLoc dots returnLoc rowLoc,
      body = [.reference changeLoc row dots, .ret returnLoc (some (.reference rowLoc row []))] ∧
        2 ≤ dots.length ∧ Elaborates m scope (.change (.object schema) dots path) code := by
  obtain ⟨changeLoc, dots, returnLoc, rowLoc, hbody, hlength, happend, h⟩ := mutationCode_eq_ok h
  have hsize : sizeOf dots < sizeOf body := by
    simp only [hbody, List.cons.sizeOf_spec, Statement.reference.sizeOf_spec]
    omega
  exact ⟨changeLoc, dots, returnLoc, rowLoc, hbody, hlength,
    elaborates_of_appendCode (checkAppend_eq_ok happend) h⟩
termination_by sizeOf body

/-- A change follows the fields of the row down to a list, and appends there. -/
theorem elaborates_of_appendCode {loc : Location} {code : Code} :
    ∀ {current : DataType} {dots : List Dot} {path : List String},
      (∃ methodLoc args, dots.getLast? = some (.method methodLoc "append" args)) →
      appendCode m scope current loc dots = .ok (path, code) →
        Elaborates m scope (.change current dots path) code
  | current, [], path, _, h => by
      unfold appendCode at h
      simp at h
  | current, [.method methodLoc name [value]], path, hlast, h => by
      obtain ⟨_, _, hlast⟩ := hlast
      cases hlast
      unfold appendCode at h
      split at h
      next elem =>
        obtain ⟨⟨value, type⟩, hvalue, h⟩ := bind_ok_iff.mp h
        cases h
        exact .push (elaborates_of_code hvalue)
      next => simp at h
  | current, .field fieldLoc name :: rest, path, hlast, h => by
      unfold appendCode at h
      obtain ⟨⟨_, next⟩, hfirst, h⟩ := bind_ok_iff.mp h
      obtain ⟨⟨path, value⟩, hvalue, h⟩ := bind_ok_iff.mp h
      cases h
      obtain ⟨fields, type, rfl, hfield, hresult⟩ := fieldCode_eq_ok hfirst
      cases hresult
      cases rest with
      | nil => simp [appendCode] at hvalue
      | cons second rest => exact .descend hfield (elaborates_of_appendCode hlast hvalue)
  | current, [.method _ _ []], path, _, h | current, [.method _ _ (_ :: _ :: _)], path, _, h
  | current, .method _ _ _ :: _ :: _, path, _, h => by
      unfold appendCode at h
      simp at h
termination_by _ dots => sizeOf dots

end

end Expr

end StoredProc
