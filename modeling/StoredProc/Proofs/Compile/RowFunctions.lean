import StoredProc.Proofs.Compile.TypeSoundness

/-! # Functions on rows

Two forms of anonymous functions are accepted. The argument of `select` returns the row or a
pointer to it; the argument of `deref` appends a value to an array in the row and returns the
row. Both are described here by their syntax alone, and the compiler accepts exactly what is
described.
-/

namespace StoredProc

/-! ## Fields of fields -/

/-- The type that a chain of fields leads to, through object types. -/
def DataType.fieldAt? : DataType → List String → Option DataType
  | type, [] => some type
  | .object fields, name :: rest =>
    match field? fields name with
    | some next => next.fieldAt? rest
    | none => none
  | _, _ :: _ => none

@[simp]
theorem DataType.fieldAt?_nil (type : DataType) : type.fieldAt? [] = some type := by
  cases type <;> rfl

/-- A chain starts with a field of an object. -/
theorem DataType.fieldAt?_cons_eq_some {type found : DataType} {name : String}
    {rest : List String} :
    type.fieldAt? (name :: rest) = some found ↔
      ∃ fields next, type = .object fields ∧ field? fields name = some next ∧
        next.fieldAt? rest = some found := by
  cases type with
  | object fields =>
      cases hfield : field? fields name with
      | none => simp [fieldAt?, hfield]
      | some next => simp [fieldAt?, hfield]
  | prim | array | optional | ref | any | nothing => simp [fieldAt?]

/-! ## Functions that change their row -/

/-- The access to a field, written at a place. -/
@[simp]
def Dot.access (access : Location × String) : Dot := .field access.1 access.2

/-- A function that appends a value to an array in its row and returns the row. The array
lies behind one field or more. -/
structure RowChange where
  loc : Location := {}
  row : String
  changeLoc : Location := {}
  accesses : List (Location × String)
  appendLoc : Location := {}
  value : Expr
  returnLoc : Location := {}
  rowLoc : Location := {}
  accesses_ne_nil : accesses ≠ []

namespace RowChange

/-- The names of the fields that lead to the array. -/
def path (change : RowChange) : List String := change.accesses.map Prod.snd

/-- The chain behind the row: the fields, and the append at its end. -/
def dots (change : RowChange) : List Dot :=
  change.accesses.map Dot.access ++ [.method change.appendLoc "append" [change.value]]

/-- The function as an expression. -/
def expr (change : RowChange) : Expr :=
  .lambda change.loc change.row
    [.reference change.changeLoc change.row change.dots,
      .ret change.returnLoc (some (.reference change.rowLoc change.row []))]

end RowChange

namespace Expr

variable {m : Manifest} {scope : Scope} {target type : DataType} {loc : Location}
  {store row : String} {schema : Fields} {code : Code}

/-! ## The arguments of `select` -/

theorem selection_row (h : target ≠ .nothing) (lambdaLoc returnLoc rowLoc : Location) :
    selection target loc [.lambda lambdaLoc row [.ret returnLoc (some (.reference rowLoc row []))]]
      = .ok .rows := by
  cases target with
  | nothing => exact absurd rfl h
  | prim | object | array | optional | ref | any =>
      simp [selection, DataType.isNothing, selectionOfBody, selectionOfDots]

theorem selection_pointer (h : target ≠ .nothing) (lambdaLoc returnLoc rowLoc refLoc : Location) :
    selection target loc [.lambda lambdaLoc row
      [.ret returnLoc (some (.reference rowLoc row [.method refLoc "ref" []]))]]
      = .ok .pointers := by
  cases target with
  | nothing => exact absurd rfl h
  | prim | object | array | optional | ref | any =>
      simp [selection, DataType.isNothing, selectionOfBody, selectionOfDots]

/-- Code is passed on exactly if its type is compatible. -/
theorem checked_eq_ok_iff {found : Code} {foundType : DataType} :
    checked loc target found foundType = .ok (code, type) ↔
      target.compatible foundType = true ∧ code = found ∧ type = foundType := by
  constructor
  · intro h
    obtain ⟨hresult, hfits⟩ := checked_eq_ok h
    obtain ⟨hcode, htype⟩ := Prod.mk.inj hresult
    exact ⟨hfits, hcode, htype⟩
  · rintro ⟨hfits, rfl, rfl⟩
    exact if_pos hfits

/-- A selection goes with a target that is not empty. -/
theorem ne_nothing_of_compatible_array {elem : DataType}
    (h : target.compatible (.array elem) = true) : target ≠ .nothing := by
  rintro rfl
  cases h

/-- The code of a `select`: its function returns the row, or a pointer to it. -/
theorem selectCode_eq_ok_iff {args : List Expr} :
    selectCode target loc store schema args = .ok (code, type) ↔
      target ≠ .nothing ∧ ∃ lambdaLoc row returnLoc rowLoc dots,
        args = [.lambda lambdaLoc row [.ret returnLoc (some (.reference rowLoc row dots))]] ∧
        (dots = [] ∧ target.compatible (.array (.object schema)) = true ∧
            code = [.getAll store] ∧ type = .array (.object schema) ∨
          ∃ refLoc, dots = [.method refLoc "ref" []] ∧
            target.compatible (.array (.ref store)) = true ∧
            code = [.query store (schema.map Prod.fst)] ∧ type = .array (.ref store)) := by
  unfold selectCode
  rw [bind_ok_iff]
  constructor
  · rintro ⟨chosen, hchosen, h⟩
    obtain ⟨lambdaLoc, row, returnLoc, rowLoc, dots, hargs, ⟨rfl, hdots⟩ | ⟨rfl, refLoc, hdots⟩⟩ :=
      selection_eq_ok hchosen
    · obtain ⟨hfits, hcode, htype⟩ := checked_eq_ok_iff.mp h
      exact ⟨ne_nothing_of_compatible_array hfits, lambdaLoc, row, returnLoc, rowLoc, dots, hargs,
        .inl ⟨hdots, hfits, hcode, htype⟩⟩
    · obtain ⟨hfits, hcode, htype⟩ := checked_eq_ok_iff.mp h
      exact ⟨ne_nothing_of_compatible_array hfits, lambdaLoc, row, returnLoc, rowLoc, dots, hargs,
        .inr ⟨refLoc, hdots, hfits, hcode, htype⟩⟩
  · rintro ⟨hsome, lambdaLoc, row, returnLoc, rowLoc, dots, rfl,
      ⟨rfl, hfits, hcode, htype⟩ | ⟨refLoc, rfl, hfits, hcode, htype⟩⟩
    · exact ⟨.rows, selection_row hsome lambdaLoc returnLoc rowLoc,
        checked_eq_ok_iff.mpr ⟨hfits, hcode, htype⟩⟩
    · exact ⟨.pointers, selection_pointer hsome lambdaLoc returnLoc rowLoc refLoc,
        checked_eq_ok_iff.mpr ⟨hfits, hcode, htype⟩⟩

/-! ## The arguments of `deref` -/

theorem fieldCode_eq_ok_iff {current : DataType} {name : String} {result : TypedCode} :
    fieldCode current loc name = .ok result ↔
      ∃ fields next, current = .object fields ∧ DataType.field? fields name = some next ∧
        result = ([.text name, .getField 1], next) := by
  constructor
  · exact fieldCode_eq_ok
  · rintro ⟨fields, next, rfl, hfield, rfl⟩
    simp [fieldCode, hfield]

/-- Fields lead to an array, and the value behind them is compiled against its elements. -/
theorem appendCode_accesses (accesses : List (Location × String)) (appendLoc : Location)
    (name : String) (value : Expr) {current : DataType} {path : List String} :
    appendCode m scope current loc
        (accesses.map Dot.access ++ [.method appendLoc name [value]]) = .ok (path, code) ↔
      path = accesses.map Prod.snd ∧
        ∃ elem type, current.fieldAt? path = some (.array elem) ∧
          value.code m scope elem = .ok (code, type) := by
  induction accesses generalizing current loc path with
  | nil =>
      rw [List.map_nil, List.nil_append, List.map_nil]
      unfold appendCode
      constructor
      · intro h
        split at h
        next elem =>
          obtain ⟨⟨appended, type⟩, hvalue, hresult⟩ := bind_ok_iff.mp h
          cases hresult
          exact ⟨rfl, elem, type, DataType.fieldAt?_nil _, hvalue⟩
        next => simp at h
      · rintro ⟨rfl, elem, type, hcurrent, hvalue⟩
        rw [DataType.fieldAt?_nil, Option.some.injEq] at hcurrent
        subst hcurrent
        exact bind_ok_iff.mpr ⟨_, hvalue, rfl⟩
  | cons access rest ih =>
      rw [List.map_cons, List.cons_append, List.map_cons, Dot.access, appendCode, bind_ok_iff]
      constructor
      · rintro ⟨⟨first, next⟩, hfirst, h⟩
        obtain ⟨⟨inner, appended⟩, hinner, hresult⟩ := bind_ok_iff.mp h
        cases hresult
        obtain ⟨fields, found, hcurrent, hfield, hfound⟩ := fieldCode_eq_ok hfirst
        cases hfound
        obtain ⟨rfl, elem, type, hat, hvalue⟩ := ih.mp hinner
        exact ⟨rfl, elem, type,
          DataType.fieldAt?_cons_eq_some.mpr ⟨fields, _, hcurrent, hfield, hat⟩, hvalue⟩
      · rintro ⟨rfl, elem, type, hat, hvalue⟩
        obtain ⟨fields, next, hcurrent, hfield, hat⟩ := DataType.fieldAt?_cons_eq_some.mp hat
        exact ⟨_, fieldCode_eq_ok_iff.mpr ⟨fields, next, hcurrent, hfield, rfl⟩,
          bind_ok_iff.mpr ⟨_, ih.mpr ⟨rfl, elem, type, hat, hvalue⟩, rfl⟩⟩

/-- What is appended to stands behind fields only. -/
theorem exists_accesses_of_appendCode {current : DataType} {dots : List Dot} {path : List String}
    (h : appendCode m scope current loc dots = .ok (path, code)) :
    ∃ (accesses : List (Location × String)) (appendLoc : Location) (name : String) (value : Expr),
      dots = accesses.map Dot.access ++ [.method appendLoc name [value]] := by
  induction dots generalizing current loc path code with
  | nil => simp [appendCode] at h
  | cons dot rest ih =>
      cases dot with
      | field fieldLoc name =>
          rw [appendCode] at h
          obtain ⟨⟨first, next⟩, -, h⟩ := bind_ok_iff.mp h
          obtain ⟨⟨inner, appended⟩, hinner, -⟩ := bind_ok_iff.mp h
          obtain ⟨accesses, appendLoc, method, value, rfl⟩ := ih hinner
          exact ⟨(fieldLoc, name) :: accesses, appendLoc, method, value, rfl⟩
      | method methodLoc name args =>
          unfold appendCode at h
          split at h
          next => cases ‹_ = []›
          next heq =>
            cases heq
            exact ⟨[], _, _, _, rfl⟩
          next => simp at h
          next heq => cases heq

/-- The function of a `deref` is one that changes its row. -/
theorem mutationCode_eq_ok_iff {body : List Statement} {path : List String} :
    mutationCode m scope loc row schema body = .ok (path, code) ↔
      ∃ change : RowChange, .lambda loc row body = change.expr ∧ path = change.path ∧
        ∃ elem type, (DataType.object schema).fieldAt? path = some (.array elem) ∧
          change.value.code m scope elem = .ok (code, type) := by
  constructor
  · intro h
    obtain ⟨changeLoc, dots, returnLoc, rowLoc, rfl, hlength, happend, h⟩ := mutationCode_eq_ok h
    obtain ⟨accesses, appendLoc, name, value, rfl⟩ := exists_accesses_of_appendCode h
    obtain rfl : name = "append" := by simpa [checkAppend] using happend
    have hne : accesses ≠ [] := by
      rintro rfl
      simp at hlength
    obtain ⟨rfl, elem, type, hat, hvalue⟩ := (appendCode_accesses ..).mp h
    exact ⟨⟨loc, row, changeLoc, accesses, appendLoc, value, returnLoc, rowLoc, hne⟩, rfl, rfl,
      elem, type, hat, hvalue⟩
  · rintro ⟨change, hexpr, rfl, elem, type, hat, hvalue⟩
    obtain ⟨rfl, rfl, rfl⟩ := Expr.lambda.inj hexpr
    have hlength : 2 ≤ change.dots.length := by
      have hpos := List.length_pos_iff.mpr change.accesses_ne_nil
      simp only [RowChange.dots, List.length_append, List.length_map, List.length_singleton]
      omega
    have happend : checkAppend change.changeLoc change.dots = .ok () := by
      simp [checkAppend, RowChange.dots]
    have hcode : appendCode m scope (.object schema) change.changeLoc change.dots =
        .ok (change.path, code) :=
      (appendCode_accesses ..).mpr ⟨rfl, elem, type, hat, hvalue⟩
    simp [mutationCode, returnsRow, hlength, happend, hcode, bind, Except.bind]

/-- The code of a `deref` with an argument: it is a function that changes its row. -/
theorem derefCode_eq_ok_iff (hstore : m.store? store = some schema) {arg : Expr} :
    dotCode m scope (.ref store) (.method loc "deref" [arg]) = .ok (code, type) ↔
      type = .optional (.object schema) ∧ ∃ change : RowChange, arg = change.expr ∧
        ∃ elem value valueType,
          (DataType.object schema).fieldAt? change.path = some (.array elem) ∧
          change.value.code m scope elem = .ok (value, valueType) ∧
          code = .newPush :: value ++ [.pushAt change.path, .updateOne store] := by
  unfold dotCode
  simp only [hstore]
  rw [if_neg (by decide), if_pos trivial]
  cases arg with
  | lambda lambdaLoc row body =>
      rw [bind_ok_iff]
      constructor
      · rintro ⟨⟨path, value⟩, hvalue, h⟩
        cases h
        obtain ⟨change, hexpr, rfl, elem, valueType, hat, hvalue⟩ :=
          mutationCode_eq_ok_iff.mp hvalue
        exact ⟨rfl, change, hexpr, elem, value, valueType, hat, hvalue, rfl⟩
      · rintro ⟨rfl, change, hexpr, elem, value, valueType, hat, hvalue, rfl⟩
        exact ⟨_, mutationCode_eq_ok_iff.mpr ⟨change, hexpr, rfl, elem, valueType, hat, hvalue⟩,
          rfl⟩
  | reference | string | number | array | object => simp [RowChange.expr]

/-- The operations that push a value. -/
theorem ops_push (store : String) (path : List String) (value : Code) :
    (Instruction.newPush :: value ++ [Instruction.pushAt path, Instruction.updateOne store]).map
        Instruction.toOp =
      .createUpdateDoc (.map [("$push", .map [])]) :: value.map Instruction.toOp ++
        [.setNestedField "$push" (".".intercalate path), .updateOne store] := by
  simp [Instruction.toOp, Instruction.pushOperator]

/-! ## What is accepted -/

/-- The functions on rows that are accepted, and their code. In a `select` the function
returns its row, or the pointer to its row; of the records that are pointed to every field is
hidden. In a `deref` it appends a value to an array behind one field or more of its row and
returns the row; the operations make an update, compute the value, put it in the update under
the names of the fields joined with dots, and apply the update. -/
theorem rowFunctions_exact (m : Manifest) (scope : Scope) (loc : Location) {store : String}
    {schema : Fields} (hstore : m.store? store = some schema) :
    (∀ target args code type, selectCode target loc store schema args = .ok (code, type) ↔
      target ≠ .nothing ∧ ∃ lambdaLoc row returnLoc rowLoc dots,
        args = [.lambda lambdaLoc row [.ret returnLoc (some (.reference rowLoc row dots))]] ∧
        (dots = [] ∧ target.compatible (.array (.object schema)) = true ∧
            code = [.getAll store] ∧ type = .array (.object schema) ∧
            code.map Instruction.toOp = [.getAllFromStore store] ∨
          ∃ refLoc, dots = [.method refLoc "ref" []] ∧
            target.compatible (.array (.ref store)) = true ∧
            code = [.query store (schema.map Prod.fst)] ∧ type = .array (.ref store) ∧
            code.map Instruction.toOp =
              [.queryStore store (some (schema.map fun field => (field.1, 0)))])) ∧
    ∀ arg code type,
      dotCode m scope (.ref store) (.method loc "deref" [arg]) = .ok (code, type) ↔
        type = .optional (.object schema) ∧ ∃ change : RowChange, arg = change.expr ∧
          ∃ elem value valueType,
            (DataType.object schema).fieldAt? change.path = some (.array elem) ∧
            change.value.code m scope elem = .ok (value, valueType) ∧
            code = .newPush :: value ++ [.pushAt change.path, .updateOne store] ∧
            code.map Instruction.toOp =
              .createUpdateDoc (.map [("$push", .map [])]) :: value.map Instruction.toOp ++
                [.setNestedField "$push" (".".intercalate change.path), .updateOne store] := by
  constructor
  · intro target args code type
    rw [selectCode_eq_ok_iff]
    have hhidden : [Instruction.query store (schema.map Prod.fst)].map Instruction.toOp =
        [.queryStore store (some (schema.map fun field => (field.1, 0)))] := by
      simp [Instruction.toOp, Instruction.excluding, Function.comp_def]
    refine and_congr_right fun _ => ?_
    constructor
    · rintro ⟨lambdaLoc, row, returnLoc, rowLoc, dots, hargs,
        ⟨hdots, hfits, rfl, htype⟩ | ⟨refLoc, hdots, hfits, rfl, htype⟩⟩
      · exact ⟨lambdaLoc, row, returnLoc, rowLoc, dots, hargs,
          .inl ⟨hdots, hfits, rfl, htype, rfl⟩⟩
      · exact ⟨lambdaLoc, row, returnLoc, rowLoc, dots, hargs,
          .inr ⟨refLoc, hdots, hfits, rfl, htype, hhidden⟩⟩
    · rintro ⟨lambdaLoc, row, returnLoc, rowLoc, dots, hargs,
        ⟨hdots, hfits, hcode, htype, -⟩ | ⟨refLoc, hdots, hfits, hcode, htype, -⟩⟩
      · exact ⟨lambdaLoc, row, returnLoc, rowLoc, dots, hargs, .inl ⟨hdots, hfits, hcode, htype⟩⟩
      · exact ⟨lambdaLoc, row, returnLoc, rowLoc, dots, hargs,
          .inr ⟨refLoc, hdots, hfits, hcode, htype⟩⟩
  · intro arg code type
    rw [derefCode_eq_ok_iff hstore]
    constructor
    · rintro ⟨htype, change, harg, elem, value, valueType, hat, hvalue, rfl⟩
      exact ⟨htype, change, harg, elem, value, valueType, hat, hvalue, rfl, ops_push ..⟩
    · rintro ⟨htype, change, harg, elem, value, valueType, hat, hvalue, hcode, -⟩
      exact ⟨htype, change, harg, elem, value, valueType, hat, hvalue, hcode⟩

end Expr

/-- Alice becomes a friend of the row. -/
def RowChange.befriendAlice : RowChange where
  row := "row"
  accesses := [({}, "friends")]
  value := .string {} "alice"
  accesses_ne_nil := by simp

/-- Pointers to all users are selected, and a user is given a friend. -/
theorem Expr.rowFunctions_exact_ofUsers :
    Manifest.ofUsers.store? "users" = some .ofUser ∧
      selectCode (.array (.ref "users")) {} "users" .ofUser
          [.lambda {} "row" [.ret {} (some (.reference {} "row" [.method {} "ref" []]))]] =
        .ok ([.query "users" ["friends", "name"]], .array (.ref "users")) ∧
      dotCode .ofUsers .ofUser (.ref "users") (.method {} "deref" [RowChange.befriendAlice.expr]) =
        .ok ([.newPush, .text "alice", .pushAt ["friends"], .updateOne "users"],
          .optional (.object Fields.ofUser)) := by
  have hstore : Manifest.ofUsers.store? "users" = some .ofUser := rfl
  obtain ⟨hselect, hderef⟩ := rowFunctions_exact .ofUsers .ofUser {} hstore
  refine ⟨hstore, (hselect _ _ _ _).mpr ?_, (hderef _ _ _).mpr ?_⟩
  · exact ⟨by simp, {}, "row", {}, {}, _, rfl, .inr ⟨{}, rfl, by decide, rfl, rfl, rfl⟩⟩
  · exact ⟨rfl, .befriendAlice, rfl, .string, [.text "alice"], .string, rfl,
      by simp [RowChange.befriendAlice, Expr.code, stringCode], rfl, rfl⟩

end StoredProc
