import StoredProc.Proofs.Compile.Targets

/-! # Inferred types as targets

Without a target an expression gets the type that its parts have. Compiled once more, with
this type as its target, it has the same code: fields are expected with the types they
were found to have, numbers are read in the same way, and behind a name the type is
compared with itself. An append to a store is apart, as it wants an open target.
-/

namespace StoredProc

namespace DataType

variable {type : DataType} {fields : List (String × DataType)}

mutual

/-- No part of a type is the result of a function that returns nothing. -/
def lacksNothing : DataType → Bool
  | .prim _ | .ref _ | .any => true
  | .object fields => fieldsLackNothing fields
  | .array elem => elem.lacksNothing
  | .optional inner => inner.lacksNothing
  | .nothing => false

def fieldsLackNothing : List (String × DataType) → Bool
  | [] => true
  | (_, type) :: rest => type.lacksNothing && fieldsLackNothing rest

end

theorem fieldsLackNothing_iff :
    fieldsLackNothing fields = true ↔ ∀ entry ∈ fields, entry.2.lacksNothing = true := by
  induction fields with
  | nil => simp [fieldsLackNothing]
  | cons entry rest ih => simp [fieldsLackNothing, ih]

theorem lacksNothing_of_field? (h : (DataType.object fields).lacksNothing = true) {name : String}
    (hfield : field? fields name = some type) : type.lacksNothing = true :=
  fieldsLackNothing_iff.mp h _ (mem_of_field? hfield)

end DataType

variable {m : Manifest} {scope : Scope} {target type : DataType} {code : Code}

/-! ## Types that are found -/

/-- A property of types goes over from what a chain stands on to what it finds. -/
def Part.PassesOn (q : DataType → Prop) : Part → Prop
  | .chain current _ type => q current → q type
  | _ => True

/-- A property that fields and records inherit, and that integers and truth values have, goes
along every chain. -/
theorem Elaborates.passesOn {q : DataType → Prop} {part : Part} (h : Elaborates m scope part code)
    (hfield : ∀ fields name type, q (.object fields) → DataType.field? fields name = some type →
      q type)
    (hrecord : ∀ store schema, m.store? store = some schema → q (.optional (.object schema)))
    (hint : q .int) (hbool : q .bool) : part.PassesOn q := by
  induction h with
  | stop => exact id
  | access hname _ ih => exact fun hcurrent => ih (hfield _ _ _ hcurrent hname)
  | delete _ _ ih => exact fun _ => ih hbool
  | find hstore _ ih => exact fun _ => ih (hrecord _ _ hstore)
  | update hstore _ _ _ _ ih => exact fun _ => ih (hrecord _ _ hstore)
  | length _ ih => exact fun _ => ih hint
  | _ => trivial

/-- What can be found behind a name: a value, or a record that may be absent. The schemas of
stores are free to have fields that hold nothing. -/
def DataType.IsFound (type : DataType) : Prop :=
  type.isDistinct = true ∧ (type.lacksNothing = true ∨ ∃ inner, type = .optional inner)

/-- What is found behind a name is never nothing. -/
theorem DataType.IsFound.isNothing_eq_false (h : type.IsFound) : type.isNothing = false := by
  cases type with
  | nothing =>
      obtain ⟨-, hlacks | ⟨inner, hinner⟩⟩ := h
      · cases hlacks
      · cases hinner
  | _ => rfl

/-- What a reference stands for has distinct fields and is never nothing. -/
theorem Elaborates.isFound {loc : Location} {name : String} {dots : List Dot}
    (h : Elaborates m scope (.value target (.reference loc name dots) type) code)
    (hheld : ∀ name held, scope.get? name = some held →
      held.type.lacksNothing = true ∧ held.type.isDistinct = true)
    (hstores : ∀ name schema, m.store? name = some schema →
      (DataType.object schema).isDistinct = true) :
    type.isNothing = false ∧ type.isDistinct = true := by
  cases h with
  | ofVariable hname _ hchain =>
      obtain ⟨hlacks, hdistinct⟩ := hheld _ _ hname
      have hfound : type.IsFound := by
        refine hchain.passesOn ?_ ?_ ⟨rfl, .inl rfl⟩ ⟨rfl, .inl rfl⟩ ⟨hdistinct, .inl hlacks⟩
        · rintro fields name type ⟨hdistinct, hlacks | ⟨inner, hinner⟩⟩ hfield
          · exact ⟨DataType.isDistinct_of_field? hdistinct hfield,
              .inl (DataType.lacksNothing_of_field? hlacks hfield)⟩
          · cases hinner
        · exact fun store schema hstore => ⟨hstores store schema hstore, .inr ⟨_, rfl⟩⟩
      exact ⟨hfound.isNothing_eq_false, hfound.1⟩
  | all _ hstore | rows _ hstore => exact ⟨rfl, hstores _ _ hstore⟩
  | append | count | pointers => exact ⟨rfl, rfl⟩

namespace Expr

/-! ## The type of an expression as its target -/

/-- A number that is compiled without a target has the same code for the type that it turned out
to have. -/
theorem numberCode_of_inferred {loc : Location} {text : String}
    (h : numberCode .any loc text = .ok (code, type)) :
    numberCode type loc text = .ok (code, type) := by
  change (if (readInt64? text).isSome then intCode loc text else doubleCode loc text) = _ at h
  split at h
  next =>
    obtain ⟨_, _, heq⟩ := intCode_eq_ok_iff.mp h
    cases heq
    exact h
  next =>
    obtain ⟨_, _, _, heq⟩ := doubleCode_eq_ok_iff.mp h
    cases heq
    exact h

theorem appendsFields_eq_zero_iff {fields : List (String × Expr)} :
    appendsFields m fields = 0 ↔ ∀ entry ∈ fields, entry.2.appends m = 0 := by
  induction fields with
  | nil => simp
  | cons entry rest ih => simp [ih]

/-- The fields of an object keep their names. -/
theorem map_fst_of_fieldsCode {expected : Option Fields} {entries : List (String × Expr)}
    {types : Fields} (h : fieldsCode m scope expected entries = .ok (code, types)) :
    types.map Prod.fst = entries.map Prod.fst := by
  induction entries generalizing code types with
  | nil =>
      rw [fieldsCode] at h
      cases h
      rfl
  | cons entry rest ih =>
      rw [fieldsCode] at h
      obtain ⟨_, _, h⟩ := bind_ok_iff.mp h
      obtain ⟨_, hmore, h⟩ := bind_ok_iff.mp h
      cases h
      rw [List.map_cons, List.map_cons, ih hmore]

/-- Fields whose types were left open have the same code where these types are expected. -/
theorem fieldsCode_of_inferred {expected types : Fields} {entries : List (String × Expr)}
    (hvalues : ∀ entry ∈ entries, ∀ code type, entry.2.code m scope .any = .ok (code, type) →
      entry.2.code m scope type = .ok (code, type))
    (h : fieldsCode m scope none entries = .ok (code, types))
    (hexpected : ∀ field ∈ types, DataType.field? expected field.1 = some field.2) :
    fieldsCode m scope (some expected) entries = .ok (code, types) := by
  induction entries generalizing code types with
  | nil => exact h
  | cons entry rest ih =>
      rw [List.forall_mem_cons] at hvalues
      rw [fieldsCode] at h ⊢
      obtain ⟨⟨value, type⟩, hvalue, h⟩ := bind_ok_iff.mp h
      obtain ⟨⟨more, others⟩, hmore, h⟩ := bind_ok_iff.mp h
      cases h
      rw [List.forall_mem_cons] at hexpected
      have htarget : fieldTarget (some expected) entry.1 = type := by
        rw [fieldTarget, hexpected.1]
        rfl
      refine bind_ok_iff.mpr ⟨(value, type), ?_, bind_ok_iff.mpr ⟨(more, others), ?_, rfl⟩⟩
      · rw [htarget]
        exact hvalues.1 value type hvalue
      · exact ih hvalues.2 hmore hexpected.2

/-- The type that was found for an object literal has its fields. -/
theorem field?_sortFields {types : Fields} (hnodup : (types.map Prod.fst).Nodup)
    {field : String × DataType} (h : field ∈ types) :
    DataType.field? (DataType.sortFields types) field.1 = some field.2 := by
  have hperm : (DataType.sortFields types).Perm types := DataType.sortFields_perm hnodup
  exact DataType.field?_of_mem ((hperm.map Prod.fst).nodup_iff.mpr hnodup) (hperm.mem_iff.mpr h)

/-- An expression without appends to stores, compiled with an open target, has the same code
and the same type if this type is its target. No variable has a part of type `nothing`, and
the fields of object types form maps. -/
theorem code_inferred {expr : Expr}
    (hheld : ∀ name held, scope.get? name = some held →
      held.type.lacksNothing = true ∧ held.type.isDistinct = true)
    (hstores : ∀ name schema, m.store? name = some schema →
      (DataType.object schema).isDistinct = true)
    (happends : expr.appends m = 0) (h : expr.code m scope .any = .ok (code, type)) :
    expr.code m scope type = .ok (code, type) := by
  induction expr using literalInduction generalizing code type with
  | reference loc name dots =>
      obtain ⟨hsome, hdistinct⟩ := (elaborates_of_code h).isFound hheld hstores
      refine code_reference_retarget h hsome (DataType.compatible_self hdistinct) fun happend => ?_
      simp [happend] at happends
  | string loc value =>
      cases elaborates_of_code h with
      | text => exact h
  | number loc text =>
      rw [Expr.code] at h ⊢
      exact numberCode_of_inferred h
  | array loc elements =>
      -- An array without a target has open elements, so its type asks the same of them.
      cases elaborates_of_code h with
      | openArray => exact h
  | object loc entries ih =>
      obtain ⟨expected, sets, types, htarget, hnodup, -, -, hsets, rfl, rfl⟩ :=
        exists_of_code_object h
      cases htarget
      have hnames := map_fst_of_fieldsCode hsets
      have hfields : ∀ field ∈ types,
          DataType.field? (DataType.sortFields types) field.1 = some field.2 :=
        fun field hfield => field?_sortFields (hnames ▸ hnodup) hfield
      have htarget : objectFields (.ofFields types) loc = .ok (some (DataType.sortFields types)) :=
        rfl
      have hsets' : fieldsCode m scope (some (DataType.sortFields types)) entries =
          .ok (sets, types) := by
        refine fieldsCode_of_inferred (fun entry hentry code type hcode => ?_) hsets hfields
        exact ih entry hentry (appendsFields_eq_zero_iff.mp happends entry hentry) hcode
      have hexpected : ∀ name ∈ entries.map Prod.fst,
          expectsField (some (DataType.sortFields types)) name = true := by
        intro name hname
        obtain ⟨field, hfield, rfl⟩ := List.mem_map.mp (hnames ▸ hname)
        rw [expectsField, hfields field hfield]
        rfl
      have hcomplete : ∀ name ∈ (DataType.sortFields types).map Prod.fst,
          name ∈ entries.map Prod.fst := by
        intro name hname
        obtain ⟨field, hfield, rfl⟩ := List.mem_map.mp hname
        exact hnames ▸ List.mem_map_of_mem (DataType.mem_of_mem_sortFields hfield)
      exact (code_object_eq_ok htarget hnodup hexpected hcomplete hsets' :)
  | lambda loc row body => simp [Expr.code] at h

/-- What is known of a user: the record behind a pointer, the records of all users, and
literals of three kinds. -/
def ofUserReport : Expr :=
  .object {} [("user", .reference {} "user" [.method {} "deref" []]),
    ("all", .reference {} "users" []), ("share", .number {} "2.5"),
    ("notes", .array {} [.number {} "1", .string {} "new"])]

/-- The code of the report. -/
def userReportCode : Code :=
  [.newObject, .text "user", .copyFromHeap 0, .findOne "users" [Instruction.idField], .setField 1,
    .text "all", .getAll "users", .setField 1, .text "share", .double (.ofDecimal false 25 (-1)),
    .setField 1, .text "notes", .newArray, .int 1, .arrayPush, .text "new", .arrayPush,
    .setField 1]

/-- The report has a type without being given one, and has the same code for it. -/
theorem code_inferred_ofUserReport :
    ∃ type, ofUserReport.appends .ofUsers = 0 ∧
      ofUserReport.code .ofUsers .ofUser type = .ok (userReportCode, type) := by
  have hops : (ofUserReport.code .ofUsers .ofUser .any).toOption.map Prod.fst =
      some userReportCode := by
    decide +kernel
  have happends : ofUserReport.appends .ofUsers = 0 := by decide
  have hheld : ∀ name held, Scope.ofUser.get? name = some held →
      held.type.lacksNothing = true ∧ held.type.isDistinct = true := by
    intro name held hheld
    simp only [Scope.get?, Scope.ofUser, List.lookup_cons, List.lookup_nil] at hheld
    split at hheld
    · cases hheld
      exact ⟨rfl, rfl⟩
    · cases hheld
  cases hcode : ofUserReport.code .ofUsers .ofUser .any with
  | error fault =>
      rw [hcode] at hops
      cases hops
  | ok result =>
      obtain ⟨code, type⟩ := result
      rw [hcode] at hops
      cases hops
      refine ⟨type, happends, code_inferred hheld (fun name schema hstore => ?_) happends hcode⟩
      rw [User.schema_eq hstore]
      decide

end Expr

end StoredProc
