import StoredProc.Proofs.Machine.Execution
import StoredProc.Proofs.Compile.ExpressionCode
import StoredProc.Proofs.Compile.WrittenTypes

/-! # Expressions have their types

The code of an expression runs to its end on every machine whose variables and stores
have their types, and leaves one value, which has the type that was expected. The proof
is an induction on the rules by which expressions become code. Chains, literals and
updates are run in the middle of an expression, so what they find on the stack is said
for each of them.
-/

namespace StoredProc

/-! ## Code that computes a value -/

/-- Code takes some values from the stack and leaves one for them. The heap stays as it
is, and the stores stay valid. -/
def Code.Yields {σ : Type} (serve : Service σ) (valid : σ → Prop) (heap taken : List Value)
    (code : Code) (q : Value → Prop) : Prop :=
  ∀ stack stores, valid stores → ∃ value after,
    code.run serve ⟨taken ++ stack, heap, stores⟩ = some ⟨value :: stack, heap, after⟩ ∧
      q value ∧ valid after

namespace Code.Yields

variable {σ : Type} {serve : Service σ} {valid : σ → Prop} {heap taken : List Value}
  {instruction : Instruction} {code : Code} {p q : Value → Prop}

theorem nil {value : Value} (h : q value) : Code.Yields serve valid heap [value] [] q :=
  fun _ stores hstores => ⟨value, stores, rfl, h, hstores⟩

/-- An instruction that only works on the stack. -/
theorem cons (left : List Value)
    (h : ∀ stack stores, instruction.execute serve ⟨taken ++ stack, heap, stores⟩ =
      some ⟨left ++ stack, heap, stores⟩)
    (hrest : Code.Yields serve valid heap left code q) :
    Code.Yields serve valid heap taken (instruction :: code) q := by
  intro stack stores hstores
  simp only [run, h, Option.bind_some]
  exact hrest stack stores hstores

/-- An instruction that asks the stores. -/
theorem ask {m : Manifest} {request : Request} {type : DataType} (below : List Value)
    (hserve : serve.Serves m valid) (htyped : request.Typed m type)
    (h : ∀ stack stores, instruction.execute serve ⟨taken ++ stack, heap, stores⟩ =
      some (Machine.ask ⟨taken ++ stack, heap, stores⟩ serve request (below ++ stack)))
    (hrest : ∀ value, value.Conforms type →
      Code.Yields serve valid heap (value :: below) code q) :
    Code.Yields serve valid heap taken (instruction :: code) q := by
  intro stack stores hstores
  obtain ⟨hanswer, hvalid⟩ := hserve htyped hstores
  simp only [run, h, Option.bind_some]
  exact hrest _ hanswer stack _ hvalid

/-- Code in a row; the first part does not see what the second one needs besides. -/
theorem append {under : List Value} {second : Code}
    (hfirst : Code.Yields serve valid heap taken code p)
    (hsecond : ∀ value, p value → Code.Yields serve valid heap (value :: under) second q) :
    Code.Yields serve valid heap (taken ++ under) (code ++ second) q := by
  intro stack stores hstores
  obtain ⟨value, middle, hrun, hvalue, hmiddle⟩ := hfirst (under ++ stack) stores hstores
  obtain ⟨result, after, hafter, hresult⟩ := hsecond value hvalue stack middle hmiddle
  refine ⟨result, after, ?_, hresult⟩
  rw [run_append, List.append_assoc, hrun]
  exact hafter

theorem mono (h : Code.Yields serve valid heap taken code p) (hpq : ∀ value, p value → q value) :
    Code.Yields serve valid heap taken code q := by
  intro stack stores hstores
  obtain ⟨value, after, hrun, hvalue, hafter⟩ := h stack stores hstores
  exact ⟨value, after, hrun, hpq value hvalue, hafter⟩

end Code.Yields

/-! ## Records in the making -/

/-- A record with some of its fields, which have their types. -/
inductive Value.Filled (expected : Fields) (names : List String) : Value → Prop
  | intro {entries : List (String × Value)}
      (hnames : ∀ name, (entries.lookup name).isSome = true ↔ name ∈ names)
      (hvalues : ∀ name type value, DataType.field? expected name = some type →
        entries.lookup name = some value → Conforms type value) :
      Filled expected names (.object entries)

namespace Value.Filled

variable {expected : Fields} {names : List String} {record : Value}

theorem empty : Filled expected [] (.object []) := by
  refine .intro ?_ ?_
  · simp
  · intro name type value _ hvalue
    cases hvalue

/-- A field that is set with a value of its type is one more that is filled. -/
theorem setField (h : Filled expected names record) {name : String} {type : DataType}
    {value : Value} (hfield : DataType.field? expected name = some type)
    (hvalue : value.Conforms type) :
    ∃ result, setField? name value record = some result ∧
      Filled expected (names ++ [name]) result := by
  obtain ⟨hnames, hvalues⟩ := h
  refine ⟨_, rfl, .intro ?_ ?_⟩
  · intro other
    rw [lookup_setEntry, List.mem_append, List.mem_singleton, ← hnames]
    by_cases hother : other = name <;> simp [hother]
  · intro other found result hfound hresult
    rw [lookup_setEntry] at hresult
    by_cases hother : other = name
    · subst hother
      rw [if_pos rfl, Option.some.injEq] at hresult
      rw [hfield, Option.some.injEq] at hfound
      exact hfound ▸ hresult ▸ hvalue
    · rw [if_neg hother] at hresult
      exact hvalues other found result hfound hresult

/-- A record with all its fields and no others is finished. -/
theorem conforms (h : Filled expected names record)
    (hnames : ∀ name, name ∈ names ↔ (DataType.field? expected name).isSome = true) :
    record.Conforms (.object expected) := by
  obtain ⟨hfilled, hvalues⟩ := h
  refine .object ?_ hvalues
  intro name
  rw [Bool.eq_iff_iff, hfilled, hnames]

end Value.Filled

/-! ## Parts of expressions -/

/-- Every variable in scope has a value of its type. -/
def Scope.Holds (scope : Scope) (heap : List Value) : Prop :=
  ∀ ⦃name held⦄, scope.get? name = some held →
    ∃ value, heap[held.slot]? = some value ∧ value.Conforms held.type

/-- What the code of a part of an expression does. -/
def Part.Sound {σ : Type} (serve : Service σ) (valid : σ → Prop) (heap : List Value)
    (code : Code) : Part → Prop
  | .value target _ _ => target.Proper → code.Yields serve valid heap [] (Value.Conforms target)
  | .elements elem _ => elem.Proper → ∀ value, value.Conforms (.array elem) →
      code.Yields serve valid heap [value] (Value.Conforms (.array elem))
  | .fields (some expected) entries _ => (DataType.object expected).Proper →
      (∀ name ∈ entries.map Prod.fst, (DataType.field? expected name).isSome = true) →
        ∀ names record, record.Filled expected names →
          code.Yields serve valid heap [record]
            (Value.Filled expected (names ++ entries.map Prod.fst))
  | .chain current _ type => current.Proper →
      type.Proper ∧ ∀ value, value.Conforms current →
        code.Yields serve valid heap [value] (Value.Conforms type)
  | .change current _ path => current.Proper →
      ∃ elem, current.At path (.array elem) ∧
        code.Yields serve valid heap [] (Value.Conforms elem)
  | .fields none .. | .records .. => True

variable {m : Manifest} {scope : Scope}

section

variable {σ : Type} {serve : Service σ} {valid : σ → Prop} {heap : List Value}

/-- An answer of the stores that fits is the value of an expression. -/
theorem Code.Yields.answer {request : Request} {instruction : Instruction}
    {target type : DataType} (hserve : serve.Serves m valid) (htyped : request.Typed m type)
    (h : ∀ stack stores, instruction.execute serve ⟨stack, heap, stores⟩ =
      some (Machine.ask ⟨stack, heap, stores⟩ serve request stack))
    (htype : type.Proper) (htarget : target.Proper) (hfits : target.compatible type = true) :
    Code.Yields serve valid heap [] [instruction] (Value.Conforms target) := by
  refine .ask [] hserve htyped h ?_
  intro value hvalue
  exact .nil (hvalue.of_compatible htype.concrete htarget.distinct hfits)

/-- A constant that fits is the value of an expression. -/
theorem Code.Yields.constant {instruction : Instruction} {value : Value} {target type : DataType}
    (h : ∀ stack stores, instruction.execute serve ⟨stack, heap, stores⟩ =
      some ⟨value :: stack, heap, stores⟩)
    (hvalue : value.Conforms type) (htype : type.Proper) (htarget : target.Proper)
    (hfits : target.compatible type = true) :
    Code.Yields serve valid heap [] [instruction] (Value.Conforms target) :=
  .cons [value] h (.nil (hvalue.of_compatible htype.concrete htarget.distinct hfits))

/-- An element goes to the end of an array. -/
theorem Code.Yields.arrayPush {elem : DataType} {value code : Code} {q : Value → Prop}
    {found : Value} (hvalue : value.Yields serve valid heap [] (Value.Conforms elem))
    (hfound : found.Conforms (.array elem))
    (hrest : ∀ longer, longer.Conforms (.array elem) → code.Yields serve valid heap [longer] q) :
    Code.Yields serve valid heap [found] (value ++ .arrayPush :: code) q := by
  cases hfound with
  | @array _ items hitems =>
      refine hvalue.append ?_
      intro item hitem
      refine .cons [.array (items ++ [item])] (fun _ _ => rfl) (hrest _ (.array ?_))
      intro other hother
      rcases List.mem_append.mp hother with hold | hnew
      · exact hitems other hold
      · exact List.mem_singleton.mp hnew ▸ hitem

/-- A field of a record in the making is set. -/
theorem Code.Yields.setField {expected : Fields} {names : List String} {name : String}
    {type : DataType} {value code : Code} {q : Value → Prop} {record : Value}
    (hfield : DataType.field? expected name = some type)
    (hvalue : value.Yields serve valid heap [] (Value.Conforms type))
    (hrecord : record.Filled expected names)
    (hrest : ∀ next, next.Filled expected (names ++ [name]) →
      code.Yields serve valid heap [next] q) :
    Code.Yields serve valid heap [record] (.text name :: value ++ .setField 1 :: code) q := by
  rw [List.cons_append]
  refine .cons [.text name, record] (fun _ _ => rfl) (hvalue.append ?_)
  intro found hfound
  obtain ⟨next, hset, hnext⟩ := hrecord.setField hfield hfound
  refine .cons [next] ?_ (hrest next hnext)
  intro stack stores
  simp [Instruction.execute, Value.modifyAt, hset]

/-- A field of a finished record is looked up. -/
theorem Code.Yields.getField {fields : Fields} {name : String} {type : DataType} {code : Code}
    {q : Value → Prop} {record : Value} (hfield : DataType.field? fields name = some type)
    (hrecord : record.Conforms (.object fields))
    (hrest : ∀ value, value.Conforms type → code.Yields serve valid heap [value] q) :
    Code.Yields serve valid heap [record] (.text name :: .getField 1 :: code) q := by
  cases hrecord with
  | @object _ entries hnames hvalues =>
      have hsome : (entries.lookup name).isSome = true := by
        rw [hnames, hfield]
        rfl
      obtain ⟨value, hvalue⟩ := Option.isSome_iff_exists.mp hsome
      refine .cons [.text name, .object entries] (fun _ _ => rfl) ?_
      refine .cons [value] ?_ (hrest value (hvalues name type value hfield hvalue))
      intro stack stores
      simp [Instruction.execute, Value.modifyAt, Value.field?, hvalue]

/-- A value is added to an array of a stored record. -/
theorem Code.Yields.updateOne {store : String} {schema : Fields} {path : List String}
    {elem : DataType} {value code : Code} {q : Value → Prop} {pointer : Value}
    (hserve : serve.Serves m valid) (hstore : m.store? store = some schema)
    (hpath : DataType.At (.object schema) path (.array elem))
    (hvalue : value.Yields serve valid heap [] (Value.Conforms elem))
    (hpointer : pointer.Conforms (.ref store))
    (hrest : ∀ record, record.Conforms (.optional (.object schema)) →
      code.Yields serve valid heap [record] q) :
    Code.Yields serve valid heap [pointer]
      (.newPush :: value ++ .pushAt path :: .updateOne store :: code) q := by
  obtain ⟨id, rfl⟩ := hpointer.exists_pointer
  rw [List.cons_append]
  refine .cons [.pushDocument [], .pointer store id] (fun _ _ => rfl) (hvalue.append ?_)
  intro item hitem
  refine .cons [.pushDocument [(".".intercalate path, item)], .pointer store id] ?_ ?_
  · intro stack stores
    simp [Instruction.execute, Value.setNested?_pushDocument]
  · refine .ask [] hserve (.update id hstore hpath hitem) ?_ hrest
    intro stack stores
    simp [Instruction.execute]

/-- By induction on the elaboration, all code of expressions does what its types say. The
literals and the variables start it, and each chain hands on the value that the next link works
on. -/
theorem Elaborates.sound {part : Part} {code : Code} (h : Elaborates m scope part code)
    (hserve : serve.Serves m valid)
    (hstores : ∀ name schema, m.store? name = some schema → (DataType.object schema).Proper)
    (hscope : scope.AllTypes DataType.Proper) (hheap : scope.Holds heap) :
    part.Sound serve valid heap code := by
  induction h with
  | @ofVariable _ _ _ _ _ held _ hheld _ _ hfits ih =>
      intro htarget
      obtain ⟨value, hslot, hvalue⟩ := hheap hheld
      obtain ⟨htype, hchain⟩ := ih (hscope.of_get? hheld)
      have hexecute : ∀ stack stores, Instruction.execute serve ⟨stack, heap, stores⟩
          (.copyFromHeap held.slot) = some ⟨value :: stack, heap, stores⟩ := by
        intro stack stores
        simp [Instruction.execute, hslot, Machine.push]
      refine .cons [value] hexecute ((hchain value hvalue).mono ?_)
      intro result hresult
      exact hresult.of_compatible htype.concrete htarget.distinct hfits
  | all _ hstore hfits | rows _ hstore hfits =>
      intro htarget
      exact .answer hserve (.all hstore) (fun _ _ => rfl) (hstores _ _ hstore).array htarget hfits
  | count _ hstore hfits =>
      intro htarget
      exact .answer hserve (.count hstore) (fun _ _ => rfl) ⟨rfl, rfl⟩ htarget hfits
  | pointers _ hstore hfits =>
      intro htarget
      exact .answer hserve (.query hstore) (fun _ _ => rfl) ⟨rfl, rfl⟩ htarget hfits
  | text hfits =>
      intro htarget
      exact .constant (fun _ _ => rfl) .text ⟨rfl, rfl⟩ htarget hfits
  | int hfits =>
      intro htarget
      exact .constant (fun _ _ => rfl) .int ⟨rfl, rfl⟩ htarget hfits
  | double hfits =>
      intro htarget
      exact .constant (fun _ _ => rfl) .double ⟨rfl, rfl⟩ htarget hfits
  | append | openArray | openObject =>
      -- Without an expected type there is nothing to show.
      intro htarget
      cases htarget.concrete
  | array _ ih =>
      intro htarget
      refine .cons [.array []] (fun _ _ => rfl) (ih htarget.elem _ (.array ?_))
      simp
  | object _ hexpected hcomplete _ ih =>
      intro htarget
      refine .cons [.object []] (fun _ _ => rfl) ((ih htarget hexpected [] _ .empty).mono ?_)
      intro record hrecord
      refine hrecord.conforms ?_
      intro name
      rw [List.nil_append]
      exact ⟨hexpected name, fun h => hcomplete name (DataType.field?_isSome_iff.mp h)⟩
  | noElements =>
      intro _ value hvalue
      exact .nil hvalue
  | element _ _ ihvalue ihrest =>
      intro helem found hfound
      exact .arrayPush (ihvalue helem) hfound (ihrest helem)
  | @noFields expected =>
      cases expected with
      | none => trivial
      | some expected =>
          intro _ _ names record hrecord
          refine .nil ?_
          simpa using hrecord
  | @field expected _ _ name _ rest _ _ _ _ ihvalue ihrest =>
      cases expected with
      | none => trivial
      | some expected =>
          intro hexpected hknown names record hrecord
          rw [List.map_cons, List.forall_mem_cons] at hknown
          obtain ⟨type, hfield⟩ := Option.isSome_iff_exists.mp hknown.1
          have htarget : Expr.fieldTarget (some expected) name = type := by
            simp [Expr.fieldTarget, hfield]
          rw [htarget] at ihvalue
          refine .setField hfield (ihvalue (hexpected.field hfield)) hrecord ?_
          intro next hnext
          simpa using ihrest hexpected hknown.2 _ next hnext
  | noRecords | record => trivial
  | stop =>
      intro hcurrent
      exact ⟨hcurrent, fun value hvalue => .nil hvalue⟩
  | access hfield _ ih =>
      intro hcurrent
      obtain ⟨htype, hrest⟩ := ih (hcurrent.field hfield)
      exact ⟨htype, fun record hrecord => .getField hfield hrecord hrest⟩
  | delete hstore _ ih =>
      intro _
      obtain ⟨htype, hrest⟩ := ih ⟨rfl, rfl⟩
      refine ⟨htype, ?_⟩
      intro value hvalue
      obtain ⟨id, rfl⟩ := hvalue.exists_pointer
      refine .ask [] hserve (.delete id hstore) ?_ hrest
      intro stack stores
      simp [Instruction.execute]
  | find hstore _ ih =>
      intro _
      obtain ⟨htype, hrest⟩ := ih (hstores _ _ hstore).optional
      refine ⟨htype, ?_⟩
      intro value hvalue
      obtain ⟨id, rfl⟩ := hvalue.exists_pointer
      refine .ask [] hserve (.find id hstore) ?_ hrest
      intro stack stores
      simp [Instruction.execute]
  | update hstore _ _ _ ihchange ihrest =>
      intro _
      obtain ⟨elem, hpath, hchange⟩ := ihchange (hstores _ _ hstore)
      obtain ⟨htype, hrest⟩ := ihrest (hstores _ _ hstore).optional
      exact ⟨htype, fun pointer hpointer => .updateOne hserve hstore hpath hchange hpointer hrest⟩
  | length _ ih =>
      intro _
      obtain ⟨htype, hrest⟩ := ih ⟨rfl, rfl⟩
      refine ⟨htype, ?_⟩
      rintro _ ⟨_⟩
      exact .cons [.int _] (fun _ _ => rfl) (hrest _ .int)
  | push _ ih =>
      intro hcurrent
      exact ⟨_, .here _, ih hcurrent.elem⟩
  | descend hfield _ ih =>
      intro hcurrent
      obtain ⟨elem, hpath, hvalue⟩ := ih (hcurrent.field hfield)
      exact ⟨elem, .field hfield hpath, hvalue⟩

end

/-- The type that goes with the code is the expected one, up to open parts. -/
theorem Elaborates.compatible {target type : DataType} {expr : Expr} {code : Code}
    (h : Elaborates m scope (.value target expr type) code)
    (hdistinct : target.isDistinct = true) : target.compatible type = true := by
  cases h with
  | ofVariable _ _ _ hfits => exact hfits
  | all _ _ hfits | count _ _ hfits | rows _ _ hfits | pointers _ _ hfits => exact hfits
  | text hfits | int hfits | double hfits => exact hfits
  | append | openArray | openObject => simp [DataType.compatible]
  | array | object => exact DataType.compatible_self hdistinct

/-! ## Accepted expressions -/

/-- What is known of a user. -/
structure User where
  id : Nat
  name : String
  friends : List String

namespace User

def record (user : User) : Value :=
  .object [("friends", .array (user.friends.map .text)), ("name", .text user.name)]

def find (users : List User) (id : Nat) : Value :=
  ((users.find? (·.id == id)).map record).getD .absent

/-- The users with one more friend for one of them. -/
def befriend (users : List User) (id : Nat) (friend : String) : List User :=
  users.map fun user =>
    if user.id = id then { user with friends := user.friends ++ [friend] } else user

/-- A service for users. None can join. -/
def serve : Service (List User)
  | .all _, users => (.array (users.map record), users)
  | .query store _, users => (.array (users.map fun user => .pointer store user.id), users)
  | .count _, users => (.int users.length, users)
  | .find _ _ id, users => (find users id, users)
  | .delete _ id, users => (.bool (users.any (·.id == id)), users.filter (·.id != id))
  | .update _ id (.object [(_, .object [(_, .text friend)])]), users =>
    (find (befriend users id friend) id, befriend users id friend)
  | .update .., users | .insert .., users => (.absent, users)

/-- The record of a user has the type of the store. -/
theorem record_conforms (user : User) : user.record.Conforms (.object Fields.ofUser) := by
  refine .object ?_ ?_
  · intro name
    simp only [DataType.field?, Fields.ofUser, List.lookup_cons, List.lookup_nil]
    cases name == "friends" <;> cases name == "name" <;> rfl
  · intro name type value hfield hvalue
    simp only [DataType.field?, Fields.ofUser, List.lookup_cons, List.lookup_nil] at hfield hvalue
    cases hfriends : name == "friends" with
    | true =>
        rw [hfriends] at hfield hvalue
        cases hfield
        cases hvalue
        refine .array ?_
        intro item hitem
        obtain ⟨friend, _, rfl⟩ := List.mem_map.mp hitem
        exact .text
    | false =>
        rw [hfriends] at hfield hvalue
        cases hname : name == "name" with
        | true =>
            rw [hname] at hfield hvalue
            cases hfield
            cases hvalue
            exact .text
        | false =>
            rw [hname] at hfield
            cases hfield

theorem find_conforms (users : List User) (id : Nat) :
    (find users id).Conforms (.optional (.object Fields.ofUser)) := by
  unfold find
  cases users.find? (·.id == id) with
  | none => exact .absent
  | some user => exact .present user.record_conforms

/-- There is no store but that of users. -/
theorem schema_eq {store : String} {schema : Fields}
    (h : Manifest.ofUsers.store? store = some schema) : schema = Fields.ofUser := by
  simp only [Manifest.store?, Manifest.get?, Manifest.ofUsers, List.find?, Entity.name] at h
  cases hname : "users" == store with
  | true =>
      rw [hname] at h
      exact (Option.some.inj h).symm
  | false =>
      rw [hname] at h
      cases h

/-- The service answers every sensible request by its type, in every state. -/
theorem serve_serves : serve.Serves .ofUsers fun _ => True := by
  intro request type users htyped _
  refine ⟨?_, trivial⟩
  cases htyped with
  | all hstore =>
      cases schema_eq hstore
      refine .array ?_
      intro item hitem
      obtain ⟨user, _, rfl⟩ := List.mem_map.mp hitem
      exact user.record_conforms
  | query hstore =>
      refine .array ?_
      intro item hitem
      obtain ⟨user, _, rfl⟩ := List.mem_map.mp hitem
      exact .pointer
  | count => exact .int
  | find id hstore =>
      cases schema_eq hstore
      exact find_conforms users id
  | delete => exact .bool
  | @update _ _ id _ _ value hstore =>
      cases schema_eq hstore
      cases value with
      | text friend => exact find_conforms _ id
      | _ => exact .absent

end User

/-- A user is given a friend, by a pointer. -/
def Expr.befriendAlice : Expr :=
  .reference {} "user"
    [.method {} "deref"
      [.lambda {} "row"
        [.reference {} "row" [.field {} "friends", .method {} "append" [.string {} "alice"]],
          .ret {} (some (.reference {} "row" []))]]]

/-- The function that gives a user a friend. -/
def Function.befriendAlice : Function where
  name := "run"
  parameter := some ⟨"user", .ref "users"⟩
  result := some (.optional (.object Fields.ofUser))
  body := [.ret {} (some .befriendAlice)]

/-- The scope of its body. -/
def Scope.ofUser : Scope where
  bindings := [("user", ⟨0, .ref "users"⟩)]
  level := ["user"]
  count := 1

/-- A pointer to a user lies where the parameter is expected. -/
theorem Scope.ofUser_holds (id : Nat) : Scope.ofUser.Holds [.pointer "users" id] := by
  intro name held hheld
  simp only [Scope.get?, Scope.ofUser, List.lookup_cons, List.lookup_nil] at hheld
  cases hname : name == "user" with
  | true =>
      rw [hname] at hheld
      cases hheld
      exact ⟨_, rfl, .pointer⟩
  | false =>
      rw [hname] at hheld
      cases hheld

/-- All types of the function and of the store are proper. -/
theorem Function.befriendAlice_allTypes :
    Function.befriendAlice.AllTypes DataType.Proper .ofUsers := by
  have huser : (DataType.object Fields.ofUser).Proper := ⟨by decide, by decide⟩
  refine ⟨?_, ?_, ?_, ?_⟩
  · intro name schema hstore
    exact User.schema_eq hstore ▸ huser
  · rintro _ ⟨⟩
    exact ⟨rfl, rfl⟩
  · intro o ho loc name type value hstatement
    obtain rfl : o = ⟨[0], .ret {} (some .befriendAlice)⟩ := by
      simpa [Function.occurrences, Function.befriendAlice, Statement.occurrences,
        Statement.inside] using ho
    cases hstatement
  · rintro _ ⟨⟩
    exact huser.optional

end StoredProc
