import StoredProc.Compile.Batch
import StoredProc.Proofs.Compile.JumpSkeleton
import StoredProc.Proofs.Manifest.Registry

/-! # Programs that need nothing else

All that the procedures of a program refer to is in the program. A parameter is checked
against its own schema in the table, and every store that an operation works on is a
store of the program. The names of stores come into the code with references and with
the types of pointers, at any depth of an expression, and the compiler has looked up
each of them.
-/

namespace StoredProc

/-! ## Stores in the code -/

namespace Op

/-- The kinds of operations that work on a store. -/
def usesStore (op : Op) : Bool :=
  ["getAllFromStore", "queryStore", "insertFromStack", "storeLen", "findOneInStore",
    "deleteOneInStore", "updateOne"].contains op.kind

/-- The store in the payload of an operation. -/
def store? (op : Op) : Option String :=
  match op.kind, op.data with
  | "getAllFromStore", .text store => some store
  | "queryStore", .list (.text store :: _) => some store
  | "insertFromStack", .text store => some store
  | "storeLen", .text store => some store
  | "findOneInStore", .list (.record [("store", .text store)] :: _) => some store
  | "deleteOneInStore", .record [("store", .text store)] => some store
  | "updateOne", .text store => some store
  | _, _ => none

/-- Whether an operation checks a value of the heap. -/
def isCheck (op : Op) : Bool := op.kind == "enforceSchemaOnHeap"

end Op

namespace Instruction

/-- The store that an instruction works on. -/
@[simp]
def store? : Instruction → Option String
  | .getAll store | .query store _ | .insert store | .storeLen store | .findOne store _
  | .deleteOne store | .updateOne store => some store
  | _ => none

theorem store?_toOp (instruction : Instruction) : instruction.toOp.store? = instruction.store? := by
  cases instruction <;> rfl

theorem usesStore_toOp (instruction : Instruction) :
    instruction.toOp.usesStore = instruction.store?.isSome := by
  cases instruction <;> rfl

theorem of_isCheck_toOp {instruction : Instruction} (h : instruction.toOp.isCheck = true) :
    ∃ slot schema, instruction = .enforceSchema slot schema := by
  cases instruction with
  | enforceSchema slot schema => exact ⟨slot, schema, rfl⟩
  | _ => cases h

theorem toOp_eq_enforceSchemaOnHeap {instruction : Instruction} {slot schema : Nat}
    (h : instruction.toOp = .enforceSchemaOnHeap slot schema) :
    instruction = .enforceSchema slot schema := by
  obtain ⟨slot', schema', rfl⟩ := of_isCheck_toOp (by rw [h]; rfl)
  simp only [toOp, Op.enforceSchemaOnHeap, Op.mk.injEq, Operand.record.injEq, List.cons.injEq,
    Prod.mk.injEq, Operand.int.injEq, Int.natCast_inj] at h
  rw [h.2.1.2, h.2.2.1.2]

end Instruction

/-- Code that works on stores of a manifest only. -/
def Code.UsesStores (m : Manifest) (code : Code) : Prop :=
  ∀ instruction ∈ code, ∀ store, instruction.store? = some store → (m.store? store).isSome = true

namespace Code.UsesStores

variable {m : Manifest}

@[simp]
theorem nil : Code.UsesStores m [] := by simp [UsesStores]

@[simp]
theorem cons {instruction : Instruction} {code : Code} :
    Code.UsesStores m (instruction :: code) ↔
      (∀ store, instruction.store? = some store → (m.store? store).isSome = true) ∧
        Code.UsesStores m code :=
  List.forall_mem_cons

@[simp]
theorem append {first second : Code} :
    Code.UsesStores m (first ++ second) ↔ Code.UsesStores m first ∧ Code.UsesStores m second :=
  List.forall_mem_append

end Code.UsesStores

variable {m : Manifest} {scope : Scope} {target : DataType}

/-- Records are inserted into one store. All other code of expressions names only stores
that were looked up for it. -/
theorem Elaborates.usesStores {part : Part} {code : Code} (h : Elaborates m scope part code)
    (hrecords : ∀ store schema exprs, part = .records store schema exprs →
      (m.store? store).isSome = true) : code.UsesStores m := by
  induction h with
  | ofVariable _ _ _ _ ih => simpa using ih
  | append _ hstore _ ih =>
      refine ih fun store schema exprs heq => ?_
      cases heq
      rw [hstore]
      rfl
  | all _ hstore | count _ hstore | rows _ hstore | pointers _ hstore => simp [hstore]
  | text | int | double | noElements | noFields | noRecords | stop => simp
  | array _ ih | openArray _ ih | object _ _ _ _ ih | openObject _ _ ih | access _ _ ih
  | length _ ih | push _ ih | descend _ _ ih => simpa using ih
  | element _ _ ihvalue ihrest | field _ _ ihvalue ihrest =>
      simpa using And.intro ihvalue ihrest
  | record _ _ ihvalue ihrest =>
      have hstore := hrecords _ _ _ rfl
      have hrest := ihrest fun store schema exprs heq => by
        cases heq
        exact hstore
      simpa [hstore, hrest] using ihvalue
  | delete hstore _ ih | find hstore _ ih => simpa [hstore] using ih
  | update hstore _ _ _ ihchange ihrest => simpa [hstore] using And.intro ihchange ihrest

theorem Expr.usesStores_code {expr : Expr} {code : Code} {type : DataType}
    (h : expr.code m scope target = .ok (code, type)) : code.UsesStores m :=
  (elaborates_of_code h).usesStores fun _ _ _ heq => by cases heq

/-- The stores in the code of a statement are those that its expressions resolve to. -/
theorem Plain.usesStores {statement : Statement} {code : Code} {after : Scope}
    (h : Plain m target scope statement code after) : code.UsesStores m := by
  cases h with
  | effect hcode => exact Expr.usesStores_code hcode
  | create hcode | valueReturn _ hcode => simpa using Expr.usesStores_code hcode
  | bareReturn => simp

/-- Jumps and the clearing of the heap name no store, so a block uses the stores of its
statements. -/
theorem Lowering.usesStores {final : Scope} {statements : List Statement} {steps : List Step}
    (h : Lowering m target scope statements steps final) (base : Nat) :
    Code.UsesStores m (Step.assembleAll base steps) := by
  induction h generalizing base with
  | done => simp [Step.assembleAll]
  | plain _ hplain _ _ ih =>
      rw [Step.assembleAll, Code.UsesStores.append]
      exact ⟨hplain.usesStores, ih _⟩
  | @branch _ _ _ _ _ _ _ _ block _ _ htest _ _ _ ihinner ihrest =>
      have hcode := Expr.usesStores_code htest
      rw [Step.assembleAll, Code.UsesStores.append]
      refine ⟨?_, ihrest _⟩
      rcases Step.cleanup_cases block.scope.stop.1 with heq | ⟨_, heq⟩ <;>
        simp [Step.assemble, heq, hcode, ihinner]

/-! ## The check of the parameter -/

/-- No statement checks a schema. -/
theorem Site.Emits.ne_enforceSchema {s : Site} {address : Nat} {instruction : Instruction}
    (h : s.Emits address instruction) (slot schema : Nat) :
    instruction ≠ .enforceSchema slot schema := by
  intro heq
  cases h with
  | compute _ _ _ hcomputes =>
      rw [heq] at hcomputes
      exact hcomputes
  | @cleanup _ _ body _ =>
      rcases Step.cleanup_cases (Statement.declared body) with hcleanup | ⟨_, hcleanup⟩ <;>
        rw [hcleanup] at heq <;> cases heq
  | store | leave | negate | jump => cases heq

namespace Function

variable {r : Registry} {f : Function} {p : Procedure} {prologue : Code} {block : Block}

/-- The parameter is checked against the schema that is registered for the function. -/
theorem prologue_eq (h : entry r f = .ok (prologue, scope)) :
    (f.parameter = none ∧ prologue = []) ∨
      ∃ parameter index, f.parameter = some parameter ∧ r.parameterIndex? f.name = some index ∧
        prologue = [.enforceSchema parameterSlot index] := by
  unfold entry at h
  split at h
  next hnone =>
    cases h
    exact Or.inl ⟨hnone, rfl⟩
  next parameter hsome =>
    split at h
    next => simp at h
    next index hindex =>
      cases h
      exact Or.inr ⟨parameter, index, hsome, hindex, rfl⟩

namespace Accepted

/-- Neither the check of the parameter nor the last operation of a procedure names a store. -/
theorem usesStores (h : f.Accepted m r p prologue scope block) : p.code.UsesStores m := by
  rw [h.code_eq, Code.UsesStores.append]
  refine ⟨?_, h.lowering.usesStores _⟩
  rcases prologue_eq h.entry_eq with ⟨_, rfl⟩ | ⟨_, _, _, _, rfl⟩ <;> simp

/-- Only a parameter is checked, and this comes first. -/
theorem getElem?_eq_enforceSchema_iff (h : f.Accepted m r p prologue scope block)
    {address slot schema : Nat} :
    p.code[address]? = some (.enforceSchema slot schema) ↔
      address = 0 ∧ slot = parameterSlot ∧ f.parameter.isSome = true ∧
        r.parameterIndex? f.name = some schema := by
  have hfirst : ∀ {instruction : Instruction}, prologue[address]? = some instruction →
      (instruction = .enforceSchema slot schema ↔
        address = 0 ∧ slot = parameterSlot ∧ f.parameter.isSome = true ∧
          r.parameterIndex? f.name = some schema) := by
    intro instruction hinstruction
    rcases prologue_eq h.entry_eq with ⟨_, rfl⟩ | ⟨parameter, index, hparameter, hindex, rfl⟩
    · cases hinstruction
    · rw [List.getElem?_singleton] at hinstruction
      split at hinstruction
      next hzero =>
        cases hinstruction
        simp [hzero, hparameter, hindex, eq_comm]
      next => cases hinstruction
  rcases Nat.lt_or_ge address prologue.length with hlt | hle
  · rw [← hfirst (List.getElem?_eq_getElem hlt), h.code_eq, List.getElem?_append_left hlt,
      List.getElem?_eq_getElem hlt, Option.some.injEq]
  · refine iff_of_false ?_ ?_
    · intro hcheck
      obtain ⟨s, _, found, hfound, hemits⟩ :=
        h.exists_emits hle (List.getElem?_eq_some_iff.mp hcheck).1
      rw [hcheck, Option.some.injEq] at hfound
      exact hemits.ne_enforceSchema slot schema hfound.symm
    · rintro ⟨rfl, _, hparameter, _⟩
      rcases prologue_eq h.entry_eq with ⟨hnone, _⟩ | ⟨_, _, _, _, rfl⟩
      · simp [hnone] at hparameter
      · simp at hle

end Accepted

end Function

/-! ## Programs -/

/-- What a procedure refers to is in its program. -/
structure Program.Links (program : Program) (f : Function) (ops : List Op) : Prop where
  /-- A parameter is checked first, against its own type. -/
  check_iff : ∀ type, f.parameter.map Parameter.type = some type ↔
    ∃ index : Nat, ops[0]? = some (.enforceSchemaOnHeap 0 index) ∧
      program.schemas[index]? = some type
  /-- Nothing else is checked. -/
  check_first : ∀ address op, ops[address]? = some op → op.isCheck = true →
    address = 0 ∧ f.parameter.isSome = true
  /-- Operations on stores name stores of the program. -/
  store : ∀ op ∈ ops, op.usesStore = true →
    ∃ store type, op.store? = some store ∧ program.stores.lookup store = some type

/-- A program that has all its procedures need. -/
structure Program.Closed (m : Manifest) (program : Program) : Prop where
  schemas_eq : program.schemas =
    m.entities.filterMap fun entity => entity.schema?.map Prod.snd
  stores_distinct : Table.Distinct program.stores
  lookup_stores : ∀ name type, program.stores.lookup name = some type ↔
    ∃ fields, .store name fields ∈ m.entities ∧ type = .object fields
  procedures : ∀ entry ∈ program.procedures,
    ∃ f ∈ m.functions, f.name = entry.1 ∧ program.Links f entry.2

namespace Manifest

variable {r : Registry}

theorem mem_procedures {p : Procedure} :
    p ∈ m.procedures r ↔ ∃ f ∈ m.functions, f.compile m r = .ok p := by
  rw [procedures, List.mem_filterMap]
  refine exists_congr fun f => and_congr_right fun _ => ?_
  cases f.compile m r <;> simp [Except.toOption]

/-- A store that is looked up is declared. -/
theorem store_mem_of_store? {name : String} {fields : Fields} (h : m.store? name = some fields) :
    .store name fields ∈ m.entities := by
  unfold store? at h
  split at h
  next name' fields' hget =>
    cases h
    have hname := List.find?_some hget
    obtain rfl : name' = name := beq_iff_eq.mp hname
    exact List.mem_of_find?_eq_some hget
  next => cases h

theorem schemas_program (h : Registry.ofManifest m = .ok r) :
    (m.program r).schemas = m.entities.filterMap fun entity => entity.schema?.map Prod.snd := by
  rw [program, (Registry.ofManifest_eq_ok h).1]
  exact List.map_filterMap

theorem lookup_stores_program (h : Registry.ofManifest m = .ok r) (name : String)
    (type : DataType) :
    (m.program r).stores.lookup name = some type ↔
      ∃ fields, .store name fields ∈ m.entities ∧ type = .object fields := by
  obtain ⟨hr, hdistinct⟩ := Registry.ofManifest_eq_ok h
  have hmem : ∀ fields, (name, fields) ∈ r.stores ↔ .store name fields ∈ m.entities := by
    intro fields
    simp [hr, Registry.append, Entity.store?_eq_some]
  simp only [program, Table.lookup_map, Option.map_eq_some_iff,
    Table.lookup_eq_some_iff hdistinct.stores, hmem, eq_comm]

/-- A procedure finds its checks among the schemas and its stores among the stores of the
program. -/
theorem links_of_compile (h : Registry.ofManifest m = .ok r) {f : Function} {p : Procedure}
    (hf : f ∈ m.functions) (hp : f.compile m r = .ok p) : (m.program r).Links f p.ops := by
  obtain ⟨prologue, scope, block, haccepted⟩ := Function.exists_accepted hp
  have hops : ∀ {address : Nat} {op : Op}, p.ops[address]? = some op →
      ∃ instruction, p.code[address]? = some instruction ∧ instruction.toOp = op := by
    intro address op hop
    rwa [Procedure.ops, List.getElem?_map, Option.map_eq_some_iff] at hop
  have hschema : ∀ {parameter : Parameter} {index : Nat}, f.parameter = some parameter →
      r.parameterIndex? f.name = some index →
        (m.program r).schemas[index]? = some parameter.type := fun hparameter hindex =>
    Registry.schema_of_parameterIndex? h (mem_functions.mp hf) hparameter hindex
  refine ⟨?check_iff, ?check_first, ?store⟩
  case check_iff =>
    intro type
    constructor
    · intro htype
      obtain ⟨parameter, hparameter, rfl⟩ := Option.map_eq_some_iff.mp htype
      obtain ⟨index, hindex⟩ := Option.ne_none_iff_exists'.mp
        (Registry.parameterIndex?_ne_none h (mem_functions.mp hf) hparameter)
      have hcheck := haccepted.getElem?_eq_enforceSchema_iff.mpr
        ⟨rfl, rfl, by simp [hparameter], hindex⟩
      refine ⟨index, ?_, hschema hparameter hindex⟩
      rw [Procedure.ops, List.getElem?_map, hcheck]
      rfl
    · rintro ⟨index, hop, htype⟩
      obtain ⟨instruction, hinstruction, heq⟩ := hops hop
      rw [Instruction.toOp_eq_enforceSchemaOnHeap heq] at hinstruction
      obtain ⟨_, _, hsome, hindex⟩ := haccepted.getElem?_eq_enforceSchema_iff.mp hinstruction
      obtain ⟨parameter, hparameter⟩ := Option.isSome_iff_exists.mp hsome
      rw [hparameter, ← htype, hschema hparameter hindex]
      rfl
  case check_first =>
    intro address op hop hcheck
    obtain ⟨instruction, hinstruction, rfl⟩ := hops hop
    obtain ⟨slot, schema, rfl⟩ := Instruction.of_isCheck_toOp hcheck
    obtain ⟨haddress, _, hsome, _⟩ := haccepted.getElem?_eq_enforceSchema_iff.mp hinstruction
    exact ⟨haddress, hsome⟩
  case store =>
    intro op hop huses
    obtain ⟨instruction, hinstruction, rfl⟩ := List.mem_map.mp hop
    rw [Instruction.usesStore_toOp] at huses
    obtain ⟨store, hstore⟩ := Option.isSome_iff_exists.mp huses
    obtain ⟨fields, hfields⟩ := Option.isSome_iff_exists.mp
      (haccepted.usesStores instruction hinstruction store hstore)
    refine ⟨store, .object fields, by rw [Instruction.store?_toOp, hstore], ?_⟩
    exact (lookup_stores_program h store _).mpr ⟨fields, store_mem_of_store? hfields, rfl⟩

/-- The program of a manifest is closed, also if functions of the manifest are missing
in it. -/
theorem compile_closed {build : Build} (h : m.compile = .ok build) : build.program.Closed m := by
  obtain ⟨r, hr, hbuild⟩ := bind_ok_iff.mp h
  cases hbuild
  refine ⟨schemas_program hr, ?_, lookup_stores_program hr, ?_⟩
  · have hdistinct := (Registry.ofManifest_eq_ok hr).2.stores
    rw [Table.Distinct, program, List.map_map]
    exact hdistinct
  · intro entry hentry
    obtain ⟨p, hp, rfl⟩ := List.mem_map.mp hentry
    obtain ⟨f, hf, hcompile⟩ := mem_procedures.mp hp
    obtain ⟨_, _, _, _, hname, _⟩ := Function.exists_accepted_frame hcompile
    exact ⟨f, hf, hname.symm, links_of_compile hr hf hcompile⟩

/-- Entities of all kinds. One of the functions refers to nothing that exists. -/
def ofGuests : Manifest where
  entities :=
    [.struct "Guest" [("name", .string)],
      .function
        { name := "count"
          result := some .int
          body := [.ret {} (some (.reference {} "guests" [.method {} "len" []]))] },
      .enum "Color" ["red"],
      .function { name := "lost", body := [.reference {} "hotels" []] },
      .store "guests" [("name", .string)],
      .function (.ofFlag none [.ifThen {} .flag [.reference {} "guests" []]])]

/-- A function that refers to nothing that exists is reported, and the program is closed without
it. -/
theorem compile_closed_ofGuests :
    ∃ build, ofGuests.compile = .ok build ∧ build.program.Closed ofGuests ∧
      build.program.schemas = [.object [("name", .string)], .bool] ∧
      build.program.procedures.map Prod.fst = ["count", "run"] ∧
      build.failures.map FunctionError.function = ["lost"] := by
  have hnames : ofGuests.compile.toOption.map (fun build =>
      (build.program.procedures.map Prod.fst, build.failures.map FunctionError.function)) =
        some (["count", "run"], ["lost"]) := by
    decide +kernel
  cases hcompile : ofGuests.compile with
  | error cause => simp [hcompile, Except.toOption] at hnames
  | ok build =>
      have hclosed := compile_closed hcompile
      simp only [hcompile, Except.toOption, Option.map_some, Option.some.injEq,
        Prod.mk.injEq] at hnames
      exact ⟨build, rfl, hclosed, hclosed.schemas_eq, hnames⟩

end Manifest

end StoredProc
