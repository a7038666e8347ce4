import Mathlib.Data.List.Basic
import StoredProc.Proofs.Compile.BranchFlow
import StoredProc.Proofs.Compile.Visibility

/-! # What names stand for

A name stands for the declaration that is visible where the name is written, and if
there is none it names a store. The slots that a procedure reads are the numbers of
these declarations, reference by reference in the order of the text. Each declaration
stores one value, and the frame has a slot for each of them.
-/

namespace StoredProc

/-! ## References -/

mutual

/-- The names that are looked up for an expression, in the order of the text. -/
@[simp]
def Expr.references : Expr → List String
  | .reference _ name dots => name :: Dot.referencesAll dots
  | .string .. | .number .. => []
  | .array _ elements => Expr.referencesAll elements
  | .object _ fields => Expr.referencesFields fields
  | .lambda _ _ body => Statement.rowReferences body

@[simp]
def Dot.references : Dot → List String
  | .field .. => []
  | .method _ _ args => Expr.referencesAll args

@[simp]
def Expr.referencesAll : List Expr → List String
  | [] => []
  | expr :: rest => expr.references ++ Expr.referencesAll rest

@[simp]
def Expr.referencesFields : List (String × Expr) → List String
  | [] => []
  | (_, value) :: rest => value.references ++ Expr.referencesFields rest

@[simp]
def Dot.referencesAll : List Dot → List String
  | [] => []
  | dot :: rest => dot.references ++ Dot.referencesAll rest

/-- The statements of an anonymous function start with its row. The row is not looked
up, but names in the arguments of its methods are. -/
@[simp]
def Statement.rowReferences : List Statement → List String
  | [] => []
  | .reference _ _ dots :: rest => Dot.referencesAll dots ++ Statement.rowReferences rest
  | .ret _ (some (.reference _ _ dots)) :: rest =>
    Dot.referencesAll dots ++ Statement.rowReferences rest
  | _ :: rest => Statement.rowReferences rest

end

/-- The names that are looked up for a statement, those in its body excepted. -/
def Statement.references : Statement → List String
  | .reference loc name dots => (Expr.reference loc name dots).references
  | .create _ _ _ value => value.references
  | .ret _ value => (value.map Expr.references).getD []
  | .ifThen _ condition _ => condition.references
  | .forIn _ _ iterable _ => iterable.references

/-- The names that are looked up for a function, each with the position of its
statement. -/
def Function.references (f : Function) : List (List Nat × String) :=
  f.occurrences.flatMap fun o => o.statement.references.map fun name => (o.position, name)

@[simp]
def Part.references : Part → List String
  | .value _ expr _ => expr.references
  | .elements _ exprs | .records _ _ exprs => Expr.referencesAll exprs
  | .fields _ entries _ => Expr.referencesFields entries
  | .chain _ dots _ | .change _ dots _ => Dot.referencesAll dots

/-! ## Slots that are read -/

/-- The slot that an instruction reads. -/
@[simp]
def Instruction.reads? : Instruction → Option Nat
  | .copyFromHeap slot => some slot
  | _ => none

/-- The slots that some code reads, in its order. -/
def Code.reads (code : Code) : List Nat := code.filterMap Instruction.reads?

namespace Code

@[simp]
theorem reads_nil : Code.reads [] = [] := rfl

@[simp]
theorem reads_cons (instruction : Instruction) (code : Code) :
    Code.reads (instruction :: code) = instruction.reads?.toList ++ Code.reads code := by
  cases h : instruction.reads? with
  | none => exact List.filterMap_cons_none h
  | some slot => exact List.filterMap_cons_some h

@[simp]
theorem reads_append (first second : Code) :
    Code.reads (first ++ second) = Code.reads first ++ Code.reads second :=
  List.filterMap_append

end Code

/-- The slots of the names that are variables. -/
def Scope.slots (scope : Scope) (names : List String) : List Nat :=
  names.filterMap fun name => (scope.get? name).map Variable.slot

namespace Scope

variable (scope : Scope)

@[simp]
theorem slots_nil : scope.slots [] = [] := rfl

@[simp]
theorem slots_append (first second : List String) :
    scope.slots (first ++ second) = scope.slots first ++ scope.slots second :=
  List.filterMap_append

variable {scope} {name : String}

theorem slots_cons_of_some {held : Variable} (h : scope.get? name = some held)
    (names : List String) : scope.slots (name :: names) = held.slot :: scope.slots names := by
  simp [slots, h]

theorem slots_cons_of_none (h : scope.get? name = none) (names : List String) :
    scope.slots (name :: names) = scope.slots names := by
  simp [slots, h]

end Scope

variable {m : Manifest} {target : DataType} {scope : Scope} {code : Code}

namespace Elaborates

variable {part : Part}

/-- The variables among the references are read, in the order of the references. -/
theorem reads_eq (h : Elaborates m scope part code) :
    code.reads = scope.slots part.references := by
  induction h with
  | ofVariable hheld _ _ _ ih => simpa [Scope.slots_cons_of_some hheld] using ih
  | append hfree _ _ ih => simpa [Scope.slots_cons_of_none hfree] using ih
  | all hfree | count hfree | rows hfree | pointers hfree =>
      simp [Scope.slots_cons_of_none hfree]
  | text | int | double | noElements | noFields | noRecords | stop => simp
  | array _ ih | openArray _ ih | object _ _ _ _ ih | openObject _ _ ih => simpa using ih
  | element _ _ ihvalue ihrest | field _ _ ihvalue ihrest | record _ _ ihvalue ihrest
  | update _ _ _ _ ihvalue ihrest => simp [ihvalue, ihrest] at *
  | access _ _ ih | delete _ _ ih | find _ _ ih | length _ ih | push _ ih | descend _ _ ih =>
      simpa using ih

/-- A name that is not a variable names a store. -/
theorem store_of_free (h : Elaborates m scope part code) :
    ∀ name ∈ part.references, scope.get? name = none → (m.store? name).isSome = true := by
  induction h with
  | ofVariable hheld _ _ _ ih =>
      simp only [Part.references, Expr.references, List.forall_mem_cons] at ih ⊢
      exact ⟨fun hfree => by simp [hheld] at hfree, ih⟩
  | append _ hstore _ ih =>
      simpa [hstore] using ih
  | all _ hstore | count _ hstore | rows _ hstore | pointers _ hstore => simp [hstore]
  | text | int | double | noElements | noFields | noRecords | stop => simp
  | array _ ih | openArray _ ih | object _ _ _ _ ih | openObject _ _ ih => exact ih
  | element _ _ ihvalue ihrest | field _ _ ihvalue ihrest | record _ _ ihvalue ihrest
  | update _ _ _ _ ihvalue ihrest => simpa [or_imp, forall_and] using And.intro ihvalue ihrest
  | access _ _ ih | delete _ _ ih | find _ _ ih | length _ ih | push _ ih | descend _ _ ih =>
      simpa using ih

end Elaborates

/-- A reference to a variable starts with reading its slot, and any other is to a
store. -/
theorem Expr.head?_code_reference {loc : Location} {name : String} {dots : List Dot}
    {type : DataType} (h : (Expr.reference loc name dots).code m scope target = .ok (code, type)) :
    (∀ held, scope.get? name = some held → code.head? = some (.copyFromHeap held.slot)) ∧
      (scope.get? name = none → (m.store? name).isSome = true) := by
  have helaborates := elaborates_of_code h
  refine ⟨?_, helaborates.store_of_free name List.mem_cons_self⟩
  intro held hheld
  cases helaborates with
  | ofVariable hfound =>
      rw [hheld, Option.some.injEq] at hfound
      rw [hfound]
      rfl
  | all hfree | append hfree | count hfree | rows hfree | pointers hfree => simp [hheld] at hfree

/-! ## Statements -/

/-- The slots that a statement reads, those read in its body excepted. -/
def Site.reads (s : Site) : List Nat := s.scope.slots s.statement.references

namespace Plain

variable {statement : Statement} {after : Scope}

/-- The code of a statement reads the slots of the variables that it names, in the order of the
text. -/
theorem reads_eq (h : Plain m target scope statement code after) :
    code.reads = scope.slots statement.references := by
  cases h with
  | effect hcode => exact (Expr.elaborates_of_code hcode).reads_eq
  | create hcode | valueReturn _ hcode =>
      simpa [Statement.references] using (Expr.elaborates_of_code hcode).reads_eq
  | bareReturn => rfl

theorem store_of_free (h : Plain m target scope statement code after) :
    ∀ name ∈ statement.references, scope.get? name = none → (m.store? name).isSome = true := by
  cases h with
  | effect hcode | create hcode | valueReturn _ hcode =>
      exact (Expr.elaborates_of_code hcode).store_of_free
  | bareReturn => simp [Statement.references]

/-- A declaration stores one value, and no other statement does. -/
theorem count_moveToHeap (h : Plain m target scope statement code after) :
    code.count .moveToHeap = Statement.declared [statement] := by
  have hnone : ∀ {value : Code}, value.Computes scope → value.count .moveToHeap = 0 :=
    fun hcomputes => List.count_eq_zero.mpr fun hmem => hcomputes _ hmem
  cases h with
  | effect hcode => exact hnone (Expr.code_computes hcode)
  | create hcode =>
      rw [List.count_append, hnone (Expr.code_computes hcode)]
      rfl
  | valueReturn _ hcode =>
      rw [List.count_append, hnone (Expr.code_computes hcode)]
      rfl
  | bareReturn => rfl

end Plain

namespace Step

/-- Besides its test and its body a branch reads nothing. -/
theorem reads_branch (base : Nat) (test : Code) (body : List Step) (fresh : Nat) :
    Code.reads ((Step.branch test body fresh).assemble base) =
      test.reads ++ Code.reads (assembleAll (jumpAddress base test + 1) body) := by
  rcases cleanup_cases fresh with heq | ⟨_, heq⟩ <;> simp [assemble, heq]

/-- Besides its test and its body a branch stores nothing. -/
theorem count_moveToHeap_branch (base : Nat) (test : Code) (body : List Step) (fresh : Nat) :
    ((Step.branch test body fresh).assemble base).count .moveToHeap =
      test.count .moveToHeap +
        (assembleAll (jumpAddress base test + 1) body).count .moveToHeap := by
  rcases cleanup_cases fresh with heq | ⟨_, heq⟩ <;> simp [assemble, heq]

end Step

namespace Lowering

open Statement

variable {final : Scope} {statements : List Statement} {steps : List Step}

/-- Statements read what they refer to, in the order of the text. -/
theorem reads_eq (h : Lowering m target scope statements steps final) (base index : Nat) :
    Code.reads (Step.assembleAll base steps) =
      (sites m target scope base index statements).flatMap Site.reads := by
  induction h generalizing base index with
  | done => simp [Step.assembleAll, sites]
  | plain hcompile hplain _ _ ih =>
      rw [sites_plain hcompile hplain, Step.assembleAll, Code.reads_append, List.flatMap_cons,
        ih _ (index + 1)]
      exact congrArg (· ++ _) hplain.reads_eq
  | @branch scope _ loc condition body rest test _ block _ hcompile htest _ _ _ ihinner ihrest =>
      have hcondition : Code.reads test = scope.slots condition.references :=
        (Expr.elaborates_of_code htest).reads_eq
      rw [sites_branch hcompile, Step.assembleAll, Code.reads_append, Step.reads_branch,
        hcondition, ihinner _ 0, ihrest _ (index + 1), List.flatMap_append, List.flatMap_cons,
        List.flatMap_map]
      rfl

/-- Every declaration stores one value. -/
theorem count_moveToHeap (h : Lowering m target scope statements steps final) (base index : Nat) :
    (Step.assembleAll base steps).count .moveToHeap =
      (occurrences index statements).countP Occurrence.isDeclaration := by
  induction h generalizing base index with
  | done => rfl
  | plain _ hplain _ _ ih =>
      rw [Step.assembleAll, List.count_append, ih _ (index + 1), occurrences,
        inside_eq_nil hplain, List.map_nil, List.countP_append]
      exact congrArg (· + _) hplain.count_moveToHeap
  | @branch _ _ loc condition body rest test _ block _ _ htest _ _ _ ihinner ihrest =>
      have hnone : test.count .moveToHeap = 0 :=
        List.count_eq_zero.mpr fun hmem => Expr.code_computes htest _ hmem
      rw [Step.assembleAll, List.count_append, Step.count_moveToHeap_branch, hnone, Nat.zero_add,
        ihinner _ 0, ihrest _ (index + 1), occurrences, List.countP_append, List.countP_cons_of_neg
          (by simp [Occurrence.isDeclaration, isDeclaration]), List.countP_map]
      rfl

/-- The highest slot is the last one that was given away. -/
theorem highest_eq (h : Lowering m target scope statements steps final)
    (hscope : scope.highest = scope.count - 1) : final.highest = final.count - 1 := by
  induction h with
  | done => exact hscope
  | plain _ hplain _ _ ih =>
      refine ih ?_
      cases hplain with
      | create _ hadd =>
          unfold Scope.add? at hadd
          split at hadd
          next => cases hadd
          next =>
            cases hadd
            simp only [hscope]
            omega
      | effect | bareReturn | valueReturn => exact hscope
  | branch _ _ _ hlowering _ ihinner ihrest =>
      refine ihrest ?_
      rw [hlowering.stop_eq]
      exact ihinner hscope

end Lowering

/-! ## Values that are stored -/

/-- The number of values that are stored on a way. -/
def Code.pushes (code : Code) (transits : List Transit) : Nat :=
  transits.countP fun t => code[t.address]? = some .moveToHeap

/-- Going forward, no instruction stores two values. -/
theorem Flow.pushes_le {start stop : Nat} {transits : List Transit}
    (h : Flow code start transits stop) (hforward : code.Forward) :
    code.pushes transits ≤ (code.drop start).count .moveToHeap := by
  induction h with
  | stay => exact Nat.zero_le _
  | @step address next stop instruction jumped transits hinstruction hnext _ ih =>
      obtain ⟨hlt, rfl⟩ := List.getElem?_eq_some_iff.mp hinstruction
      have hnext := hforward hinstruction hnext
      have hrest : (code.drop next).count .moveToHeap ≤
          (code.drop (address + 1)).count .moveToHeap :=
        (List.drop_sublist_drop_left code hnext).count_le _
      rw [List.drop_eq_getElem_cons hlt, List.count_cons, Code.pushes, List.countP_cons]
      simp only [hinstruction, Option.some.injEq, decide_eq_true_eq, beq_iff_eq]
      have hle := Nat.le_trans ih hrest
      exact Nat.add_le_add_right hle _

/-! ## Functions -/

namespace Function

variable {r : Registry} {f : Function} {p : Procedure}

namespace Accepted

variable {prologue : Code} {block : Block}

/-- The slots that a procedure reads are the numbers of the declarations that are
referred to. -/
theorem reads_eq (h : f.Accepted m r p prologue scope block) :
    p.code.reads = f.references.filterMap fun mention => f.resolve? mention.1 mention.2 := by
  have hprologue : Code.reads prologue = [] := by
    rcases entry_cases h.entry_eq with ⟨_, rfl, _⟩ | ⟨_, _, _, rfl, _⟩ <;> rfl
  have hmap := h.lowering.map_sites prologue.length 0
  rw [← h.sites_eq] at hmap
  rw [h.code_eq, Code.reads_append, hprologue, List.nil_append,
    h.lowering.reads_eq prologue.length 0, ← h.sites_eq, references, occurrences, ← hmap,
    List.filterMap_flatMap, List.flatMap_map]
  refine List.flatMap_congr fun s hs => ?_
  rw [List.filterMap_map]
  exact List.filterMap_congr fun name _ => h.slot_eq hs name

/-- What is looked up for a statement and is no variable is a store. -/
theorem store_of_free (h : f.Accepted m r p prologue scope block) {s : Site}
    (hs : s ∈ f.sites m r) :
    ∀ name ∈ s.statement.references, s.scope.get? name = none → (m.store? name).isSome = true := by
  rw [h.sites_eq] at hs
  obtain ⟨compiled, hcompiled, _⟩ := h.lowering.compile_of_mem_sites hs
  rcases Statement.compile_cases hcompiled with ⟨_, _, hplain, _⟩ |
    ⟨loc, condition, body, _, _, _, hstatement, htest, _⟩
  · exact hplain.store_of_free
  · rw [hstatement]
    exact (Expr.elaborates_of_code htest).store_of_free

/-- A declaration takes a name that is not in scope. -/
theorem free_of_declares? (h : f.Accepted m r p prologue scope block) {s : Site}
    (hs : s ∈ f.sites m r) {name : String} (hname : s.statement.declares? = some name) :
    s.scope.get? name = none := by
  rcases h.site_cases hs with ⟨_, _, _, _, hplain, _⟩ | ⟨_, _, _, _, _, hstatement, _⟩
  · generalize hstatement : s.statement = statement at hplain hname
    cases hplain with
    | create _ hadd =>
        cases hname
        exact (Scope.add?_eq_some hadd).2.2.unbound _ (List.mem_singleton_self _)
    | effect | bareReturn | valueReturn => cases hname
  · rw [hstatement] at hname
    cases hname

/-- The values that are there at first: that of the parameter. -/
theorem count_eq_parameter (h : f.Accepted m r p prologue scope block) :
    scope.count = f.parameter.toList.length := by
  rcases entry_cases h.entry_eq with ⟨hparameter, _, rfl⟩ | ⟨_, _, hparameter, _, rfl⟩ <;>
    rw [hparameter] <;> rfl

theorem highest_eq (h : f.Accepted m r p prologue scope block) :
    block.scope.highest = block.scope.count - 1 := by
  refine h.lowering.highest_eq ?_
  rcases entry_cases h.entry_eq with ⟨_, _, rfl⟩ | ⟨_, _, _, _, rfl⟩ <;> rfl

theorem count_eq_declarations (h : f.Accepted m r p prologue scope block) :
    block.scope.count = f.declarations.length := by
  rw [h.lowering.count_eq 0, h.count_eq_parameter, declarations, List.length_append,
    List.length_map, Occurrence.length_filterMap_declaration?]
  rfl

/-- A procedure stores as many values as its text declares variables. -/
theorem count_moveToHeap (h : f.Accepted m r p prologue scope block) :
    p.code.count .moveToHeap = f.occurrences.countP Occurrence.isDeclaration := by
  have hprologue : prologue.count .moveToHeap = 0 := by
    rcases entry_cases h.entry_eq with ⟨_, rfl, _⟩ | ⟨_, _, _, rfl, _⟩ <;> rfl
  rw [h.code_eq, List.count_append, hprologue, Nat.zero_add]
  exact h.lowering.count_moveToHeap _ 0

end Accepted

/-- The names of a function stand for what the text says, and its procedure reads and
stores accordingly. -/
structure Resolved (m : Manifest) (r : Registry) (f : Function) (p : Procedure) : Prop where
  /-- No name is visible twice. -/
  unique : ∀ o ∈ f.occurrences, Table.Distinct (f.visible o.position)
  /-- A declared name is not visible where it is declared. -/
  fresh : ∀ o ∈ f.occurrences, ∀ name, o.statement.declares? = some name →
    f.resolve? o.position name = none
  /-- A reference to a variable starts with reading the value of its declaration. -/
  start_eq : ∀ s ∈ f.sites m r, ∀ loc name dots target code type,
    (Expr.reference loc name dots).code m s.scope target = .ok (code, type) →
      ∀ number, f.resolve? s.position name = some number →
        code.head? = some (.copyFromHeap number)
  /-- The procedure reads the declarations that are referred to, and nothing else. -/
  reads_eq : p.code.reads = f.references.filterMap fun mention => f.resolve? mention.1 mention.2
  /-- All other references are to stores. -/
  store : ∀ mention ∈ f.references, f.resolve? mention.1 mention.2 = none →
    (m.store? mention.2).isSome = true
  frameSize_eq : p.frameSize = f.declarations.length
  highest_eq : p.highest = p.frameSize - 1
  /-- Every declaration but the parameter stores one value. -/
  stores_eq : p.code.count .moveToHeap = f.occurrences.countP Occurrence.isDeclaration
  /-- The frame is large enough for all values that are ever stored. -/
  pushes_le : ∀ transits address, Flow p.code 0 transits address →
    f.parameter.toList.length + p.code.pushes transits ≤ p.frameSize

/-- Names are resolved by the text alone. -/
theorem compile_resolved (h : f.compile m r = .ok p) : f.Resolved m r p := by
  obtain ⟨prologue, scope, block, haccepted, _, hhighest, hframe⟩ := exists_accepted_frame h
  refine ⟨?unique, ?fresh, ?start, haccepted.reads_eq, ?store, ?frame, ?highest,
    haccepted.count_moveToHeap, ?pushes⟩
  case unique =>
    intro o ho
    obtain ⟨s, hs, rfl⟩ := haccepted.exists_site ho
    exact haccepted.distinct_visible hs
  case fresh =>
    intro o ho name hname
    obtain ⟨s, hs, rfl⟩ := haccepted.exists_site ho
    rw [← haccepted.slot_eq hs, haccepted.free_of_declares? hs hname]
    rfl
  case start =>
    intro s hs loc name dots target code type hcode number hnumber
    rw [← haccepted.slot_eq hs] at hnumber
    obtain ⟨held, hheld, rfl⟩ := Option.map_eq_some_iff.mp hnumber
    exact (Expr.head?_code_reference hcode).1 held hheld
  case store =>
    intro mention hmention hnone
    obtain ⟨o, ho, hmention⟩ := List.mem_flatMap.mp hmention
    obtain ⟨name, hname, rfl⟩ := List.mem_map.mp hmention
    obtain ⟨s, hs, rfl⟩ := haccepted.exists_site ho
    rw [← haccepted.slot_eq hs, Option.map_eq_none_iff] at hnone
    exact haccepted.store_of_free hs name hname hnone
  case frame => rw [hframe, haccepted.count_eq_declarations]
  case highest => rw [hhighest, hframe, haccepted.highest_eq]
  case pushes =>
    intro transits address hflow
    have hle := hflow.pushes_le haccepted.forward
    rw [List.drop_zero, haccepted.count_moveToHeap] at hle
    have hcount := haccepted.lowering.count_eq 0
    rw [haccepted.count_eq_parameter] at hcount
    rw [hframe, hcount]
    exact Nat.add_le_add_left hle _

/-- A variable has the name of a store, in a branch only. -/
def shadowedStore : Function :=
  ofFlag (some .int)
    [.ifThen {} .flag
      [.create {} "users" .int (.number {} "1"),
        .create {} "a" .int (.reference {} "users" [])],
      .create {} "a" .int (.reference {} "users" [.method {} "len" []]),
      .ret {} (some (.reference {} "a" []))]

/-- Behind the branch the name stands for the store again. -/
theorem compile_resolved_shadowedStore :
    ∃ p, shadowedStore.compile .ofUsers .ofFlag = .ok p ∧
      shadowedStore.Resolved .ofUsers .ofFlag p ∧
      shadowedStore.references =
        [([0], "flag"), ([0, 1], "users"), ([1], "users"), ([2], "a")] ∧
      shadowedStore.resolve? [1] "users" = none ∧ p.code.reads = [0, 1, 3] ∧
      p.frameSize = 4 := by
  have hcode : (shadowedStore.compile .ofUsers .ofFlag).toOption.map Procedure.code =
      some [.enforceSchema 0 0, .copyFromHeap 0, .negate, .jumpIf 8, .int 1, .moveToHeap,
        .copyFromHeap 1, .moveToHeap, .truncateHeap 2, .storeLen "users", .moveToHeap,
        .copyFromHeap 3, .returnTop] := by
    decide +kernel
  obtain ⟨p, hp, hcode⟩ := exists_procedure hcode
  have hresolved := compile_resolved hp
  refine ⟨p, hp, hresolved, by decide +kernel, by decide +kernel, ?_, hresolved.frameSize_eq⟩
  rw [hcode]
  rfl

end Function

end StoredProc
