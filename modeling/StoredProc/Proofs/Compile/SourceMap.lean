import StoredProc.Compile.Procedure
import StoredProc.Proofs.Compile.Lowering

/-! # Source maps

A statement is identified by its position: the way to it from the body of the
function, one index for every list of statements it lies in. The source map of
a function lists a site for every statement, which says in which scope the
statement is compiled, to what, and from which address on.

Sites follow the text. Of two sites one lies in the body of the other, or the
code of the first ends before the code of the second. Every instruction behind
the prologue is emitted by one of the sites.
-/

namespace StoredProc

/-! ## Code in code -/

/-- A part of some code that lies at an address. -/
def Code.Lies (code : Code) (base : Nat) : Code → Prop
  | [] => True
  | instruction :: rest => code[base]? = some instruction ∧ Lies code (base + 1) rest

namespace Code.Lies

variable {code : Code} {base : Nat}

@[simp]
theorem nil : code.Lies base [] := trivial

@[simp]
theorem cons {instruction : Instruction} {rest : Code} :
    code.Lies base (instruction :: rest) ↔
      code[base]? = some instruction ∧ code.Lies (base + 1) rest :=
  Iff.rfl

theorem append {first second : Code} :
    code.Lies base (first ++ second) ↔
      code.Lies base first ∧ code.Lies (base + first.length) second := by
  induction first generalizing base with
  | nil => simp
  | cons instruction rest ih =>
      simp only [List.cons_append, cons, ih, List.length_cons, and_assoc]
      rw [Nat.add_assoc, Nat.add_comm 1]

/-- A part at the end of some code. -/
theorem suffix (first second : Code) : Code.Lies (first ++ second) first.length second := by
  induction second generalizing first with
  | nil => trivial
  | cons instruction rest ih =>
      refine ⟨by simp, ?_⟩
      simpa using ih (first ++ [instruction])

/-- A part at the start of some code. -/
theorem start (first second : Code) : Code.Lies (first ++ second) 0 first := by
  have hall := suffix [] (first ++ second)
  exact (append.mp hall).1

/-- What stands at an address inside of the part. -/
theorem exists_mem {part : Code} (h : code.Lies base part) {address : Nat} (hle : base ≤ address)
    (hlt : address < base + part.length) :
    ∃ instruction ∈ part, code[address]? = some instruction := by
  induction part generalizing base with
  | nil => simp at hlt; omega
  | cons instruction rest ih =>
      rcases Nat.eq_or_lt_of_le hle with rfl | hlt'
      · exact ⟨instruction, by simp, h.1⟩
      · obtain ⟨found, hmem, hfound⟩ := ih h.2 hlt' (by simp at hlt; omega)
        exact ⟨found, List.mem_cons_of_mem _ hmem, hfound⟩

/-- The same for a part whose last instruction is of interest. -/
theorem exists_mem_or_last {part : Code} {last : Instruction} (h : code.Lies base (part ++ [last]))
    {address : Nat} (hle : base ≤ address) (hlt : address < base + (part ++ [last]).length) :
    (∃ instruction ∈ part, code[address]? = some instruction) ∨
      address = base + part.length ∧ code[address]? = some last := by
  rw [append] at h
  rw [List.length_append, List.length_singleton] at hlt
  rcases Nat.lt_or_ge address (base + part.length) with hbefore | hlast
  · exact Or.inl (h.1.exists_mem hle hbefore)
  · obtain rfl : address = base + part.length := by omega
    exact Or.inr ⟨rfl, h.2.1⟩

end Code.Lies

namespace Step

mutual

@[simp]
theorem length_assemble (base : Nat) : ∀ step : Step, (step.assemble base).length = step.size
  | .plain kind code => by simp [assemble, size]
  | .branch test body fresh => by
      have hbody := length_assembleAll (jumpAddress base test + 1) body
      simp [assemble, size, hbody]
      omega

@[simp]
theorem length_assembleAll (base : Nat) :
    ∀ steps : List Step, (assembleAll base steps).length = sizes steps
  | [] => by simp [assembleAll, sizes]
  | step :: rest => by
      have hfirst := length_assemble base step
      have hrest := length_assembleAll (base + step.size) rest
      simp [assembleAll, sizes, hfirst, hrest]

end

/-- Where the code of the first step lies, and the code of the others. -/
theorem lies_assembleAll_cons {code : Code} {base : Nat} {step : Step} {rest : List Step} :
    code.Lies base (assembleAll base (step :: rest)) ↔
      code.Lies base (step.assemble base) ∧
        code.Lies (base + step.size) (assembleAll (base + step.size) rest) := by
  rw [assembleAll, Code.Lies.append, length_assemble]

/-- Where the parts of a branch lie. -/
theorem lies_branch {code : Code} {base fresh : Nat} {test : Code} {body : List Step}
    (h : code.Lies base ((Step.branch test body fresh).assemble base)) :
    code.Lies base test ∧
      code[jumpAddress base test - 1]? = some .negate ∧
      code[jumpAddress base test]? = some (.jumpIf (endAddress base test body)) ∧
      code.Lies (jumpAddress base test + 1) (assembleAll (jumpAddress base test + 1) body) ∧
      code[endAddress base test body]? = some (cleanup fresh) := by
  simp only [assemble, List.append_assoc, List.cons_append, Code.Lies.append, Code.Lies.cons,
    length_assembleAll] at h
  obtain ⟨htest, hnegate, hjump, hbody, hcleanup, _⟩ := h
  have hend : endAddress base test body = base + test.length + 1 + 1 + sizes body := by
    simp only [endAddress, jumpAddress]
    omega
  refine ⟨htest, hnegate, hjump, hbody, ?_⟩
  rw [hend]
  exact hcleanup

/-- The address of the jump of a branch that starts at an address. -/
def jumpFrom (base : Nat) : Step → Nat
  | .plain .. => base
  | .branch test _ _ => jumpAddress base test

/-- The address of the last instruction of a branch that starts at an address. -/
def endFrom (base : Nat) : Step → Nat
  | .plain .. => base
  | .branch test body _ => endAddress base test body

end Step

/-! ## Sites -/

/-- A statement at its position. -/
structure Occurrence where
  position : List Nat
  statement : Statement

/-- The same statement, seen from one level further out. -/
def Occurrence.under (index : Nat) (o : Occurrence) : Occurrence :=
  { o with position := index :: o.position }

/-- A statement with the code it is compiled to. The code starts at the base. -/
structure Site extends Occurrence where
  scope : Scope
  step : Step
  base : Nat

namespace Site

/-- The same site, seen from one level further out. -/
def under (index : Nat) (s : Site) : Site := { s with position := index :: s.position }

/-- The address of the jump, if the statement is a branch. -/
def jump (s : Site) : Nat := s.step.jumpFrom s.base

/-- The address of the last instruction, if the statement is a branch. -/
def finish (s : Site) : Nat := s.step.endFrom s.base

/-- The address behind the code of the statement. -/
def stop (s : Site) : Nat := s.base + s.step.size

def isBranch (s : Site) : Bool := s.statement.isBranch

theorem base_le_stop (s : Site) : s.base ≤ s.stop := Nat.le_add_right _ _

end Site

namespace Statement

mutual

/-- The statements in the body of a statement. -/
def inside : Statement → List Occurrence
  | .ifThen _ _ body | .forIn _ _ _ body => occurrences 0 body
  | _ => []

/-- The statements of a list and all statements inside of them, in the order of
the text. -/
def occurrences (index : Nat) : List Statement → List Occurrence
  | [] => []
  | statement :: rest =>
    ⟨[index], statement⟩ :: statement.inside.map (Occurrence.under index)
      ++ occurrences (index + 1) rest

end

mutual

/-- The sites in the body of a statement. -/
def sitesInside (m : Manifest) (target : DataType) (scope : Scope) (step : Step) (base : Nat) :
    Statement → List Site
  | .ifThen _ _ body => sites m target scope.start (step.jumpFrom base + 1) 0 body
  | _ => []

/-- The sites of statements whose code starts at a base. -/
def sites (m : Manifest) (target : DataType) (scope : Scope) (base index : Nat) :
    List Statement → List Site
  | [] => []
  | statement :: rest =>
    match statement.compile m target scope with
    | .error _ => []
    | .ok first =>
      { position := [index], statement, scope, step := first.step, base }
        :: (statement.sitesInside m target scope first.step base).map (Site.under index)
        ++ sites m target first.scope (base + first.step.size) (index + 1) rest

end

end Statement

/-- The source map of a function. -/
def Function.sites (m : Manifest) (r : Registry) (f : Function) : List Site :=
  match entry r f with
  | .error _ => []
  | .ok (prologue, scope) => Statement.sites m f.target scope prologue.length 0 f.body

/-- The statements of a function. -/
def Function.occurrences (f : Function) : List Occurrence := Statement.occurrences 0 f.body

/-! ## The source map of accepted statements -/

namespace Site

/-- The site of a statement in a list. -/
def first (index : Nat) (statement : Statement) (scope : Scope) (step : Step) (base : Nat) : Site :=
  { position := [index], statement, scope, step, base }

/-- The parts of the code of a branch, and where they lie. -/
structure Branch (m : Manifest) (target : DataType) (code : Code) (s : Site)
    (body : List Statement) (test : Code) (block : Block) : Prop where
  test_compile : ∃ condition type, Expr.code m s.scope .bool condition = .ok (test, type)
  test_lies : code.Lies s.base test
  jump_eq : s.jump = s.base + test.length + 1
  negate : code[s.jump - 1]? = some .negate
  jump : code[s.jump]? = some (.jumpIf s.finish)
  body_compile : Statement.compileAll m target s.scope.start none body = .ok block
  body_lies : code.Lies (s.jump + 1) (Step.assembleAll (s.jump + 1) block.steps)
  finish_eq : s.finish = s.jump + Step.sizes block.steps + 1
  cleanup : code[s.finish]? = some (Step.cleanup (Statement.declared body))
  stop_eq : s.stop = s.finish + 1

theorem Branch.test_computes {m : Manifest} {target : DataType} {code test : Code} {s : Site}
    {body : List Statement} {block : Block} (h : s.Branch m target code body test block) :
    test.Computes s.scope := by
  obtain ⟨_, _, htest⟩ := h.test_compile
  exact Expr.code_computes htest

/-- A site in the body of a branch. -/
def Encloses (outer inner : Site) : Prop :=
  outer.jump < inner.base ∧ inner.stop ≤ outer.finish ∧ outer.finish < outer.stop

/-- The instructions that a statement emits itself, with their addresses. A branch
computes in front of its jump, and its body has sites of its own. -/
inductive Emits (s : Site) : Nat → Instruction → Prop
  | compute {address : Nat} {instruction : Instruction} (hle : s.base ≤ address)
      (hlt : address < s.stop) (houter : s.isBranch = true → address < s.jump)
      (hcomputes : instruction.Computes s.scope) :
      Emits s address instruction
  | store {address : Nat} (hdeclaration : s.statement.isDeclaration = true)
      (haddress : address + 1 = s.stop) : Emits s address .moveToHeap
  | leave {address : Nat} (hreturn : s.statement.isReturn = true)
      (haddress : address + 1 = s.stop) : Emits s address .returnTop
  | negate {address : Nat} (hbranch : s.isBranch = true) (haddress : address + 1 = s.jump) :
      Emits s address .negate
  | jump (hbranch : s.isBranch = true) : Emits s s.jump (.jumpIf s.finish)
  | cleanup {loc : Location} {condition : Expr} {body : List Statement}
      (hbranch : s.statement = .ifThen loc condition body) :
      Emits s s.finish (Step.cleanup (Statement.declared body))

/-- A statement emits the same from one level further out. -/
theorem Emits.under {s : Site} {address : Nat} {instruction : Instruction} (index : Nat)
    (h : s.Emits address instruction) : (s.under index).Emits address instruction := by
  cases h with
  | compute hle hlt houter hcomputes => exact .compute hle hlt houter hcomputes
  | store hdeclaration haddress => exact .store hdeclaration haddress
  | leave hreturn haddress => exact .leave hreturn haddress
  | negate hbranch haddress => exact .negate hbranch haddress
  | jump hbranch => exact .jump hbranch
  | cleanup hbranch => exact .cleanup hbranch

/-- What stands in the code of a branch outside of its body is emitted by it. -/
theorem Branch.exists_emits {m : Manifest} {target : DataType} {code test : Code} {s : Site}
    {loc : Location} {condition : Expr} {body : List Statement} {block : Block}
    (h : s.Branch m target code body test block) (hs : s.statement = .ifThen loc condition body)
    {address : Nat} (hle : s.base ≤ address) (houter : address ≤ s.jump ∨ address = s.finish) :
    ∃ instruction, code[address]? = some instruction ∧ s.Emits address instruction := by
  have hbranch : s.isBranch = true := by rw [isBranch, hs]; rfl
  have hjump := h.jump_eq
  have hfinish := h.finish_eq
  have hstop := h.stop_eq
  rcases houter with houter | rfl
  · rcases Nat.lt_or_ge address (s.base + test.length) with htest | hlater
    · obtain ⟨instruction, hmem, hinstruction⟩ := h.test_lies.exists_mem hle htest
      exact ⟨instruction, hinstruction,
        .compute hle (by omega) (fun _ => by omega) (h.test_computes _ hmem)⟩
    · rcases Nat.eq_or_lt_of_le houter with rfl | hbefore
      · exact ⟨_, h.jump, .jump hbranch⟩
      · obtain rfl : address = s.jump - 1 := by omega
        exact ⟨_, h.negate, .negate hbranch (by omega)⟩
  · exact ⟨_, h.cleanup, .cleanup hs⟩

end Site

variable {m : Manifest} {target : DataType}

/-- Whatever stands in the code of a statement without a body is emitted by it. -/
theorem Plain.exists_emits {scope after : Scope} {statement : Statement} {part code : Code}
    (h : Plain m target scope statement part after) {base : Nat} (hcode : code.Lies base part)
    {address : Nat} (hle : base ≤ address) (hlt : address < base + part.length) (index : Nat) :
    ∃ instruction, code[address]? = some instruction ∧
      (Site.first index statement scope (.plain statement.kind part) base).Emits address
        instruction := by
  cases h with
  | effect hvalue =>
      obtain ⟨instruction, hmem, hinstruction⟩ := hcode.exists_mem hle hlt
      exact ⟨instruction, hinstruction, .compute hle hlt nofun (Expr.code_computes hvalue _ hmem)⟩
  | bareReturn => simp at hlt; omega
  | create hvalue _ =>
      rcases hcode.exists_mem_or_last hle hlt with ⟨instruction, hmem, hinstruction⟩ | ⟨rfl, hlast⟩
      · exact ⟨instruction, hinstruction, .compute hle hlt nofun (Expr.code_computes hvalue _ hmem)⟩
      · exact ⟨_, hlast, .store rfl (by simp [Site.stop, Site.first, Step.size, Nat.add_assoc])⟩
  | valueReturn _ hvalue =>
      rcases hcode.exists_mem_or_last hle hlt with ⟨instruction, hmem, hinstruction⟩ | ⟨rfl, hlast⟩
      · exact ⟨instruction, hinstruction, .compute hle hlt nofun (Expr.code_computes hvalue _ hmem)⟩
      · exact ⟨_, hlast, .leave rfl (by simp [Site.stop, Site.first, Step.size, Nat.add_assoc])⟩

theorem Plain.isBranch_eq_false {scope after : Scope} {statement : Statement} {code : Code}
    (h : Plain m target scope statement code after) : statement.isBranch = false := by
  cases h <;> rfl

namespace Statement

theorem inside_eq_nil {statement : Statement} {scope after : Scope} {code : Code}
    (h : Plain m target scope statement code after) : statement.inside = [] := by
  cases h <;> rfl

theorem sites_plain {statement : Statement} {rest : List Statement} {scope after : Scope}
    {code : Code} {returned : Option Location}
    (hcompile : statement.compile m target scope =
      .ok ⟨.plain statement.kind code, after, returned⟩)
    (hplain : Plain m target scope statement code after) (base index : Nat) :
    sites m target scope base index (statement :: rest) =
      Site.first index statement scope (.plain statement.kind code) base
        :: sites m target after (base + code.length) (index + 1) rest := by
  have hinside : statement.sitesInside m target scope (.plain statement.kind code) base = [] := by
    cases hplain <;> rfl
  rw [sites, hcompile]
  simp only [hinside, List.map_nil, List.cons_append, List.nil_append, Step.size]
  rfl

/-- A branch has a site, its body has sites behind the jump, and the others lie behind its end. -/
theorem sites_branch {loc : Location} {condition : Expr} {body rest : List Statement}
    {scope after : Scope} {test : Code} {inner : List Step} {fresh : Nat}
    {returned : Option Location}
    (hcompile : (Statement.ifThen loc condition body).compile m target scope =
      .ok ⟨.branch test inner fresh, after, returned⟩) (base index : Nat) :
    sites m target scope base index (.ifThen loc condition body :: rest) =
      Site.first index (.ifThen loc condition body) scope (.branch test inner fresh) base
        :: (sites m target scope.start (Step.jumpAddress base test + 1) 0 body).map
            (Site.under index)
        ++ sites m target after (base + (Step.branch test inner fresh).size) (index + 1)
            rest := by
  rw [sites, hcompile]
  rfl

theorem mem_sites_plain {statement : Statement} {rest : List Statement} {scope after : Scope}
    {code : Code} {returned : Option Location}
    (hcompile : statement.compile m target scope =
      .ok ⟨.plain statement.kind code, after, returned⟩)
    (hplain : Plain m target scope statement code after) {base index : Nat} {s : Site} :
    s ∈ sites m target scope base index (statement :: rest) ↔
      s = Site.first index statement scope (.plain statement.kind code) base ∨
        s ∈ sites m target after (base + code.length) (index + 1) rest := by
  rw [sites_plain hcompile hplain, List.mem_cons]

theorem mem_sites_branch {loc : Location} {condition : Expr} {body rest : List Statement}
    {scope after : Scope} {test : Code} {inner : List Step} {fresh : Nat}
    {returned : Option Location}
    (hcompile : (Statement.ifThen loc condition body).compile m target scope =
      .ok ⟨.branch test inner fresh, after, returned⟩) {base index : Nat} {s : Site} :
    s ∈ sites m target scope base index (.ifThen loc condition body :: rest) ↔
      s = Site.first index (.ifThen loc condition body) scope (.branch test inner fresh) base ∨
        (∃ within ∈ sites m target scope.start (Step.jumpAddress base test + 1) 0 body,
          within.under index = s) ∨
        s ∈ sites m target after (base + (Step.branch test inner fresh).size) (index + 1)
          rest := by
  rw [sites_branch hcompile, List.cons_append, List.mem_cons, List.mem_append, List.mem_map]

end Statement

namespace Lowering

open Statement

variable {scope final : Scope} {statements : List Statement} {steps : List Step}

/-- Every statement has exactly one site. -/
theorem map_sites (h : Lowering m target scope statements steps final) (base index : Nat) :
    (sites m target scope base index statements).map Site.toOccurrence =
      occurrences index statements := by
  induction h generalizing base index with
  | done => simp [sites, occurrences]
  | plain hcompile hplain _ _ ih =>
      rw [sites_plain hcompile hplain, occurrences, inside_eq_nil hplain]
      simp [ih, Site.first]
  | branch hcompile _ _ _ _ hinner hrest =>
      rw [sites_branch hcompile, occurrences]
      simp only [List.map_cons, List.map_append, List.map_map, hrest, inside, Site.first]
      rw [← hinner, List.map_map]
      rfl

/-- A site says what its statement is compiled to in its scope. -/
theorem compile_of_mem_sites (h : Lowering m target scope statements steps final)
    {base index : Nat} {s : Site} (hs : s ∈ sites m target scope base index statements) :
    ∃ compiled, s.statement.compile m target s.scope = .ok compiled ∧ compiled.step = s.step := by
  induction h generalizing base index s with
  | done => simp [sites] at hs
  | plain hcompile hplain _ _ ih =>
      rcases (mem_sites_plain hcompile hplain).mp hs with rfl | hs
      · exact ⟨_, hcompile, rfl⟩
      · exact ih hs
  | branch hcompile _ _ _ _ hinner hrest =>
      rcases (mem_sites_branch hcompile).mp hs with rfl | ⟨within, hwithin, rfl⟩ | hs
      · exact ⟨_, hcompile, rfl⟩
      · have hfound := hinner hwithin
        exact hfound
      · exact hrest hs

/-- The code of a site lies at its base. -/
theorem lies_of_mem_sites (h : Lowering m target scope statements steps final) {code : Code}
    {base index : Nat} (hcode : code.Lies base (Step.assembleAll base steps)) {s : Site}
    (hs : s ∈ sites m target scope base index statements) :
    code.Lies s.base (s.step.assemble s.base) := by
  induction h generalizing base index s with
  | done => simp [sites] at hs
  | plain hcompile hplain _ _ ih =>
      rw [Step.lies_assembleAll_cons] at hcode
      rcases (mem_sites_plain hcompile hplain).mp hs with rfl | hs
      · exact hcode.1
      · exact ih hcode.2 hs
  | branch hcompile _ _ _ _ hinner hrest =>
      rw [Step.lies_assembleAll_cons] at hcode
      rcases (mem_sites_branch hcompile).mp hs with rfl | ⟨within, hwithin, rfl⟩ | hs
      · exact hcode.1
      · have hfound := hinner (Step.lies_branch hcode.1).2.2.2.1 hwithin
        exact hfound
      · exact hrest hcode.2 hs

/-- The code of a site lies between the ends of the whole. -/
theorem bounds_of_mem_sites (h : Lowering m target scope statements steps final)
    {base index : Nat} {s : Site} (hs : s ∈ sites m target scope base index statements) :
    base ≤ s.base ∧ s.stop ≤ base + Step.sizes steps := by
  induction h generalizing base index s with
  | done => simp [sites] at hs
  | plain hcompile hplain _ _ ih =>
      rcases (mem_sites_plain hcompile hplain).mp hs with rfl | hs
      · simp [Site.first, Site.stop, Step.sizes]
      · have := ih hs
        simp only [Step.sizes, Step.size]
        omega
  | branch hcompile _ _ _ _ hinner hrest =>
      rcases (mem_sites_branch hcompile).mp hs with rfl | ⟨within, hwithin, rfl⟩ | hs
      · simp [Site.first, Site.stop, Step.sizes]
      · -- The body lies between the jump and the last instruction of the branch.
        have hbounds := hinner hwithin
        simp only [Site.under, Site.stop, Step.sizes, Step.size, Step.jumpAddress] at hbounds ⊢
        omega
      · have := hrest hs
        simp only [Step.sizes] at this ⊢
        omega

/-- The code of a statement in the body of a branch lies inside of the branch. -/
theorem bounds_within {test : Code} {base index : Nat}
    (h : Lowering m target scope statements steps final) {s : Site}
    (hs : s ∈ sites m target scope (Step.jumpAddress base test + 1) index statements)
    (fresh : Nat) :
    base < s.base ∧ s.stop < base + (Step.branch test steps fresh).size := by
  have hbounds := h.bounds_of_mem_sites hs
  simp only [Step.jumpAddress, Step.size] at hbounds ⊢
  omega

/-- Of two sites the second lies in the body of the first or behind it. -/
theorem pairwise_sites (h : Lowering m target scope statements steps final) (base index : Nat) :
    (sites m target scope base index statements).Pairwise
      fun s later => s.Encloses later ∨ s.stop ≤ later.base := by
  induction h generalizing base index with
  | done => simp [sites]
  | plain hcompile hplain _ hrest ih =>
      rw [sites_plain hcompile hplain, List.pairwise_cons]
      refine ⟨?_, ih _ _⟩
      intro later hlater
      exact Or.inr (hrest.bounds_of_mem_sites hlater).1
  | branch hcompile _ _ hinner hrest ihinner ihrest =>
      rw [sites_branch hcompile, List.cons_append, List.pairwise_cons, List.pairwise_append,
        List.pairwise_map]
      refine ⟨?_, ihinner _ _, ihrest _ _, ?_⟩
      · intro later hlater
        rcases List.mem_append.mp hlater with hlater | hlater
        · obtain ⟨within, hwithin, rfl⟩ := List.mem_map.mp hlater
          have hbounds := hinner.bounds_of_mem_sites hwithin
          left
          simp only [Site.Encloses, Site.first, Site.under, Site.jump, Site.finish, Site.stop,
            Step.jumpFrom, Step.endFrom, Step.endAddress, Step.jumpAddress, Step.size]
            at hbounds ⊢
          omega
        · exact Or.inr (hrest.bounds_of_mem_sites hlater).1
      · intro first hfirst later hlater
        obtain ⟨within, hwithin, rfl⟩ := List.mem_map.mp hfirst
        exact Or.inr (Nat.le_trans (Nat.le_of_lt (hinner.bounds_within hwithin _).2)
          (hrest.bounds_of_mem_sites hlater).1)

/-- The parts of the first branch of a list. -/
theorem branch_first {condition : Expr} {body : List Statement} {test : Code}
    {type : DataType} {block : Block} {code : Code} {base : Nat}
    (htest : condition.code m scope .bool = .ok (test, type))
    (hbody : compileAll m target scope.start none body = .ok block)
    (hcode : code.Lies base
      ((Step.branch test block.steps block.scope.stop.1).assemble base)) (index : Nat)
    (loc : Location) :
    (Site.first index (.ifThen loc condition body) scope
      (.branch test block.steps block.scope.stop.1) base).Branch m target code body test
      block := by
  obtain ⟨htestlies, hnegate, hjump, hbodylies, hcleanup⟩ := Step.lies_branch hcode
  rw [(lowering_of_compileAll hbody).stop_eq] at hcleanup
  exact
    { test_compile := ⟨condition, type, htest⟩
      test_lies := htestlies
      jump_eq := rfl
      negate := hnegate
      jump := hjump
      body_compile := hbody
      body_lies := hbodylies
      finish_eq := rfl
      cleanup := hcleanup
      stop_eq := by
        simp only [Site.stop, Site.finish, Site.first, Step.size, Step.endFrom, Step.endAddress,
          Step.jumpAddress]
        omega }

/-- Every instruction is emitted by a statement. -/
theorem exists_emits (h : Lowering m target scope statements steps final) {code : Code}
    {base : Nat} (hcode : code.Lies base (Step.assembleAll base steps)) {address : Nat}
    (hle : base ≤ address) (hlt : address < base + Step.sizes steps) (index : Nat) :
    ∃ s ∈ sites m target scope base index statements, ∃ instruction,
      code[address]? = some instruction ∧ s.Emits address instruction := by
  induction h generalizing base index with
  | done => simp [Step.sizes] at hlt; omega
  | @plain _ _ _ _ _ part _ _ hcompile hplain _ _ ih =>
      rw [Step.lies_assembleAll_cons] at hcode
      simp only [Step.sizes, Step.size] at hlt hcode
      rcases Nat.lt_or_ge address (base + part.length) with hfirst | hlater
      · obtain ⟨instruction, hinstruction, hemits⟩ :=
          hplain.exists_emits hcode.1 hle hfirst index
        exact ⟨_, (mem_sites_plain hcompile hplain).mpr (Or.inl rfl), instruction, hinstruction,
          hemits⟩
      · obtain ⟨s, hs, hemits⟩ := ih hcode.2 hlater (by omega) (index + 1)
        exact ⟨s, (mem_sites_plain hcompile hplain).mpr (Or.inr hs), hemits⟩
  | @branch scope _ loc condition body _ test _ block _ hcompile htest hbody _ _ hinner hrest =>
      rw [Step.lies_assembleAll_cons] at hcode
      obtain ⟨hcode, hlater⟩ := hcode
      have hbranch := branch_first htest hbody hcode index loc
      simp only [Step.sizes, Step.size] at hlt hlater
      -- The test, the negation and the jump, then the body, then the last instruction.
      rcases Nat.lt_or_ge (base + test.length + 1) address with hbehind | hbefore
      · rcases Nat.lt_or_ge address (base + test.length + 1 + 1 + Step.sizes block.steps) with
          hwithin | hafter
        · obtain ⟨within, hwithin, instruction, hinstruction, hemits⟩ :=
            hinner hbranch.body_lies hbehind hwithin 0
          exact ⟨within.under index,
            (mem_sites_branch hcompile).mpr (Or.inr (Or.inl ⟨within, hwithin, rfl⟩)), instruction,
            hinstruction, hemits.under index⟩
        · rcases Nat.eq_or_lt_of_le hafter with hlast | hafter
          · obtain ⟨instruction, hinstruction, hemits⟩ := hbranch.exists_emits rfl hle
              (Or.inr (by rw [hbranch.finish_eq, hbranch.jump_eq]; simp only [Site.first]; omega))
            exact ⟨_, (mem_sites_branch hcompile).mpr (Or.inl rfl), instruction, hinstruction,
              hemits⟩
          · obtain ⟨s, hs, hemits⟩ := hrest hlater (by omega) (by omega) (index + 1)
            exact ⟨s, (mem_sites_branch hcompile).mpr (Or.inr (Or.inr hs)), hemits⟩
      · obtain ⟨instruction, hinstruction, hemits⟩ :=
          hbranch.exists_emits rfl hle (Or.inl hbefore)
        exact ⟨_, (mem_sites_branch hcompile).mpr (Or.inl rfl), instruction, hinstruction,
          hemits⟩

/-- The parts of the code of a branch at any depth. -/
theorem exists_branch (h : Lowering m target scope statements steps final) {code : Code}
    {base index : Nat} (hcode : code.Lies base (Step.assembleAll base steps)) {s : Site}
    (hs : s ∈ sites m target scope base index statements) {loc : Location} {condition : Expr}
    {body : List Statement} (hbranch : s.statement = .ifThen loc condition body) :
    ∃ test block, s.Branch m target code body test block := by
  have hlies := h.lies_of_mem_sites hcode hs
  obtain ⟨compiled, hcompiled, hstep⟩ := h.compile_of_mem_sites hs
  rw [hbranch] at hcompiled
  rcases compile_cases hcompiled with ⟨_, _, hplain, _⟩ |
    ⟨_, _, _, test, type, block, heq, htest, hbody, rfl⟩
  · exact absurd hplain.isBranch_eq_false (by simp [isBranch])
  · cases heq
    rw [← hstep] at hlies
    -- The parts do not depend on the position of the branch.
    have hfirst := branch_first htest hbody hlies 0 loc
    obtain ⟨⟨position, statement⟩, scope, step, base⟩ := s
    cases hstep
    cases hbranch
    exact ⟨test, block, { hfirst with }⟩

end Lowering

/-! ## Positions -/

namespace Statement

/-- Positions in a list start with the index of a statement of the list. -/
theorem exists_position_eq {index : Nat} {statements : List Statement} {o : Occurrence}
    (ho : o ∈ occurrences index statements) :
    ∃ k rest, o.position = k :: rest ∧ index ≤ k := by
  induction statements generalizing index with
  | nil => simp [occurrences] at ho
  | cons statement rest ih =>
      rw [occurrences, List.cons_append, List.mem_cons, List.mem_append, List.mem_map] at ho
      rcases ho with rfl | ⟨inner, _, rfl⟩ | ho
      · exact ⟨index, [], rfl, Nat.le_refl _⟩
      · exact ⟨index, inner.position, rfl, Nat.le_refl _⟩
      · obtain ⟨k, rest, hposition, hle⟩ := ih ho
        exact ⟨k, rest, hposition, by omega⟩

theorem position_ne_nil_of_mem_inside {statement : Statement} {o : Occurrence}
    (ho : o ∈ statement.inside) : o.position ≠ [] := by
  cases statement with
  | ifThen | forIn =>
      obtain ⟨k, rest, hposition, _⟩ := exists_position_eq ho
      simp [hposition]
  | _ => simp [inside] at ho

mutual

theorem nodup_inside : ∀ statement : Statement, (statement.inside.map Occurrence.position).Nodup
  | .ifThen _ _ body | .forIn _ _ _ body => nodup_occurrences 0 body
  | .reference .. | .create .. | .ret .. => List.nodup_nil

/-- A position belongs to one statement. -/
theorem nodup_occurrences (index : Nat) :
    ∀ statements : List Statement, ((occurrences index statements).map Occurrence.position).Nodup
  | [] => List.nodup_nil
  | statement :: rest => by
      rw [occurrences, List.cons_append, List.map_cons, List.map_append, List.map_map,
        List.nodup_cons, List.nodup_append]
      refine ⟨?_, ?_, nodup_occurrences (index + 1) rest, ?_⟩
      · rw [List.mem_append, List.mem_map, List.mem_map]
        rintro (⟨inner, hinner, heq⟩ | ⟨later, hlater, heq⟩)
        · exact position_ne_nil_of_mem_inside hinner (List.cons.inj heq).2
        · obtain ⟨k, rest, hposition, hle⟩ := exists_position_eq hlater
          rw [hposition, List.cons.injEq] at heq
          omega
      · have hinside := nodup_inside statement
        rw [List.Nodup, List.pairwise_map] at hinside ⊢
        exact hinside.imp fun hne heq => hne (List.cons.inj heq).2
      · intro inner hinner later hlater
        obtain ⟨o, _, rfl⟩ := List.mem_map.mp hinner
        obtain ⟨o', ho', rfl⟩ := List.mem_map.mp hlater
        obtain ⟨k, rest, hposition, hle⟩ := exists_position_eq ho'
        intro heq
        rw [hposition] at heq
        have := (List.cons.inj heq).1
        omega

end

end Statement

theorem Lowering.exists_position_eq {scope final : Scope} {statements : List Statement}
    {steps : List Step} (h : Lowering m target scope statements steps final) {base index : Nat}
    {s : Site} (hs : s ∈ Statement.sites m target scope base index statements) :
    ∃ k rest, s.position = k :: rest ∧ index ≤ k := by
  have hmem : s.toOccurrence ∈ Statement.occurrences index statements := by
    rw [← h.map_sites base index]
    exact List.mem_map_of_mem hs
  exact Statement.exists_position_eq hmem

/-! ## Accepted functions -/

namespace Function

/-- What a procedure is made from: the code before the body, the scope of the
body, and the block of the body. -/
structure Accepted (m : Manifest) (r : Registry) (f : Function) (p : Procedure) (prologue : Code)
    (scope : Scope) (block : Block) : Prop where
  entry_eq : entry r f = .ok (prologue, scope)
  body_compile : Statement.compileAll m f.target scope none f.body = .ok block
  code_eq : p.code = prologue ++ Step.assembleAll prologue.length block.steps

/-- A function that compiles has its code before the body, and the block of its body. -/
theorem exists_accepted {r : Registry} {f : Function} {p : Procedure}
    (h : f.compile m r = .ok p) : ∃ prologue scope block, f.Accepted m r p prologue scope block := by
  have hresult : (compilation m r f).result = .ok p := mapError_ok_iff.mp h
  unfold compilation at hresult
  split at hresult
  next => simp at hresult
  next prologue scope hentry =>
    split at hresult
    next => simp at hresult
    next block hbody =>
      refine ⟨prologue, scope, block, hentry, hbody, ?_⟩
      simp only [finish] at hresult
      split at hresult
      next => simp at hresult
      next =>
        split at hresult
        next => simp at hresult
        next => cases hresult; rfl

/-- The name and the frame of a procedure. -/
theorem exists_accepted_frame {r : Registry} {f : Function} {p : Procedure}
    (h : f.compile m r = .ok p) :
    ∃ prologue scope block, f.Accepted m r p prologue scope block ∧ p.name = f.name ∧
      p.highest = block.scope.highest ∧ p.frameSize = block.scope.count := by
  obtain ⟨prologue, scope, block, haccepted⟩ := exists_accepted h
  refine ⟨prologue, scope, block, haccepted, ?_⟩
  have hresult : (compilation m r f).result = .ok p := mapError_ok_iff.mp h
  simp only [compilation, haccepted.entry_eq, haccepted.body_compile, finish] at hresult
  split at hresult
  next => cases hresult
  next =>
    split at hresult
    next => cases hresult
    next =>
      cases hresult
      exact ⟨rfl, rfl, rfl⟩

/-- A function without a parameter starts with nothing. A parameter is checked
first and lies in the first slot. -/
theorem entry_cases {r : Registry} {f : Function} {prologue : Code} {scope : Scope}
    (h : entry r f = .ok (prologue, scope)) :
    (f.parameter = none ∧ prologue = [] ∧ scope = {}) ∨
      ∃ parameter index, f.parameter = some parameter ∧
        prologue = [.enforceSchema parameterSlot index] ∧
        scope = { bindings := [(parameter.name, ⟨parameterSlot, parameter.type⟩)]
                  level := [parameter.name]
                  count := 1 } := by
  unfold entry at h
  split at h
  next hnone =>
    cases h
    exact Or.inl ⟨hnone, rfl, rfl⟩
  next parameter hsome =>
    split at h
    next => simp at h
    next index _ =>
      cases h
      exact Or.inr ⟨parameter, index, hsome, rfl, rfl⟩

namespace Accepted

variable {r : Registry} {f : Function} {p : Procedure} {prologue : Code} {scope : Scope}
  {block : Block}

theorem lowering (h : f.Accepted m r p prologue scope block) :
    Lowering m f.target scope f.body block.steps block.scope :=
  Statement.lowering_of_compileAll h.body_compile

theorem lies (h : f.Accepted m r p prologue scope block) :
    p.code.Lies prologue.length (Step.assembleAll prologue.length block.steps) := by
  rw [h.code_eq]
  exact Code.Lies.suffix _ _

theorem length_eq (h : f.Accepted m r p prologue scope block) :
    p.code.length = prologue.length + Step.sizes block.steps := by
  rw [h.code_eq, List.length_append, Step.length_assembleAll]

theorem sites_eq (h : f.Accepted m r p prologue scope block) :
    f.sites m r = Statement.sites m f.target scope prologue.length 0 f.body := by
  rw [sites, h.entry_eq]

theorem mem_occurrences (h : f.Accepted m r p prologue scope block) {s : Site}
    (hs : s ∈ f.sites m r) : s.toOccurrence ∈ f.occurrences := by
  rw [h.sites_eq] at hs
  rw [occurrences, ← h.lowering.map_sites prologue.length 0]
  exact List.mem_map_of_mem hs

/-- Every statement of a function has a site. -/
theorem exists_site (h : f.Accepted m r p prologue scope block) {o : Occurrence}
    (ho : o ∈ f.occurrences) : ∃ s ∈ f.sites m r, s.toOccurrence = o := by
  rw [occurrences, ← h.lowering.map_sites prologue.length 0, ← h.sites_eq] at ho
  exact List.mem_map.mp ho

/-- Every instruction behind the prologue is emitted by a statement. -/
theorem exists_emits (h : f.Accepted m r p prologue scope block) {address : Nat}
    (hle : prologue.length ≤ address) (hlt : address < p.code.length) :
    ∃ s ∈ f.sites m r, ∃ instruction,
      p.code[address]? = some instruction ∧ s.Emits address instruction := by
  rw [h.sites_eq]
  rw [h.length_eq] at hlt
  exact h.lowering.exists_emits h.lies hle hlt 0

theorem exists_branch (h : f.Accepted m r p prologue scope block) {s : Site}
    (hs : s ∈ f.sites m r) {loc : Location} {condition : Expr} {body : List Statement}
    (hbranch : s.statement = .ifThen loc condition body) :
    ∃ test inner, s.Branch m f.target p.code body test inner := by
  rw [h.sites_eq] at hs
  exact h.lowering.exists_branch h.lies hs hbranch

/-- What a site of a function is: a statement without a body with its code, or a
branch with its parts. -/
theorem site_cases (h : f.Accepted m r p prologue scope block) {s : Site}
    (hs : s ∈ f.sites m r) :
    (∃ part after, s.step = .plain s.statement.kind part ∧ s.stop = s.base + part.length ∧
        Plain m f.target s.scope s.statement part after ∧ p.code.Lies s.base part) ∨
      ∃ loc condition body test inner, s.statement = .ifThen loc condition body ∧
        s.Branch m f.target p.code body test inner := by
  have hs' := hs
  rw [h.sites_eq] at hs'
  obtain ⟨compiled, hcompiled, hstep⟩ := h.lowering.compile_of_mem_sites hs'
  have hlies := h.lowering.lies_of_mem_sites h.lies hs'
  rcases Statement.compile_cases hcompiled with ⟨part, hpart, hplain, _⟩ |
    ⟨loc, condition, body, _, _, _, hstatement, _⟩
  · rw [hpart] at hstep
    rw [← hstep] at hlies
    refine Or.inl ⟨part, compiled.scope, hstep.symm, ?_, hplain, hlies⟩
    rw [Site.stop, ← hstep]
    rfl
  · obtain ⟨test, inner, hparts⟩ := h.exists_branch hs hstatement
    exact Or.inr ⟨loc, condition, body, test, inner, hstatement, hparts⟩

/-- Two sites are the same, or one lies in the body of the other, or they lie
one behind the other. -/
theorem sites_cases (h : f.Accepted m r p prologue scope block) {s other : Site}
    (hs : s ∈ f.sites m r) (hother : other ∈ f.sites m r) :
    s = other ∨ (s.Encloses other ∨ s.stop ≤ other.base) ∨
      (other.Encloses s ∨ other.stop ≤ s.base) := by
  rw [h.sites_eq] at hs hother
  have hpairwise := h.lowering.pairwise_sites prologue.length 0
  refine List.Pairwise.forall_of_forall_of_flip
    (R := fun s other : Site => s = other ∨ (s.Encloses other ∨ s.stop ≤ other.base) ∨
      (other.Encloses s ∨ other.stop ≤ s.base)) ?_ ?_ ?_ hs hother
  · intro s _
    exact Or.inl rfl
  · exact hpairwise.imp fun hpair => Or.inr (Or.inl hpair)
  · exact hpairwise.imp fun hpair => Or.inr (Or.inr hpair)

end Accepted

end Function

end StoredProc
