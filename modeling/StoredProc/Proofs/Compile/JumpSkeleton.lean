import StoredProc.Proofs.Compile.SourceMap

/-! # The control-flow skeleton of a procedure

The only jumps of a procedure are those of its branches, one for each, and they
go forward to the last instruction of the same branch. These last instructions
are the only ones that remove variables or do nothing. Branches nest as they do
in the text.
-/

namespace StoredProc

/-- The branches of a function at any depth, in the order of the text. -/
def Function.branches (f : Function) : List Occurrence :=
  f.occurrences.filter fun o => o.statement.isBranch

namespace Site

variable {m : Manifest} {target : DataType} {code test : Code} {s : Site}
  {body : List Statement} {block : Block}

theorem exists_ifThen_of_isBranch (h : s.isBranch = true) :
    ∃ loc condition body, s.statement = .ifThen loc condition body := by
  unfold isBranch at h
  cases hstatement : s.statement with
  | ifThen loc condition body => exact ⟨loc, condition, body, rfl⟩
  | _ => simp [hstatement, Statement.isBranch] at h

/-- The addresses of a branch are in order. -/
theorem Branch.order (h : s.Branch m target code body test block) :
    s.base < s.jump ∧ s.jump < s.finish ∧ s.finish < s.stop := by
  have hjump := h.jump_eq
  have hfinish := h.finish_eq
  have hstop := h.stop_eq
  omega

/-- Only branches emit jumps. -/
theorem Emits.of_jumpIf {address goal : Nat} (h : s.Emits address (.jumpIf goal)) :
    s.isBranch = true ∧ s.jump = address := by
  generalize hinstruction : Instruction.jumpIf goal = instruction at h
  cases h with
  | compute _ _ _ hcomputes => subst hinstruction; exact hcomputes.elim
  | jump hbranch => exact ⟨hbranch, rfl⟩
  | cleanup => simp only [Step.cleanup] at hinstruction; split at hinstruction <;> cases hinstruction
  | _ => cases hinstruction

/-- Only branches emit instructions that remove variables or do nothing. -/
theorem Emits.of_cleanup {address : Nat} {instruction : Instruction}
    (h : s.Emits address instruction)
    (hinstruction : instruction = .noop ∨ ∃ count, instruction = .truncateHeap count) :
    s.isBranch = true ∧ s.finish = address := by
  cases h with
  | compute _ _ _ hcomputes =>
      rcases hinstruction with rfl | ⟨_, rfl⟩
      · exact hcomputes.elim
      · exact hcomputes.elim
  | cleanup hbranch => exact ⟨by rw [isBranch, hbranch]; rfl, rfl⟩
  | _ => simp at hinstruction

end Site

/-- A branch ends with nothing to do or with a shorter heap. -/
theorem Step.cleanup_cases (fresh : Nat) :
    cleanup fresh = .noop ∨ ∃ count, cleanup fresh = .truncateHeap count := by
  unfold cleanup
  split
  · exact Or.inl rfl
  · exact Or.inr ⟨fresh, rfl⟩

/-! ## Functions of a flag -/

/-- The value of the parameter. -/
def Expr.flag : Expr := .reference {} "flag" []

/-- A function whose parameter is a truth value. -/
def Function.ofFlag (result : Option DataType) (body : List Statement) : Function where
  name := "run"
  parameter := some ⟨"flag", .bool⟩
  result
  body

/-- The registry of such a function. -/
def Registry.ofFlag : Registry where
  schemas := [(parameterName "run", .bool)]

theorem Function.exists_procedure {m : Manifest} {r : Registry} {f : Function} {code : Code}
    (h : (f.compile m r).toOption.map Procedure.code = some code) :
    ∃ p, f.compile m r = .ok p ∧ p.code = code := by
  cases hcompile : f.compile m r with
  | error fault => simp [hcompile, Except.toOption] at h
  | ok p =>
      rw [hcompile] at h
      exact ⟨p, rfl, Option.some.inj h⟩

/-! ## Skeletons -/

/-- The shape of the control flow in the code of a function with a source map. -/
structure Skeleton (m : Manifest) (f : Function) (map : List Site) (code : Code) : Prop where
  /-- Every branch of the function has one site, and no two have one position. -/
  branches : (map.filter Site.isBranch).map Site.toOccurrence = f.branches
  positions : (f.branches.map Occurrence.position).Nodup
  /-- Jumps and branches correspond to each other. -/
  jumps : ∀ address, (∃ goal, code[address]? = some (.jumpIf goal)) ↔
    ∃ s ∈ map, s.isBranch = true ∧ s.jump = address
  jump_injective : ∀ s ∈ map, ∀ other ∈ map, s.isBranch = true → other.isBranch = true →
    s.jump = other.jump → s = other
  /-- The jump of a branch stands behind a negation and in front of the code of
  the body, and goes to the instruction behind that code. -/
  shape : ∀ s ∈ map, ∀ loc condition body, s.statement = .ifThen loc condition body →
    ∃ block, Statement.compileAll m f.target s.scope.start none body = .ok block ∧
      code.Lies (s.jump + 1) (Step.assembleAll (s.jump + 1) block.steps) ∧
      0 < s.jump ∧ code[s.jump - 1]? = some .negate ∧
      code[s.jump]? = some (.jumpIf s.finish) ∧
      s.finish = s.jump + (Step.assembleAll (s.jump + 1) block.steps).length + 1 ∧
      s.jump < s.finish ∧ s.finish < code.length ∧
      code[s.finish]? = some (if Statement.declared body = 0 then .noop
        else .truncateHeap (Statement.declared body))
  /-- Nothing else removes variables or does nothing. -/
  cleanups : ∀ address,
    (code[address]? = some .noop ∨ ∃ count, code[address]? = some (.truncateHeap count)) ↔
      ∃ s ∈ map, s.isBranch = true ∧ s.finish = address
  finish_injective : ∀ s ∈ map, ∀ other ∈ map, s.isBranch = true → other.isBranch = true →
    s.finish = other.finish → s = other
  /-- Two branches are nested, or one ends before the other jumps. -/
  nested : ∀ s ∈ map, ∀ other ∈ map, s.isBranch = true → other.isBranch = true → s ≠ other →
    (s.jump < other.jump ∧ other.finish < s.finish) ∨
      (other.jump < s.jump ∧ s.finish < other.finish) ∨
      s.finish < other.jump ∨ other.finish < s.jump

namespace Function

variable {m : Manifest} {r : Registry} {f : Function} {p : Procedure}

namespace Accepted

variable {prologue : Code} {scope : Scope} {block : Block}

theorem branches_eq (h : f.Accepted m r p prologue scope block) :
    ((f.sites m r).filter Site.isBranch).map Site.toOccurrence = f.branches := by
  rw [branches, occurrences, ← h.lowering.map_sites prologue.length 0, ← h.sites_eq,
    List.filter_map]
  rfl

/-- The prologue checks the parameter, it does nothing else. -/
theorem eq_enforceSchema (h : f.Accepted m r p prologue scope block) {address : Nat}
    {instruction : Instruction} (hinstruction : p.code[address]? = some instruction)
    (hlt : address < prologue.length) : ∃ slot schema, instruction = .enforceSchema slot schema := by
  rw [h.code_eq, List.getElem?_append_left hlt] at hinstruction
  rcases entry_cases h.entry_eq with ⟨_, rfl, _⟩ | ⟨_, index, _, rfl, _⟩
  · simp at hlt
  · obtain rfl : address = 0 := by simpa using hlt
    exact ⟨_, _, (Option.some.inj hinstruction).symm⟩

/-- An instruction that does not check a schema is emitted by a statement. -/
theorem emits_of_getElem? (h : f.Accepted m r p prologue scope block) {address : Nat}
    {instruction : Instruction} (hinstruction : p.code[address]? = some instruction)
    (hschema : ∀ slot schema, instruction ≠ .enforceSchema slot schema) :
    ∃ s ∈ f.sites m r, s.Emits address instruction := by
  have hlt := (List.getElem?_eq_some_iff.mp hinstruction).1
  rcases Nat.lt_or_ge address prologue.length with hbefore | hle
  · obtain ⟨slot, schema, heq⟩ := h.eq_enforceSchema hinstruction hbefore
    exact absurd heq (hschema slot schema)
  · obtain ⟨s, hs, found, hfound, hemits⟩ := h.exists_emits hle hlt
    rw [hinstruction, Option.some.injEq] at hfound
    exact ⟨s, hs, hfound ▸ hemits⟩

/-- A branch at any depth has its parts in the code of the procedure. -/
theorem branch_of_isBranch (h : f.Accepted m r p prologue scope block) {s : Site}
    (hs : s ∈ f.sites m r) (hbranch : s.isBranch = true) :
    ∃ body test inner, s.Branch m f.target p.code body test inner := by
  obtain ⟨_, _, body, hstatement⟩ := Site.exists_ifThen_of_isBranch hbranch
  obtain ⟨test, inner, hparts⟩ := h.exists_branch hs hstatement
  exact ⟨body, test, inner, hparts⟩

/-- Two different branches are nested or disjoint. -/
theorem branches_nested (h : f.Accepted m r p prologue scope block) {s other : Site}
    (hs : s ∈ f.sites m r) (hother : other ∈ f.sites m r) (hbranch : s.isBranch = true)
    (hbranch' : other.isBranch = true) (hne : s ≠ other) :
    (s.jump < other.jump ∧ other.finish < s.finish) ∨
      (other.jump < s.jump ∧ s.finish < other.finish) ∨
      s.finish < other.jump ∨ other.finish < s.jump := by
  obtain ⟨_, _, _, hparts⟩ := h.branch_of_isBranch hs hbranch
  obtain ⟨_, _, _, hparts'⟩ := h.branch_of_isBranch hother hbranch'
  have horder := hparts.order
  have horder' := hparts'.order
  rcases h.sites_cases hs hother with heq | (⟨hin, hend, _⟩ | hbehind) | (⟨hin, hend, _⟩ | hbehind)
  · exact absurd heq hne
  all_goals omega

/-- Branches that share an instruction outside of their bodies are the same. -/
theorem branch_eq_of_shared (h : f.Accepted m r p prologue scope block) {s other : Site}
    (hs : s ∈ f.sites m r) (hother : other ∈ f.sites m r) (hbranch : s.isBranch = true)
    (hbranch' : other.isBranch = true)
    (hshared : s.jump = other.jump ∨ s.finish = other.finish) : s = other := by
  by_cases heq : s = other
  · exact heq
  · have hnested := h.branches_nested hs hother hbranch hbranch' heq
    obtain ⟨_, _, _, hparts⟩ := h.branch_of_isBranch hs hbranch
    obtain ⟨_, _, _, hparts'⟩ := h.branch_of_isBranch hother hbranch'
    have horder := hparts.order
    have horder' := hparts'.order
    omega

end Accepted

/-- Every accepted function has a well-formed skeleton. -/
theorem compile_skeleton (h : f.compile m r = .ok p) : Skeleton m f (f.sites m r) p.code := by
  obtain ⟨prologue, scope, block, haccepted⟩ := exists_accepted h
  constructor
  case branches => exact haccepted.branches_eq
  case positions =>
    exact ((Statement.nodup_occurrences 0 f.body).sublist
      (List.filter_sublist.map Occurrence.position))
  case jumps =>
    intro address
    constructor
    · rintro ⟨goal, hgoal⟩
      obtain ⟨s, hs, hemits⟩ := haccepted.emits_of_getElem? hgoal (by simp)
      exact ⟨s, hs, hemits.of_jumpIf⟩
    · rintro ⟨s, hs, hbranch, rfl⟩
      obtain ⟨_, _, _, hparts⟩ := haccepted.branch_of_isBranch hs hbranch
      exact ⟨s.finish, hparts.jump⟩
  case jump_injective =>
    intro s hs other hother hbranch hbranch' heq
    exact haccepted.branch_eq_of_shared hs hother hbranch hbranch' (Or.inl heq)
  case shape =>
    intro s hs loc condition body hstatement
    obtain ⟨test, inner, hparts⟩ := haccepted.exists_branch hs hstatement
    have horder := hparts.order
    have hlt := (List.getElem?_eq_some_iff.mp hparts.cleanup).1
    refine ⟨inner, hparts.body_compile, hparts.body_lies, by omega, hparts.negate, hparts.jump, ?_,
      horder.2.1, hlt, hparts.cleanup⟩
    rw [hparts.finish_eq, Step.length_assembleAll]
  case cleanups =>
    intro address
    constructor
    · rintro (hnoop | ⟨count, hcount⟩)
      · obtain ⟨s, hs, hemits⟩ := haccepted.emits_of_getElem? hnoop (by simp)
        exact ⟨s, hs, hemits.of_cleanup (Or.inl rfl)⟩
      · obtain ⟨s, hs, hemits⟩ := haccepted.emits_of_getElem? hcount (by simp)
        exact ⟨s, hs, hemits.of_cleanup (Or.inr ⟨count, rfl⟩)⟩
    · rintro ⟨s, hs, hbranch, rfl⟩
      obtain ⟨body, _, _, hparts⟩ := haccepted.branch_of_isBranch hs hbranch
      rw [hparts.cleanup]
      simpa using Step.cleanup_cases (Statement.declared body)
  case finish_injective =>
    intro s hs other hother hbranch hbranch' heq
    exact haccepted.branch_eq_of_shared hs hother hbranch hbranch' (Or.inr heq)
  case nested =>
    intro s hs other hother hbranch hbranch' hne
    exact haccepted.branches_nested hs hother hbranch hbranch' hne

/-- A branch in a branch, and a variable behind them. -/
def nestedBranches : Function :=
  ofFlag (some .int)
    [.ifThen {} .flag
      [.create {} "a" .int (.number {} "1"),
        .ifThen {} .flag [.create {} "b" .int (.number {} "2")]],
      .create {} "a" .int (.number {} "3"),
      .ret {} (some (.reference {} "a" []))]

/-- The inner branch lies within the outer one, and each jumps behind its own body. -/
theorem compile_skeleton_nestedBranches :
    ∃ p, nestedBranches.compile {} .ofFlag = .ok p ∧
      Skeleton {} nestedBranches (nestedBranches.sites {} .ofFlag) p.code ∧
      p.code[3]? = some (.jumpIf 12) ∧ p.code[8]? = some (.jumpIf 11) := by
  have hcode : (nestedBranches.compile {} .ofFlag).toOption.map Procedure.code =
      some [.enforceSchema 0 0, .copyFromHeap 0, .negate, .jumpIf 12, .int 1, .moveToHeap,
        .copyFromHeap 0, .negate, .jumpIf 11, .int 2, .moveToHeap, .truncateHeap 1,
        .truncateHeap 1, .int 3, .moveToHeap, .copyFromHeap 3, .returnTop] := by
    decide +kernel
  obtain ⟨p, hp, hcode⟩ := exists_procedure hcode
  exact ⟨p, hp, compile_skeleton hp, by rw [hcode]; rfl, by rw [hcode]; rfl⟩

end Function

end StoredProc
