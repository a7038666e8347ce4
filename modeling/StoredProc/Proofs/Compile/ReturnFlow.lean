import StoredProc.Proofs.Compile.BranchFlow

/-! # What is executed after a return

A return with a value ends the procedure wherever it stands. A return without a
value has no code, so control goes on behind the branch that it ends. It gets to
the next statement that has code, in the list of the branch or in one around it.
-/

namespace StoredProc

variable {m : Manifest} {target : DataType}

/-! ## Statements behind a statement -/

/-- Whether a statement comes after another one, in the same list or in a list
around it. -/
def Occurrence.follows : List Nat → List Nat → Bool
  | k :: _, [k'] => decide (k < k')
  | k :: inner, k' :: rest => k == k' && follows inner rest
  | _, _ => false

theorem Occurrence.follows_cons {k k' : Nat} {inner rest : List Nat} (hrest : rest ≠ []) :
    follows (k :: inner) (k' :: rest) = (k == k' && follows inner rest) := by
  cases rest with
  | nil => exact absurd rfl hrest
  | cons => rfl

namespace Lowering

open Occurrence

variable {scope final : Scope} {statements : List Statement} {steps : List Step}
  {base index : Nat}

theorem position_ne_nil (h : Lowering m target scope statements steps final) {s : Site}
    (hs : s ∈ Statement.sites m target scope base index statements) : s.position ≠ [] := by
  obtain ⟨k, rest, hposition, _⟩ := h.exists_position_eq hs
  simp [hposition]

/-- The code of a statement that comes after another one lies behind it. -/
theorem stop_le_of_follows (h : Lowering m target scope statements steps final) {s later : Site}
    (hs : s ∈ Statement.sites m target scope base index statements)
    (hlater : later ∈ Statement.sites m target scope base index statements)
    (hfollows : follows s.position later.position = true) : s.stop ≤ later.base := by
  induction h generalizing base index s later with
  | done => simp [Statement.sites] at hs
  | plain hcompile hplain _ hrest ih =>
      rcases (Statement.mem_sites_plain hcompile hplain).mp hs with rfl | hs
      · rcases (Statement.mem_sites_plain hcompile hplain).mp hlater with rfl | hlater
        · simp [Site.first, follows] at hfollows
        · exact (hrest.bounds_of_mem_sites hlater).1
      · rcases (Statement.mem_sites_plain hcompile hplain).mp hlater with rfl | hlater
        · obtain ⟨k, inner, hposition, hle⟩ := hrest.exists_position_eq hs
          simp only [hposition, Site.first, follows, decide_eq_true_eq] at hfollows
          omega
        · exact ih hs hlater hfollows
  | branch hcompile _ _ hinner hrest ihinner ihrest =>
      rcases (Statement.mem_sites_branch hcompile).mp hs with rfl | ⟨within, hwithin, rfl⟩ | hs
      · rcases (Statement.mem_sites_branch hcompile).mp hlater with rfl | ⟨other, hother, rfl⟩ |
          hlater
        · simp [Site.first, follows] at hfollows
        · simp [Site.first, Site.under, follows_cons (hinner.position_ne_nil hother), follows]
            at hfollows
        · exact (hrest.bounds_of_mem_sites hlater).1
      · rcases (Statement.mem_sites_branch hcompile).mp hlater with rfl | ⟨other, hother, rfl⟩ |
          hlater
        · simp [Site.first, Site.under, follows] at hfollows
        · simp only [Site.under, follows_cons (hinner.position_ne_nil hother), beq_self_eq_true,
            Bool.true_and] at hfollows
          have hfound := ihinner hwithin hother hfollows
          exact hfound
        · exact Nat.le_trans (Nat.le_of_lt (hinner.bounds_within hwithin _).2)
            (hrest.bounds_of_mem_sites hlater).1
      · obtain ⟨k, inner, hposition, hle⟩ := hrest.exists_position_eq hs
        rcases (Statement.mem_sites_branch hcompile).mp hlater with rfl | ⟨other, hother, rfl⟩ |
          hlater
        · simp only [hposition, Site.first, follows, decide_eq_true_eq] at hfollows
          omega
        · simp only [hposition, Site.under, follows_cons (hinner.position_ne_nil hother),
            Bool.and_eq_true, beq_iff_eq] at hfollows
          omega
        · exact ihrest hs hlater hfollows

end Lowering

/-! ## Running through statements -/

theorem Statement.getLast?_ne_of_cons {statement last : Statement} {rest : List Statement}
    (h : (statement :: rest).getLast? ≠ some last) : rest.getLast? ≠ some last := by
  intro heq
  rw [List.getLast?_cons, heq] at h
  exact h rfl

namespace Lowering

open Occurrence

variable {scope final : Scope} {statements : List Statement} {steps : List Step} {code : Code}
  {base index : Nat}

/-- Control runs through statements unless they end in a return with a value. -/
theorem exists_flow_iff (h : Lowering m target scope statements steps final)
    (hcode : code.Lies base (Step.assembleAll base steps)) (hforward : code.Forward) :
    (∃ transits, Flow code base transits (base + Step.sizes steps)) ↔
      ∀ loc value, statements.getLast? ≠ some (.ret loc (some value)) := by
  induction h generalizing base with
  | done => exact ⟨fun _ _ _ => nofun, fun _ => ⟨[], .stay _⟩⟩
  | @plain _ _ _ statement rest part _ steps _ hplain hlast _ ih =>
      rw [Step.lies_assembleAll_cons] at hcode
      have hrest := ih hcode.2
      rw [Step.sizes, ← Nat.add_assoc]
      constructor
      · rintro ⟨transits, hflow⟩ loc value hvalue
        obtain ⟨first, second, rfl, hfirst, hsecond, _⟩ :=
          hflow.split (hplain.closed hcode.1) (Nat.le_refl _) (Nat.le_add_right _ _)
            (Nat.le_add_right _ _)
        cases rest with
        | nil =>
            obtain rfl := Option.some.inj hvalue
            exact hplain.not_flow hcode.1 hforward hfirst
        | cons next rest => exact hrest.mp ⟨second, hsecond⟩ loc value hvalue
      · intro hvalue
        -- Only the last statement can be a return.
        have hfirst : ∀ loc value, statement ≠ .ret loc (some value) := by
          rintro loc value rfl
          rw [hlast rfl] at hvalue
          exact hvalue loc value rfl
        have hlater := fun loc value => Statement.getLast?_ne_of_cons (hvalue loc value)
        obtain ⟨first, hfirst⟩ := hplain.exists_flow hcode.1 hfirst
        obtain ⟨second, hsecond⟩ := hrest.mpr hlater
        exact ⟨_, hfirst.append hsecond⟩
  | @branch _ _ loc _ _ rest _ _ _ _ _ htest hbody _ _ _ ih =>
      rw [Step.lies_assembleAll_cons] at hcode
      have hparts := branch_first htest hbody hcode.1 0 loc
      have hrest := ih hcode.2
      rw [Step.sizes, ← Nat.add_assoc]
      constructor
      · rintro ⟨transits, hflow⟩ loc value hvalue
        obtain ⟨first, second, rfl, _, hsecond, _⟩ :=
          hflow.split hparts.closed (Nat.le_refl _) (Nat.le_add_right _ _) (Nat.le_add_right _ _)
        cases rest with
        | nil => cases Option.some.inj hvalue
        | cons next rest => exact hrest.mp ⟨second, hsecond⟩ loc value hvalue
      · intro hvalue
        have hlater := fun loc value => Statement.getLast?_ne_of_cons (hvalue loc value)
        obtain ⟨first, hfirst, _⟩ := hparts.exists_skip hforward
        obtain ⟨second, hsecond⟩ := hrest.mpr hlater
        exact ⟨_, hfirst.append hsecond⟩

end Lowering

/-! ## Going on behind a statement -/

/-- From a start control gets to the code of a statement that comes after a
position, or there is no more code and control gets to the end. -/
def Continues (code : Code) (map : List Site) (position : List Nat) (start stop : Nat) : Prop :=
  (∃ later ∈ map, Occurrence.follows position later.position = true ∧ later.base < later.stop ∧
      ∃ transits, Flow code start transits later.base) ∨
    ((∃ transits, Flow code start transits stop) ∧
      ∀ later ∈ map, start ≤ later.base → later.stop = later.base)

/-- What control goes on to in a part of the source map it goes on to in the whole. -/
theorem Continues.mono {code : Code} {part map : List Site} {position : List Nat}
    {start stop : Nat} (h : Continues code part position start stop)
    (hpart : ∀ later ∈ part, later ∈ map)
    (hmap : ∀ later ∈ map, start ≤ later.base → later ∈ part ∨ later.stop = later.base) :
    Continues code map position start stop := by
  rcases h with ⟨later, hlater, hfound⟩ | ⟨hend, hnone⟩
  · exact Or.inl ⟨later, hpart later hlater, hfound⟩
  · refine Or.inr ⟨hend, ?_⟩
    intro later hlater hle
    rcases hmap later hlater hle with hlater | hempty
    · exact hnone later hlater hle
    · exact hempty

namespace Lowering

variable {scope final : Scope} {statements : List Statement} {steps : List Step} {code : Code}
  {base index start : Nat}

/-- Control that gets to statements gets to the first of them that has code. -/
theorem continues_of_flow (h : Lowering m target scope statements steps final)
    (hstart : ∃ transits, Flow code start transits base) {k : Nat} (inner : List Nat)
    (hlt : k < index) :
    Continues code (Statement.sites m target scope base index statements) (k :: inner) start
      (base + Step.sizes steps) := by
  induction h generalizing base index with
  | done => exact Or.inr ⟨hstart, by simp [Statement.sites]⟩
  | @plain _ _ _ _ _ part _ _ hcompile hplain _ _ ih =>
      rcases Nat.eq_zero_or_pos part.length with hzero | hpos
      · have hrest := @ih (base + part.length) (index + 1) (by rwa [hzero]) (by omega)
        rw [Nat.add_assoc] at hrest
        refine hrest.mono ?_ ?_
        · exact fun later hlater => (Statement.mem_sites_plain hcompile hplain).mpr (Or.inr hlater)
        · intro later hlater _
          rcases (Statement.mem_sites_plain hcompile hplain).mp hlater with rfl | hlater
          · right
            simp [Site.stop, Site.first, Step.size, hzero]
          · exact Or.inl hlater
      · exact Or.inl ⟨_, (Statement.mem_sites_plain hcompile hplain).mpr (Or.inl rfl),
          decide_eq_true hlt, Nat.lt_add_of_pos_right hpos, hstart⟩
  | branch hcompile =>
      exact Or.inl ⟨_, (Statement.mem_sites_branch hcompile).mpr (Or.inl rfl),
        decide_eq_true hlt, Nat.lt_add_of_pos_right (Nat.succ_pos _), hstart⟩

/-- What comes after the first statement counts, once control is behind it. -/
theorem continues_plain {after : Scope} {statement : Statement} {rest : List Statement} {part : Code}
    {returned : Option Location}
    (hcompile : statement.compile m target scope =
      .ok ⟨.plain statement.kind part, after, returned⟩)
    (hplain : Plain m target scope statement part after) {position : List Nat} {stop : Nat}
    (h : Continues code (Statement.sites m target after (base + part.length) (index + 1) rest)
      position start stop)
    (hle : base + part.length ≤ start) :
    Continues code (Statement.sites m target scope base index (statement :: rest)) position start
      stop := by
  refine h.mono ?_ ?_
  · intro later hlater
    exact (Statement.mem_sites_plain hcompile hplain).mpr (Or.inr hlater)
  · intro later hlater hlater_le
    rcases (Statement.mem_sites_plain hcompile hplain).mp hlater with rfl | hlater
    · exact Or.inr (Nat.le_antisymm (Nat.le_trans hle hlater_le) (Site.base_le_stop _))
    · exact Or.inl hlater

/-- The same for a branch. Its body does not count either. -/
theorem continues_branch {loc : Location} {condition : Expr} {body rest : List Statement}
    {test : Code} {block : Block} {returned : Option Location}
    (hcompile : (Statement.ifThen loc condition body).compile m target scope =
      .ok ⟨.branch test block.steps block.scope.stop.1, block.scope.stop.2, returned⟩)
    (hinner : Lowering m target scope.start body block.steps block.scope) {position : List Nat}
    {stop : Nat}
    (h : Continues code (Statement.sites m target block.scope.stop.2
      (base + (Step.branch test block.steps block.scope.stop.1).size) (index + 1) rest)
      position start stop)
    (hle : base + (Step.branch test block.steps block.scope.stop.1).size ≤ start) :
    Continues code
      (Statement.sites m target scope base index (.ifThen loc condition body :: rest)) position
      start stop := by
  refine h.mono ?_ ?_
  · intro later hlater
    exact (Statement.mem_sites_branch hcompile).mpr (Or.inr (Or.inr hlater))
  · intro later hlater hlater_le
    rcases (Statement.mem_sites_branch hcompile).mp hlater with rfl | ⟨other, hother, rfl⟩ | hlater
    · exact Or.inr (Nat.le_antisymm (Nat.le_trans hle hlater_le) (Site.base_le_stop _))
    · have hend := Nat.le_of_lt (hinner.bounds_within hother block.scope.stop.1).2
      exact Or.inr (Nat.le_antisymm (Nat.le_trans hend (Nat.le_trans hle hlater_le))
        (Site.base_le_stop _))
    · exact Or.inl hlater

/-- Control goes on behind every statement, at any depth. -/
theorem continues (h : Lowering m target scope statements steps final)
    (hcode : code.Lies base (Step.assembleAll base steps)) {s : Site}
    (hs : s ∈ Statement.sites m target scope base index statements) :
    Continues code (Statement.sites m target scope base index statements) s.position s.stop
      (base + Step.sizes steps) := by
  induction h generalizing base index s with
  | done => simp [Statement.sites] at hs
  | plain hcompile hplain _ hrest ih =>
      rw [Step.lies_assembleAll_cons] at hcode
      rw [Step.sizes, ← Nat.add_assoc]
      rcases (Statement.mem_sites_plain hcompile hplain).mp hs with rfl | hs
      · refine continues_plain hcompile hplain ?_ (Nat.le_refl _)
        exact hrest.continues_of_flow ⟨[], .stay _⟩ [] (Nat.lt_succ_self index)
      · have hbefore := (hrest.bounds_of_mem_sites hs).1
        exact continues_plain hcompile hplain (ih hcode.2 hs)
          (Nat.le_trans hbefore s.base_le_stop)
  | @branch _ _ loc _ _ _ _ _ _ _ hcompile htest hbody hinner hrest ihinner ihrest =>
      rw [Step.lies_assembleAll_cons] at hcode
      rw [Step.sizes, ← Nat.add_assoc]
      have hparts := branch_first htest hbody hcode.1 index loc
      rcases (Statement.mem_sites_branch hcompile).mp hs with rfl | ⟨within, hwithin, rfl⟩ | hs
      · refine continues_branch hcompile hinner ?_ (Nat.le_refl _)
        exact hrest.continues_of_flow ⟨[], .stay _⟩ [] (Nat.lt_succ_self index)
      · rcases ihinner hparts.body_lies hwithin with ⟨later, hlater, hfollows, hfound⟩ |
          ⟨⟨transits, hflow⟩, hnone⟩
        · refine Or.inl ⟨later.under index, (Statement.mem_sites_branch hcompile).mpr
            (Or.inr (Or.inl ⟨later, hlater, rfl⟩)), ?_, hfound⟩
          simp [Site.under, Occurrence.follows_cons (hinner.position_ne_nil hlater), hfollows]
        · -- The body is over: its branch ends, and control goes on behind the branch.
          rw [← hparts.finish_eq'] at hflow
          refine (hrest.continues_of_flow ⟨_, hflow.append hparts.flow_finish⟩ within.position
            (Nat.lt_succ_self index)).mono (fun later hlater =>
              (Statement.mem_sites_branch hcompile).mpr (Or.inr (Or.inr hlater))) ?_
          intro later hlater hle
          rcases (Statement.mem_sites_branch hcompile).mp hlater with rfl | ⟨other, hother, rfl⟩ |
            hlater
          · have hlow := (hinner.bounds_within hwithin 0).1
            exact absurd (Nat.le_trans within.base_le_stop hle) (Nat.not_le_of_lt hlow)
          · exact Or.inr (hnone other hother hle)
          · exact Or.inl hlater
      · have hbefore := (hrest.bounds_of_mem_sites hs).1
        exact continues_branch hcompile hinner (ihrest hcode.2 hs)
          (Nat.le_trans hbefore s.base_le_stop)

end Lowering

/-! ## Branches that end in a return -/

/-- Once control has entered the body of a branch, it does not get to the code of a
statement that comes after the branch. -/
def Site.EndsProcedure (code : Code) (map : List Site) (s : Site) : Prop :=
  ∀ ⦃transits : List Transit⦄ ⦃address : Nat⦄, Flow code 0 transits address →
    ⟨s.jump, false⟩ ∈ transits → ∀ later ∈ map,
      Occurrence.follows s.position later.position = true →
        ¬ (later.base ≤ address ∧ address < later.stop)

/-- A way that enters a body and gets behind the branch runs through the body. -/
theorem Site.Branch.exists_flow_body {code test : Code} {s : Site} {body : List Statement}
    {block : Block} (h : s.Branch m target code body test block) {transits : List Transit}
    {start address : Nat} (hflow : Flow code start transits address)
    (henter : ⟨s.jump, false⟩ ∈ transits) (hbehind : s.stop ≤ address) :
    ∃ inner, Flow code (s.jump + 1) inner s.finish := by
  obtain ⟨_, second, _, next, _, _, hinstruction, hnext, hsecond⟩ := hflow.split_mem henter
  simp only [h.jump, Option.some.injEq] at hinstruction
  subst hinstruction
  obtain rfl : s.jump + 1 = next := Option.some.inj hnext
  have horder := h.order
  obtain ⟨inner, _, _, hinner, _⟩ :=
    hsecond.split h.closed_body (Nat.le_refl _) (by omega) (by omega)
  exact ⟨inner, hinner⟩

namespace Function

variable {r : Registry} {f : Function} {p : Procedure}

/-- A branch whose body ends in a return ends the procedure exactly if the return
has a value, or if no statement with code comes after the branch. -/
theorem compile_endsProcedure_iff (h : f.compile m r = .ok p) {s : Site} (hs : s ∈ f.sites m r)
    {loc returnLoc : Location} {condition : Expr} {body : List Statement} {value : Option Expr}
    (hbranch : s.statement = .ifThen loc condition body)
    (hlast : body.getLast? = some (.ret returnLoc value)) :
    s.EndsProcedure p.code (f.sites m r) ↔
      value.isSome = true ∨ ∀ later ∈ f.sites m r,
        Occurrence.follows s.position later.position = true → later.step.size = 0 := by
  obtain ⟨prologue, scope, block, haccepted⟩ := exists_accepted h
  obtain ⟨test, inner, hparts⟩ := haccepted.exists_branch hs hbranch
  have hthrough := hparts.lowering.exists_flow_iff hparts.body_lies haccepted.forward
  rw [← hparts.finish_eq', hlast] at hthrough
  have hstop : ∀ later ∈ f.sites m r, Occurrence.follows s.position later.position = true →
      s.stop ≤ later.base := by
    intro later hlater hfollows
    rw [haccepted.sites_eq] at hs hlater
    exact haccepted.lowering.stop_le_of_follows hs hlater hfollows
  constructor
  · intro hends
    cases value with
    | some value => exact Or.inl rfl
    | none =>
        right
        -- Control can enter the body, and nothing holds it there.
        obtain ⟨first, hfirst⟩ := haccepted.exists_flow_to hs
        obtain ⟨second, hsecond, henter⟩ := hparts.exists_enter
        obtain ⟨third, hthird⟩ := hthrough.mpr (by simp)
        have hcontinues := haccepted.lowering.continues haccepted.lies (haccepted.sites_eq ▸ hs)
        rw [← haccepted.sites_eq] at hcontinues
        rcases hcontinues with ⟨later, hlater, hfollows, hlt, last, hlast⟩ | ⟨_, hnone⟩
        · have hall := hfirst.append (hsecond.append (hthird.append (hparts.flow_finish.append
            hlast)))
          exact absurd ⟨Nat.le_refl _, hlt⟩ (hends hall (by simp [henter]) later hlater hfollows)
        · intro later hlater hfollows
          have hempty := hnone later hlater (hstop later hlater hfollows)
          simp only [Site.stop] at hempty
          omega
  · rintro hcases transits address hflow henter later hlater hfollows ⟨hle, hlt⟩
    rcases hcases with hvalue | hempty
    · obtain ⟨value, rfl⟩ := Option.isSome_iff_exists.mp hvalue
      have hbehind := Nat.le_trans (hstop later hlater hfollows) hle
      exact hthrough.mp (hparts.exists_flow_body hflow henter hbehind) returnLoc value rfl
    · have hsize := hempty later hlater hfollows
      simp only [Site.stop] at hlt
      omega

/-- A branch that returns the flag, with a statement behind it. -/
def guardedReturn : Function :=
  ofFlag (some .bool) [.ifThen {} .flag [.ret {} (some .flag)], .ret {} (some .flag)]

/-- A branch that returns ends its procedure. -/
theorem endsProcedure_guardedReturn :
    ∃ p, guardedReturn.compile {} .ofFlag = .ok p ∧
      ∃ s ∈ guardedReturn.sites {} .ofFlag,
        s.statement = .ifThen {} .flag [.ret {} (some .flag)] ∧
          s.EndsProcedure p.code (guardedReturn.sites {} .ofFlag) := by
  have hcode : (guardedReturn.compile {} .ofFlag).toOption.map Procedure.code =
      some [.enforceSchema 0 0, .copyFromHeap 0, .negate, .jumpIf 6, .copyFromHeap 0, .returnTop,
        .noop, .copyFromHeap 0, .returnTop] := by
    decide +kernel
  obtain ⟨p, hp, _⟩ := exists_procedure hcode
  obtain ⟨_, _, _, haccepted⟩ := exists_accepted hp
  have hoccurs : ⟨[0], .ifThen {} .flag [.ret {} (some .flag)]⟩ ∈ guardedReturn.occurrences :=
    List.mem_cons_self
  obtain ⟨s, hs, heq⟩ := haccepted.exists_site hoccurs
  have hstatement := congrArg Occurrence.statement heq
  exact ⟨p, hp, s, hs, hstatement,
    (compile_endsProcedure_iff hp hs hstatement rfl).mpr (Or.inl rfl)⟩

/-- A branch that returns nothing, with a statement behind it. -/
def guardedExit : Function :=
  ofFlag none [.ifThen {} .flag [.ret {} none], .reference {} "flag" []]

/-- The statement behind the branch is executed after the return. -/
theorem not_endsProcedure_guardedExit :
    ¬ ∀ (m : Manifest) (r : Registry) (f : Function) (p : Procedure), f.compile m r = .ok p →
      ∀ s ∈ f.sites m r, ∀ loc condition body returnLoc value,
        s.statement = .ifThen loc condition body →
          body.getLast? = some (.ret returnLoc value) →
            s.EndsProcedure p.code (f.sites m r) := by
  intro hall
  have hcode : (guardedExit.compile {} .ofFlag).toOption.map Procedure.code =
      some [.enforceSchema 0 0, .copyFromHeap 0, .negate, .jumpIf 4, .noop, .copyFromHeap 0] := by
    decide +kernel
  have haddresses : (guardedExit.sites {} .ofFlag).all
      (fun s => (s.position != [0] || s.jump == 3) &&
        (s.position != [1] || s.base == 5 && s.stop == 6)) = true := by
    decide +kernel
  obtain ⟨p, hp, hcode⟩ := exists_procedure hcode
  obtain ⟨_, _, _, haccepted⟩ := exists_accepted hp
  have hoccurs : ⟨[0], .ifThen {} .flag [.ret {} none]⟩ ∈ guardedExit.occurrences :=
    List.mem_cons_self
  have hoccurs' : ⟨[1], .reference {} "flag" []⟩ ∈ guardedExit.occurrences := by
    simp [occurrences, guardedExit, ofFlag, Statement.occurrences]
  obtain ⟨s, hs, heq⟩ := haccepted.exists_site hoccurs
  obtain ⟨later, hlater, heq'⟩ := haccepted.exists_site hoccurs'
  have hposition := congrArg Occurrence.position heq
  have hposition' := congrArg Occurrence.position heq'
  have hfacts := List.all_eq_true.mp haddresses s hs
  have hfacts' := List.all_eq_true.mp haddresses later hlater
  simp only [hposition, hposition', Bool.and_eq_true, Bool.or_eq_true, bne_iff_ne, beq_iff_eq]
    at hfacts hfacts'
  have hflow : Flow p.code 0 [⟨0, false⟩, ⟨1, false⟩, ⟨2, false⟩, ⟨3, false⟩, ⟨4, false⟩] 5 := by
    rw [hcode]
    exact .step rfl rfl (.step rfl rfl (.step rfl rfl (.step rfl rfl (.single false rfl rfl))))
  have hends := hall {} .ofFlag guardedExit p hp s hs {} .flag [.ret {} none] {} none
    (congrArg Occurrence.statement heq) rfl hflow
  have hjump : s.jump = 3 := by simpa using hfacts.1
  have hbounds : later.base = 5 ∧ later.stop = 6 := by simpa using hfacts'.2
  refine hends (by simp [hjump]) later hlater ?_ ?_
  · rw [hposition, hposition']
    rfl
  · rw [hbounds.1, hbounds.2]
    decide

end Function

end StoredProc
