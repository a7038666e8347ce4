import StoredProc.Proofs.Compile.NameResolution
import StoredProc.Proofs.Compile.RowNames
import StoredProc.Proofs.Compile.TypeSoundness
import StoredProc.Proofs.Tree.Renaming

/-! # Renaming rows

The row of an anonymous function gets a name that is new to the function around it. If no
argument in its body mentions the row, the procedure is the same. If one does, it means
what has the name of the row around the function. The renamed function then is not
accepted, and it is a change only if there is such a variable or store.
-/

namespace StoredProc

/-! ## References -/

mutual

/-- What is looked up for an expression is named in it. -/
theorem Expr.references_subset (expr : Expr) : expr.references ⊆ expr.names := by
  cases expr with
  | reference loc name dots => exact List.cons_subset_cons name (Dot.referencesAll_subset dots)
  | string | number => exact List.nil_subset _
  | array loc elements => exact Expr.referencesAll_subset elements
  | object loc fields => exact Expr.referencesFields_subset fields
  | lambda loc row body =>
      exact List.subset_cons_of_subset row (Statement.rowReferences_subset body)
termination_by sizeOf expr

theorem Expr.referencesAll_subset (exprs : List Expr) :
    Expr.referencesAll exprs ⊆ Expr.namesAll exprs := by
  cases exprs with
  | nil => exact List.nil_subset _
  | cons expr rest =>
      exact append_subset_append (Expr.references_subset expr) (Expr.referencesAll_subset rest)
termination_by sizeOf exprs

theorem Expr.referencesFields_subset (entries : List (String × Expr)) :
    Expr.referencesFields entries ⊆ Expr.namesFields entries := by
  cases entries with
  | nil => exact List.nil_subset _
  | cons entry rest =>
      obtain ⟨name, value⟩ := entry
      exact append_subset_append (Expr.references_subset value)
        (Expr.referencesFields_subset rest)
termination_by sizeOf entries

theorem Dot.referencesAll_subset (dots : List Dot) :
    Dot.referencesAll dots ⊆ Dot.namesAll dots := by
  cases dots with
  | nil => exact List.nil_subset _
  | cons dot rest =>
      refine append_subset_append ?_ (Dot.referencesAll_subset rest)
      cases dot with
      | field => exact List.nil_subset _
      | method loc name args => exact Expr.referencesAll_subset args
termination_by sizeOf dots

/-- The names that a body looks up are names of the text. -/
theorem Statement.rowReferences_subset (body : List Statement) :
    Statement.rowReferences body ⊆ Statement.namesAll body := by
  cases body with
  | nil => exact List.nil_subset _
  | cons statement rest =>
      have hrest := Statement.rowReferences_subset rest
      cases statement with
      | reference loc name dots =>
          have hdots := Dot.referencesAll_subset dots
          exact append_subset_append (List.subset_cons_of_subset name hdots) hrest
      | ret loc value =>
          cases value with
          | none => exact hrest
          | some value =>
              cases value with
              | reference valueLoc name dots =>
                  have hdots := Dot.referencesAll_subset dots
                  exact append_subset_append (List.subset_cons_of_subset name hdots) hrest
              | _ => exact List.subset_append_of_subset_right _ hrest
      | _ => exact List.subset_append_of_subset_right _ hrest
termination_by sizeOf body

end

namespace Renaming

variable {ρ : Renaming} {c : Prop} {row row' : String}

/-! ## Renamed expressions -/

theorem ExprFollows.of_not (h : ¬c) (expr : Expr) : ρ.ExprFollows c expr expr := by
  rw [eq_false h]
  exact .refl expr

mutual

/-- Renaming changes an expression if it looks up the new name afterwards. -/
theorem follows_rename (expr : Expr) (h : ρ.fresh ∉ expr.names) :
    ρ.ExprFollows (ρ.fresh ∈ (expr.rename ρ.row ρ.fresh).references) expr
      (expr.rename ρ.row ρ.fresh) := by
  cases expr with
  | reference loc name dots =>
      rw [Expr.names, List.mem_cons, not_or] at h
      have hdots := dots_rename dots h.2
      by_cases hrow : name = ρ.row
      · subst hrow
        rw [Expr.rename, if_pos rfl]
        exact .captured List.mem_cons_self loc dots _
      · rw [Expr.rename, if_neg hrow, Expr.references, List.mem_cons, or_iff_right h.1]
        exact .reference loc name hdots
  | string | number => exact .of_not (by simp) _
  | array loc elements => exact .array loc (exprs_rename elements h)
  | object loc fields => exact .object loc (fields_rename fields h)
  | lambda loc row body =>
      by_cases hrow : row = ρ.row
      · -- The inner function has a row of its own by that name, and is left as it is.
        rw [Expr.rename, if_pos hrow]
        exact .of_not (fun hmem => h (Expr.references_subset _ hmem)) _
      · rw [Expr.names, List.mem_cons, not_or] at h
        rw [Expr.rename, if_neg hrow]
        have hother : ∀ name, ρ.fresh ≠ name →
            ((if name = ρ.row then ρ.fresh else name) = row ↔ name = row) := by
          intro name _
          split
          next heq => exact iff_of_false h.1 fun hname => hrow (hname.symm.trans heq)
          next => exact Iff.rfl
        exact .lambda loc (body_rename hother body h.2)
termination_by sizeOf expr

theorem exprs_rename (exprs : List Expr) (h : ρ.fresh ∉ Expr.namesAll exprs) :
    Aligned ρ.ExprFollows
      (ρ.fresh ∈ Expr.referencesAll (Expr.renameAll ρ.row ρ.fresh exprs)) exprs
      (Expr.renameAll ρ.row ρ.fresh exprs) := by
  cases exprs with
  | nil => simpa using Aligned.nil
  | cons expr rest =>
      rw [Expr.namesAll, List.mem_append, not_or] at h
      rw [Expr.renameAll, Expr.referencesAll, List.mem_append]
      exact .cons (follows_rename expr h.1) (exprs_rename rest h.2)
termination_by sizeOf exprs

theorem fields_rename (entries : List (String × Expr)) (h : ρ.fresh ∉ Expr.namesFields entries) :
    Aligned ρ.EntryFollows
      (ρ.fresh ∈ Expr.referencesFields (Expr.renameFields ρ.row ρ.fresh entries)) entries
      (Expr.renameFields ρ.row ρ.fresh entries) := by
  cases entries with
  | nil => simpa using Aligned.nil
  | cons entry rest =>
      cases entry with
      | mk name value =>
          rw [Expr.namesFields, List.mem_append, not_or] at h
          rw [Expr.renameFields, Expr.referencesFields, List.mem_append]
          exact .cons ⟨rfl, follows_rename value h.1⟩ (fields_rename rest h.2)
termination_by sizeOf entries

/-- Links follow when the row is renamed in them. -/
theorem dots_rename (dots : List Dot) (h : ρ.fresh ∉ Dot.namesAll dots) :
    Aligned ρ.DotFollows (ρ.fresh ∈ Dot.referencesAll (Dot.renameAll ρ.row ρ.fresh dots)) dots
      (Dot.renameAll ρ.row ρ.fresh dots) := by
  cases dots with
  | nil => simpa using Aligned.nil
  | cons dot rest =>
      rw [Dot.namesAll, List.mem_append, not_or] at h
      rw [Dot.renameAll, Dot.referencesAll, List.mem_append]
      refine .cons ?_ (dots_rename rest h.2)
      cases dot with
      | field loc name => simpa using DotFollows.field loc name
      | method loc name args => exact .method loc name (exprs_rename args h.1)
termination_by sizeOf dots

/-- The statements of an anonymous function. Only chains on its row matter, and the row
is named alike before and after. -/
theorem body_rename {row row' : String}
    (hrow : ∀ name, ρ.fresh ≠ name →
      ((if name = ρ.row then ρ.fresh else name) = row' ↔ name = row))
    (body : List Statement) (h : ρ.fresh ∉ Statement.namesAll body) :
    Aligned (ρ.RowFollows row row')
      (ρ.fresh ∈ Statement.rowReferences (Statement.renameAll ρ.row ρ.fresh body)) body
      (Statement.renameAll ρ.row ρ.fresh body) := by
  cases body with
  | nil => simpa using Aligned.nil
  | cons statement rest =>
      rw [Statement.namesAll, List.mem_append, not_or] at h
      have hrest := body_rename hrow rest h.2
      -- Other statements look up nothing, since the body is not accepted with them.
      have hskip : ∀ {statement'}, ρ.RowFollows row row' False statement statement' →
          Aligned (ρ.RowFollows row row')
            (ρ.fresh ∈ Statement.rowReferences (Statement.renameAll ρ.row ρ.fresh rest))
            (statement :: rest) (statement' :: Statement.renameAll ρ.row ρ.fresh rest) := by
        intro statement' hstatement
        simpa using Aligned.cons hstatement hrest
      cases statement with
      | reference loc name dots =>
          rw [Statement.names, List.mem_cons, not_or] at h
          rw [Statement.renameAll, Statement.rename, Statement.rowReferences, List.mem_append]
          exact .cons (.reference loc (hrow name h.1.1) (dots_rename dots h.1.2)) hrest
      | ret loc value =>
          cases value with
          | none => exact hskip (.other rfl rfl rfl)
          | some value =>
              cases value with
              | reference valueLoc name dots =>
                  rw [Statement.names, Expr.names, List.mem_cons, not_or] at h
                  rw [Statement.renameAll, Statement.rename, Expr.rename, Statement.rowReferences,
                    List.mem_append]
                  exact .cons (.returned loc valueLoc (hrow name h.1.1) (dots_rename dots h.1.2))
                    hrest
              | _ => exact hskip (.value loc rfl rfl rfl)
      | _ => exact hskip (.other rfl rfl rfl)
termination_by sizeOf body

end

/-- Renaming the row of an anonymous function changes it if the new name is looked up in
its body. -/
theorem follows_renameRow (loc : Location) (body : List Statement)
    (h : ρ.fresh ∉ (Expr.lambda loc ρ.row body).names) :
    ρ.ExprFollows
      (ρ.fresh ∈ Statement.rowReferences (Statement.renameAll ρ.row ρ.fresh body))
      (.lambda loc ρ.row body)
      (.lambda loc ρ.fresh (Statement.renameAll ρ.row ρ.fresh body)) := by
  rw [Expr.names, List.mem_cons, not_or] at h
  have hrow : ∀ name, ρ.fresh ≠ name →
      ((if name = ρ.row then ρ.fresh else name) = ρ.fresh ↔ name = ρ.row) := by
    intro name hname
    split
    next heq => exact iff_of_true rfl heq
    next hne => exact iff_of_false (Ne.symm hname) hne
  exact .lambda loc (body_rename hrow body h.2)

/-! ## Expressions in their place -/

mutual

/-- What holds of two anonymous functions holds of the expressions around them. -/
theorem follows_fill {loc : Location} {body body' : List Statement}
    (h : ρ.ExprFollows c (.lambda loc row body) (.lambda loc row' body'))
    (context : Expr.Context) :
    ρ.ExprFollows c (context.fill (.lambda loc row body))
      (context.fill (.lambda loc row' body')) := by
  cases context with
  | here => exact h
  | reference loc name dots => exact .reference loc name (dots_fill h dots)
  | array loc before element after => exact .array loc (.place .refl (follows_fill h element))
  | object loc before name value after =>
      exact .object loc (.place (fun entry => ⟨rfl, .refl entry.2⟩) ⟨rfl, follows_fill h value⟩)
  | lambda loc row before statement after =>
      exact .lambda loc (.place .refl (row_fill h row statement))
termination_by sizeOf context

theorem dots_fill {loc : Location} {body body' : List Statement}
    (h : ρ.ExprFollows c (.lambda loc row body) (.lambda loc row' body'))
    (context : Dot.Context) :
    Aligned ρ.DotFollows c (context.fill (.lambda loc row body))
      (context.fill (.lambda loc row' body')) := by
  cases context with
  | method before loc name earlier arg later after =>
      exact .place .refl (.method loc name (.place .refl (follows_fill h arg)))
termination_by sizeOf context

/-- A statement of an anonymous function follows with the one that it holds. -/
theorem row_fill {loc : Location} {body body' : List Statement}
    (h : ρ.ExprFollows c (.lambda loc row body) (.lambda loc row' body')) (outer : String)
    (context : Statement.Context) :
    ρ.RowFollows outer outer c (context.fill (.lambda loc row body))
      (context.fill (.lambda loc row' body')) := by
  cases context with
  | reference loc name dots => exact .reference loc Iff.rfl (dots_fill h dots)
  | ret loc value =>
      cases value with
      | reference valueLoc name dots => exact .returned loc valueLoc Iff.rfl (dots_fill h dots)
      | here | array | object | lambda => exact .value loc rfl rfl rfl
  | create | condition | ifBody | iterable | forBody => exact .other rfl rfl rfl
termination_by sizeOf context

end

end Renaming

/-! ## Statements -/

namespace Statement

variable (m : Manifest) (target : DataType) (scope : Scope)

/-- The code of a statement or its fault, without the work until then. -/
def outcome (statement : Statement) : Except LocatedFault Compiled :=
  (statement.compile m target scope).mapError Prod.fst

/-- The code of statements or their fault, without the work until then. -/
def outcomes (returned : Option Location) (statements : List Statement) :
    Except LocatedFault Block :=
  (compileAll m target scope returned statements).mapError BlockFailure.fault

theorem mapError_unstarted {α : Type} (kind : NodeKind) (result : Except LocatedFault α) :
    (unstarted kind result).mapError Prod.fst = result := by
  cases result <;> rfl

theorem outcome_ifThen (loc : Location) (condition : Expr) (body : List Statement) :
    outcome m target scope (.ifThen loc condition body) = (do
      let (test, _) ← condition.code m scope .bool
      let block ← outcomes m target scope.start none body
      return ⟨.branch test block.steps block.scope.stop.1, block.scope.stop.2, none⟩) := by
  rw [outcome, compile, outcomes]
  cases condition.code m scope .bool with
  | error fault => rfl
  | ok test => cases compileAll m target scope.start none body <;> rfl

/-- Statements come out one after the other, in the scope that the ones before have left. -/
theorem outcomes_cons_none (statement : Statement) (rest : List Statement) :
    outcomes m target scope none (statement :: rest) = (do
      let first ← outcome m target scope statement
      let block ← outcomes m target first.scope first.returned rest
      return { block with steps := first.step :: block.steps }) := by
  rw [outcomes, compileAll, outcome]
  cases statement.compile m target scope with
  | error failure => rfl
  | ok first =>
      dsimp only
      change _ = (do
        let block ← (compileAll m target first.scope first.returned rest).mapError
          BlockFailure.fault
        return { block with steps := first.step :: block.steps })
      cases compileAll m target first.scope first.returned rest <;> rfl

theorem outcomes_cons_some (loc : Location) (statement : Statement) (rest : List Statement) :
    outcomes m target scope (some loc) (statement :: rest) =
      faultAt statement.loc (.unreachable loc) := by
  rw [outcomes, compileAll]
  rfl

end Statement

namespace Renaming

variable (ρ : Renaming)

/-- What two statements have in common if one of them comes from the other by the
renaming. -/
structure StatementFollows (looked : Prop) (first second : Statement) : Prop where
  loc_eq : second.loc = first.loc
  outcome : ∀ (target : DataType) (scope : Scope), ρ.Admits scope →
    ρ.Follows looked (first.outcome ρ.manifest target scope)
      (second.outcome ρ.manifest target scope)

variable {ρ} {c : Prop} {scope : Scope} {target : DataType}

/-- What is in scope behind a statement is a variable of the function. -/
theorem Admits.after (h : ρ.Admits scope) {statement : Statement} {compiled : Compiled}
    (hnames : statement.variableNames ⊆ ρ.variableNames)
    (hcompile : statement.outcome ρ.manifest target scope = .ok compiled) :
    ρ.Admits compiled.scope := by
  rcases Statement.compile_cases (mapError_ok_iff.mp hcompile) with
    ⟨code, _, hplain, _⟩ | ⟨loc, condition, body, test, type, block, _, _, hbody, rfl⟩
  · obtain ⟨step, after, returned⟩ := compiled
    cases hplain with
    | effect | bareReturn | valueReturn => exact h
    | @create _ name _ _ _ _ _ _ _ hadd =>
        intro other hother
        rw [Scope.get?, (Scope.add?_eq_some hadd).2.2.bindings, List.singleton_append,
          List.lookup_cons] at hother
        by_cases heq : other = name
        · exact hnames (by simp [heq])
        · rw [beq_eq_false_iff_ne.mpr heq] at hother
          exact h other hother
  · -- The variables of a branch are gone behind it.
    have hstop := (Statement.lowering_of_compileAll hbody).stop_eq
    intro name hname
    rw [hstop] at hname
    exact h name hname

/-- A list of statements follows with one of them. -/
theorem outcomes_place {before after : List Statement} {first second : Statement}
    (h : ρ.StatementFollows c first second)
    (hnames : Statement.variableNamesAll (before ++ first :: after) ⊆ ρ.variableNames)
    (hscope : ρ.Admits scope) (returned : Option Location) :
    ρ.Follows c
      (Statement.outcomes ρ.manifest target scope returned (before ++ first :: after))
      (Statement.outcomes ρ.manifest target scope returned (before ++ second :: after)) := by
  induction before generalizing scope returned with
  | nil =>
      cases returned with
      | none =>
          rw [List.nil_append, List.nil_append, Statement.outcomes_cons_none,
            Statement.outcomes_cons_none]
          exact (h.outcome target scope hscope).bind_same _
      | some loc =>
          rw [List.nil_append, List.nil_append, Statement.outcomes_cons_some,
            Statement.outcomes_cons_some, h.loc_eq]
          exact .fault _ _
  | cons statement rest ih =>
      have hnames' := List.append_subset.mp hnames
      cases returned with
      | none =>
          rw [List.cons_append, List.cons_append, Statement.outcomes_cons_none,
            Statement.outcomes_cons_none]
          apply Follows.same_bind
          intro compiled hcompile
          exact (ih hnames'.2 (hscope.after hnames'.1 hcompile) compiled.returned).bind_same _
      | some loc =>
          rw [List.cons_append, List.cons_append, Statement.outcomes_cons_some,
            Statement.outcomes_cons_some]
          exact .fault _ _

/-- A statement follows with the anonymous function that it holds, at any depth. -/
theorem statement_fill {loc : Location} {row row' : String} {body body' : List Statement}
    (h : ρ.ExprFollows c (.lambda loc row body) (.lambda loc row' body'))
    (context : Statement.Context)
    (hnames : (context.fill (.lambda loc row body)).variableNames ⊆ ρ.variableNames) :
    ρ.StatementFollows c (context.fill (.lambda loc row body))
      (context.fill (.lambda loc row' body')) := by
  refine ⟨by cases context <;> rfl, fun target scope hscope => ?_⟩
  cases context with
  | reference loc name dots =>
      have hcode := (ExprFollows.reference loc name (dots_fill h dots)).code scope .any hscope
      simp only [Statement.Context.fill, Statement.outcome, Statement.compile,
        Statement.mapError_unstarted]
      exact (hcode.bind_same _).bind_same _
  | create loc name type value =>
      have hcode := (follows_fill h value).code scope type hscope
      simp only [Statement.Context.fill, Statement.outcome, Statement.compile,
        Statement.mapError_unstarted]
      exact (hcode.bind_same _).bind_same _
  | ret loc value =>
      have hcode := (follows_fill h value).code scope target hscope
      simp only [Statement.Context.fill, Statement.outcome, Statement.compile,
        Statement.mapError_unstarted]
      apply Follows.bind_same
      simp only [Statement.returnCode]
      split
      · exact .fault loc _
      · exact hcode.bind_same _
  | condition loc condition body =>
      have hcode := (follows_fill h condition).code scope .bool hscope
      simp only [Statement.Context.fill, Statement.outcome_ifThen]
      exact hcode.bind_same _
  | ifBody loc condition before statement after =>
      have hinner : Statement.variableNamesAll (before ++
          statement.fill (.lambda _ row body) :: after) ⊆ ρ.variableNames := hnames
      rw [Statement.variableNamesAll_append, List.append_subset, Statement.variableNamesAll,
        List.append_subset] at hinner
      have hstatement := statement_fill h statement hinner.2.1
      have hstart : ρ.Admits scope.start := hscope
      simp only [Statement.Context.fill, Statement.outcome_ifThen]
      apply Follows.same_bind
      rintro ⟨test, type⟩ _
      exact (outcomes_place hstatement hnames hstart none).bind_same _
  | iterable loc row iterable body => exact .fault loc _
  | forBody loc row iterable before statement after => exact .fault loc _
termination_by sizeOf context

theorem Follows.eq_of_not {α : Type} {first second : Except LocatedFault α}
    (h : ρ.Follows c first second) (hnot : ¬c) : second = first := by
  cases h with
  | same => rfl
  | lost hlooked => exact absurd hlooked hnot

end Renaming

/-! ## Functions -/

/-- The kind of a fault of a function. A procedure that does not pass verification has
none. -/
def FunctionFault.kind? : FunctionFault → Option FaultKind
  | .located fault => some fault.fault.kind
  | .invalid _ => none

/-- Two compilations come out alike: with the same procedure, or with faults of one
kind. -/
inductive SameOutcome : Except FunctionError Procedure → Except FunctionError Procedure → Prop
  | procedure (p : Procedure) : SameOutcome (.ok p) (.ok p)
  | fault {e e' : FunctionError} (hkind : e'.fault.kind? = e.fault.kind?) :
      SameOutcome (.error e) (.error e')

theorem SameOutcome.refl (result : Except FunctionError Procedure) : SameOutcome result result := by
  cases result with
  | ok p => exact .procedure p
  | error e => exact .fault rfl

namespace Function

/-- The code before the body and the code of the body, or the fault. -/
def outcome (m : Manifest) (r : Registry) (f : Function) : Except LocatedFault (Code × Block) := do
  let (prologue, scope) ← entry r f
  let block ← Statement.outcomes m f.target scope none f.body
  return (prologue, block)

/-- The result of a compilation whose body has come out so. -/
def conclude (f : Function) (result : Except LocatedFault (Code × Block)) :
    Except FunctionError Procedure :=
  (result.mapError FunctionFault.located >>= fun parts => f.finish parts.1 parts.2).mapError
    (⟨f.name, ·⟩)

variable {m : Manifest} {r : Registry} {f : Function}

/-- A compilation is its outcome, checked at the end. -/
theorem compile_eq_conclude (m : Manifest) (r : Registry) (f : Function) :
    f.compile m r = f.conclude (f.outcome m r) := by
  rw [compile, compilation, outcome]
  cases entry r f with
  | error fault => rfl
  | ok start =>
      obtain ⟨prologue, scope⟩ := start
      change _ = f.conclude ((Statement.outcomes m f.target scope none f.body) >>= fun block =>
        .ok (prologue, block))
      rw [Statement.outcomes]
      dsimp only
      cases Statement.compileAll m f.target scope none f.body <;> rfl

/-- At the start only the parameter is in scope. -/
theorem admits_of_entry {ρ : Renaming} {prologue : Code} {scope : Scope}
    (hnames : f.variableNames ⊆ ρ.variableNames) (h : entry r f = .ok (prologue, scope)) :
    ρ.Admits scope := by
  intro name hname
  rcases entry_cases h with ⟨_, _, rfl⟩ | ⟨parameter, index, hparameter, _, rfl⟩
  · exact absurd rfl hname
  · have heq : name = parameter.name := by
      by_contra hne
      simp [Scope.get?, hne] at hname
    apply hnames
    simp [variableNames, hparameter, heq]

/-- The function with another name for the row of the anonymous function at a place. -/
def renameRow (f : Function) (place : Place) (loc : Location) (row fresh : String)
    (body : List Statement) : Function :=
  { f with body := place.fill (.lambda loc fresh (Statement.renameAll row fresh body)) }

/-- A function follows when the row of one of its anonymous functions is renamed. -/
theorem follows_outcome {ρ : Renaming} {place : Place} {loc : Location} {body : List Statement}
    (hbody : f.body = place.fill (.lambda loc ρ.row body))
    (hnames : f.variableNames ⊆ ρ.variableNames) (hfresh : ρ.fresh ∉ f.names) :
    ρ.Follows (ρ.fresh ∈ Statement.rowReferences (Statement.renameAll ρ.row ρ.fresh body))
      (f.outcome ρ.manifest r)
      ((f.renameRow place loc ρ.row ρ.fresh body).outcome ρ.manifest r) := by
  have hlambda : ρ.fresh ∉ (Expr.lambda loc ρ.row body).names := by
    intro hmem
    apply hfresh
    rw [names, hbody]
    exact List.mem_append_right _ (place.names_subset _ hmem)
  have hall : Statement.variableNamesAll (place.fill (.lambda loc ρ.row body)) ⊆
      ρ.variableNames := by
    rw [variableNames, hbody] at hnames
    exact (List.append_subset.mp hnames).2
  have hstatement : (place.statement.fill (.lambda loc ρ.row body)).variableNames ⊆
      ρ.variableNames := by
    rw [Place.fill, Statement.variableNamesAll_append, List.append_subset,
      Statement.variableNamesAll, List.append_subset] at hall
    exact hall.2.1
  have hfollows := Renaming.statement_fill (Renaming.follows_renameRow loc body hlambda)
    place.statement hstatement
  rw [outcome, hbody]
  apply Renaming.Follows.same_bind
  rintro ⟨prologue, scope⟩ hentry
  exact (Renaming.outcomes_place hfollows hall (admits_of_entry hnames hentry) none).bind_same _

section Conclude

variable {ρ : Renaming} {looked : Prop} {first second : Except LocatedFault (Code × Block)}

/-- If nothing outside has the old name, a renaming changes at most the name in a fault. -/
theorem sameOutcome_of_follows (h : ρ.Follows looked first second) (hfree : ¬ρ.Captures) :
    SameOutcome (f.conclude first) (f.conclude second) := by
  cases h with
  | same => exact .refl _
  | lost _ loc hrow =>
      rw [hrow hfree]
      exact .fault rfl

/-- If the new name is looked up, the function is refused: for that name, or as before. -/
theorem rejects_of_follows (h : ρ.Follows looked first second) (hlooked : looked) :
    (∃ loc, f.conclude second = .error ⟨f.name, .located ⟨loc, .unresolved ρ.fresh⟩⟩) ∨
      ∃ e, f.conclude first = .error e ∧ f.conclude second = .error e := by
  cases h with
  | same hfault =>
      obtain ⟨fault, rfl⟩ := hfault hlooked
      exact Or.inr ⟨_, rfl, rfl⟩
  | lost _ loc => exact Or.inl ⟨loc, rfl⟩

end Conclude

/-- The row of any anonymous function in a function gets a new name. If its arguments do
not mention the row, the compilation comes out the same. It comes out alike also if they
do, unless a variable or a store has the name of the row. A function whose arguments
mention the row is not accepted any more: the new name is not found, unless the function
had a fault before. -/
theorem compile_renameRow {place : Place} {loc : Location} {row fresh : String}
    {body : List Statement} (hbody : f.body = place.fill (.lambda loc row body))
    (hfresh : fresh ∉ f.names) (hstore : m.store? fresh = none) :
    (fresh ∉ Statement.rowReferences (Statement.renameAll row fresh body) →
      (f.renameRow place loc row fresh body).compile m r = f.compile m r) ∧
    (row ∉ f.variableNames → m.store? row = none →
      SameOutcome (f.compile m r) ((f.renameRow place loc row fresh body).compile m r)) ∧
    (fresh ∈ Statement.rowReferences (Statement.renameAll row fresh body) →
      (∃ lostLoc, (f.renameRow place loc row fresh body).compile m r =
        .error ⟨f.name, .located ⟨lostLoc, .unresolved fresh⟩⟩) ∨
      ∃ e, f.compile m r = .error e ∧
        (f.renameRow place loc row fresh body).compile m r = .error e) := by
  let ρ : Renaming :=
    { manifest := m
      variableNames := f.variableNames
      row
      fresh
      fresh_not_variable := fun hmem => hfresh (f.variableNames_subset hmem)
      fresh_not_store := hstore }
  have hfollows : ρ.Follows (fresh ∈ Statement.rowReferences (Statement.renameAll row fresh body))
      (f.outcome m r) ((f.renameRow place loc row fresh body).outcome m r) :=
    follows_outcome hbody (List.Subset.refl _) hfresh
  -- Apart from its body the renamed function is the same one.
  have hrenamed : (f.renameRow place loc row fresh body).compile m r =
      f.conclude ((f.renameRow place loc row fresh body).outcome m r) :=
    compile_eq_conclude m r _
  rw [hrenamed, compile_eq_conclude m r f]
  refine ⟨?_, ?_, ?_⟩
  · intro hnot
    rw [hfollows.eq_of_not hnot]
  · intro hrow hrowStore
    apply sameOutcome_of_follows hfollows
    rintro (hmem | hsome)
    · exact hrow hmem
    · exact hsome hrowStore
  · intro hlooked
    exact rejects_of_follows hfollows hlooked

end Function

/-- The body of an anonymous function that gives a user a friend. -/
def Statement.befriend (friend : Expr) : List Statement :=
  [.reference {} "row" [.field {} "friends", .method {} "append" [friend]],
    .ret {} (some (.reference {} "row" []))]

/-- The registry of a function of a user. -/
def Registry.ofUser : Registry where
  schemas := [(parameterName "run", .ref "users")]
  stores := [("users", Fields.ofUser)]

namespace Function

/-- The place of the anonymous function in a function that gives a user a friend. -/
def Place.ofUser : Place where
  statement := .ret {} (.reference {} "user" (.method [] {} "deref" [] .here [] []))

/-- The friend is a text, which does not mention the row. -/
theorem compile_renameRow_befriendAlice :
    befriendAlice.body =
        Place.ofUser.fill (.lambda {} "row" (Statement.befriend (.string {} "alice"))) ∧
      "other" ∉ befriendAlice.names ∧ Manifest.ofUsers.store? "other" = none ∧
      ∃ p, befriendAlice.compile .ofUsers .ofUser = .ok p ∧
        (befriendAlice.renameRow .ofUser {} "row" "other"
          (Statement.befriend (.string {} "alice"))).compile .ofUsers .ofUser = .ok p := by
  have hcode : (befriendAlice.compile .ofUsers .ofUser).toOption.map Procedure.code =
      some [.enforceSchema 0 0, .copyFromHeap 0, .newPush, .text "alice", .pushAt ["friends"],
        .updateOne "users", .returnTop] := by
    decide +kernel
  obtain ⟨p, hp, _⟩ := exists_procedure hcode
  have hbody : befriendAlice.body =
      Place.ofUser.fill (.lambda {} "row" (Statement.befriend (.string {} "alice"))) := rfl
  have hfresh : "other" ∉ befriendAlice.names := by decide
  refine ⟨hbody, hfresh, rfl, p, hp, ?_⟩
  rw [← hp]
  exact (compile_renameRow hbody hfresh rfl).1 (by decide)

/-- The same place behind a variable that has the name of the row. -/
def Place.afterRow : Place where
  before := [.create {} "row" .string (.string {} "bob")]
  statement := .reference {} "user" (.method [] {} "deref" [] .here [] [])

/-- The friend is the variable, though the row has its name. -/
def befriendRow : Function where
  name := "run"
  parameter := some ⟨"user", .ref "users"⟩
  body := Place.afterRow.fill (.lambda {} "row" (Statement.befriend (.reference {} "row" [])))

/-- With another name for the row the function is not accepted any more. -/
theorem not_sameOutcome_befriendRow :
    "other" ∉ befriendRow.names ∧ Manifest.ofUsers.store? "other" = none ∧
      (befriendRow.compile .ofUsers .ofUser).toOption.map Procedure.code =
        some [.enforceSchema 0 0, .text "bob", .moveToHeap, .copyFromHeap 0, .newPush,
          .copyFromHeap 1, .pushAt ["friends"], .updateOne "users"] ∧
      ¬SameOutcome (befriendRow.compile .ofUsers .ofUser)
        ((befriendRow.renameRow .afterRow {} "row" "other"
          (Statement.befriend (.reference {} "row" []))).compile .ofUsers .ofUser) := by
  have hcode : (befriendRow.compile .ofUsers .ofUser).toOption.map Procedure.code =
      some [.enforceSchema 0 0, .text "bob", .moveToHeap, .copyFromHeap 0, .newPush,
        .copyFromHeap 1, .pushAt ["friends"], .updateOne "users"] := by
    decide +kernel
  have hnone : ((befriendRow.renameRow .afterRow {} "row" "other"
      (Statement.befriend (.reference {} "row" []))).compile .ofUsers .ofUser).toOption.isNone =
        true := by
    decide +kernel
  refine ⟨by decide, rfl, hcode, ?_⟩
  obtain ⟨p, hp, _⟩ := exists_procedure hcode
  intro hsame
  rw [hp] at hsame
  generalize compile _ _ _ = result at hsame hnone
  cases hsame
  cases hnone

end Function

end StoredProc
