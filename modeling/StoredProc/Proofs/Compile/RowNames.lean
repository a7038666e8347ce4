import Mathlib.Data.List.Basic
import StoredProc.Compile.Expression

/-! # Names of rows

The row of an anonymous function is compared with the names in its body and is never
bound. A name in the arguments of the body is looked up around the function instead, also
if it is the name of the row.

`ExprFollows` says what two expressions have in common if they differ in the name of a
row: they come out the same unless the name is looked up. Every form of expressions keeps
this relation.
-/

namespace StoredProc

/-! ## Faults of anonymous functions -/

namespace Expr

def isLambda : Expr → Bool
  | .lambda .. => true
  | _ => false

def isReference : Expr → Bool
  | .reference .. => true
  | _ => false

end Expr

/-- A statement that can be a chain on a row, or return a value. -/
def Statement.namesRow : Statement → Bool
  | .reference .. | .ret _ (some _) => true
  | _ => false

theorem Statement.ne_reference {statement : Statement} (h : statement.namesRow = false)
    (loc : Location) (name : String) (dots : List Dot) : statement ≠ .reference loc name dots := by
  rintro rfl
  cases h

theorem Statement.ne_ret {statement : Statement} (h : statement.namesRow = false)
    (loc : Location) (value : Expr) : statement ≠ .ret loc (some value) := by
  rintro rfl
  cases h

namespace Expr

variable {m : Manifest} {scope : Scope} {store row : String} {loc : Location} {expr : Expr}

/-- More than one argument is too many for `deref`, whatever they are. -/
theorem dotCode_deref_of_two (first second : Expr) (rest : List Expr) :
    dotCode m scope (.ref store) (.method loc "deref" (first :: second :: rest)) =
      (m.store? store).elim (faultAt loc (.noStoreOfReference store)) fun _ =>
        faultAt loc .derefArguments := by
  rw [dotCode]
  cases m.store? store with
  | none => rfl
  | some schema => cases first <;> rfl

/-- What is given to `deref` and is no anonymous function is a fault where it stands. -/
theorem dotCode_deref_of_isLambda (h : expr.isLambda = false) :
    dotCode m scope (.ref store) (.method loc "deref" [expr]) =
      (m.store? store).elim (faultAt loc (.noStoreOfReference store)) fun _ =>
        faultAt expr.loc .derefNeedsLambda := by
  rw [dotCode]
  cases m.store? store with
  | none => rfl
  | some schema =>
      cases expr with
      | lambda => cases h
      | _ => rfl

theorem selection_of_isLambda (h : expr.isLambda = false) (target : DataType) :
    selection target loc [expr] =
      if target.isNothing then faultAt loc .selectMustYield
      else faultAt expr.loc .selectNeedsLambda := by
  cases expr with
  | lambda => cases h
  | _ => rfl

theorem selectionOfBody_of_isReference (h : expr.isReference = false) (returnLoc : Location) :
    selectionOfBody loc row [.ret returnLoc (some expr)] =
      faultAt expr.loc .selectRowOrPointer := by
  cases expr with
  | reference => cases h
  | _ => rfl

theorem selectionOfBody_of_namesRow {statement : Statement} (h : statement.namesRow = false) :
    selectionOfBody loc row [statement] = faultAt statement.loc .selectMustReturn := by
  rw [selectionOfBody]
  · rintro returnLoc valueLoc name dots rfl
    cases h
  · exact Statement.ne_ret h

theorem selectionOfBody_of_two (first second : Statement) (rest : List Statement) :
    selectionOfBody loc row (first :: second :: rest) = faultAt loc .selectOneStatement := by
  rw [selectionOfBody] <;> simp

theorem returnsRow_of_isReference (h : expr.isReference = false) (returnLoc : Location) :
    returnsRow row (.ret returnLoc (some expr)) = false := by
  cases expr with
  | reference => cases h
  | _ => rfl

theorem returnsRow_of_namesRow {statement : Statement} (h : statement.namesRow = false) :
    returnsRow row statement = false := by
  rw [returnsRow]
  rintro returnLoc valueLoc name rfl
  cases h

theorem mutationCode_of_returnsRow {schema : Fields} {first last : Statement}
    (h : returnsRow row last = false) :
    mutationCode m scope loc row schema [first, last] = faultAt last.loc .derefMustReturnRow := by
  cases first <;> simp [mutationCode, h]

theorem mutationCode_of_other {schema : Fields} {first last : Statement}
    (hfirst : ∀ loc name dots, first ≠ .reference loc name dots)
    (hlast : returnsRow row last = true) :
    mutationCode m scope loc row schema [first, last] = faultAt first.loc .derefMustAppend := by
  rw [mutationCode, if_pos hlast]
  exact hfirst

theorem appendCode_of_two {current : DataType} {methodLoc : Location} {name : String}
    {args : List Expr} (dot : Dot) (rest : List Dot) :
    appendCode m scope current loc (.method methodLoc name args :: dot :: rest) =
      faultAt methodLoc .derefMustAppend := by
  rw [appendCode]
  simp

end Expr

/-! ## Outcomes -/

/-- The setting of a renaming: a manifest, the names of the variables of a function, the
name of the row of one of its anonymous functions, and a new name for it that is neither
a variable nor a store. -/
structure Renaming where
  manifest : Manifest
  variableNames : List String
  row : String
  fresh : String
  fresh_not_variable : fresh ∉ variableNames
  fresh_not_store : manifest.store? fresh = none

/-- Two lists whose members are related one by one. What is said of the lists is said of
one of the pairs. -/
inductive Aligned {α : Type} (R : Prop → α → α → Prop) : Prop → List α → List α → Prop
  | nil : Aligned R False [] []
  | cons {c d : Prop} {first second : α} {rest rest' : List α} (hhead : R c first second)
      (htail : Aligned R d rest rest') : Aligned R (c ∨ d) (first :: rest) (second :: rest')

namespace Aligned

variable {α : Type} {R : Prop → α → α → Prop} {c : Prop} {xs ys : List α}

theorem append (hrefl : ∀ x, R False x x) (before : List α) (h : Aligned R c xs ys) :
    Aligned R c (before ++ xs) (before ++ ys) := by
  induction before with
  | nil => exact h
  | cons x rest ih => simpa using Aligned.cons (hrefl x) ih

theorem refl (hrefl : ∀ x, R False x x) (xs : List α) : Aligned R False xs xs := by
  simpa using append hrefl xs .nil

/-- One member of a list is replaced. -/
theorem place {before after : List α} {x y : α} (hrefl : ∀ x, R False x x) (h : R c x y) :
    Aligned R c (before ++ x :: after) (before ++ y :: after) := by
  apply append hrefl
  simpa using Aligned.cons h (refl hrefl after)

theorem length_eq (h : Aligned R c xs ys) : ys.length = xs.length := by
  induction h with
  | nil => rfl
  | cons _ _ ih => simp [ih]

/-- The last members are related, too. -/
theorem getLast? (h : Aligned R c xs ys) :
    xs.getLast? = none ∧ ys.getLast? = none ∨
      ∃ d x y, xs.getLast? = some x ∧ ys.getLast? = some y ∧ R d x y := by
  induction h with
  | nil => exact Or.inl ⟨rfl, rfl⟩
  | cons hhead htail ih =>
      cases htail with
      | nil => exact Or.inr ⟨_, _, _, rfl, rfl, hhead⟩
      | cons => simpa [List.getLast?_cons_cons] using ih

end Aligned

namespace Renaming

variable (ρ : Renaming)

/-- Outside of the anonymous function a variable or a store has the name of the row. -/
def Captures : Prop := ρ.row ∈ ρ.variableNames ∨ ρ.manifest.store? ρ.row ≠ none

/-- What is in scope is a variable of the function. -/
def Admits (scope : Scope) : Prop := ∀ name, scope.get? name ≠ none → name ∈ ρ.variableNames

/-- How an outcome changes with the name of the row. It stays the same if the name is not
looked up. If it is, the new name is not found, unless there was a fault before that. -/
inductive Follows {α : Type} (looked : Prop) :
    Except LocatedFault α → Except LocatedFault α → Prop
  | same {outcome : Except LocatedFault α} (hfault : looked → ∃ fault, outcome = .error fault) :
      Follows looked outcome outcome
  | lost {outcome : Except LocatedFault α} (hlooked : looked) (loc : Location)
      (hrow : ¬ρ.Captures → outcome = faultAt loc (.unresolved ρ.row)) :
      Follows looked outcome (faultAt loc (.unresolved ρ.fresh))

variable {ρ}

namespace Follows

variable {α β : Type} {c d : Prop} {first second : Except LocatedFault α}

theorem refl (outcome : Except LocatedFault α) : ρ.Follows False outcome outcome :=
  .same False.elim

theorem fault (loc : Location) (fault : Fault) :
    ρ.Follows c (faultAt loc fault : Except LocatedFault α) (faultAt loc fault) :=
  .same fun _ => ⟨_, rfl⟩

/-- What follows the renaming in two steps follows it as a whole; the name is looked up in one of
them. -/
theorem bind {next next' : α → Except LocatedFault β} (h : ρ.Follows c first second)
    (hnext : ∀ value, first = .ok value → ρ.Follows d (next value) (next' value)) :
    ρ.Follows (c ∨ d) (first >>= next) (second >>= next') := by
  cases h with
  | same hfault =>
      cases first with
      | error fault => exact .same fun _ => ⟨fault, rfl⟩
      | ok value =>
          have hnot : ¬c := by
            intro hc
            obtain ⟨_, hfault⟩ := hfault hc
            cases hfault
          rw [or_iff_right hnot]
          exact hnext value rfl
  | lost hlooked loc hrow =>
      refine .lost (Or.inl hlooked) loc fun hfree => ?_
      rw [hrow hfree]
      rfl

theorem same_bind {outcome : Except LocatedFault α} {next next' : α → Except LocatedFault β}
    (hnext : ∀ value, outcome = .ok value → ρ.Follows c (next value) (next' value)) :
    ρ.Follows c (outcome >>= next) (outcome >>= next') := by
  simpa using (refl outcome).bind hnext

theorem bind_same (h : ρ.Follows c first second) (next : α → Except LocatedFault β) :
    ρ.Follows c (first >>= next) (second >>= next) := by
  simpa using h.bind fun value _ => refl (next value)

end Follows

theorem Admits.free {scope : Scope} (h : ρ.Admits scope) : scope.get? ρ.fresh = none := by
  by_contra hheld
  exact ρ.fresh_not_variable (h ρ.fresh hheld)

theorem Admits.row_free {scope : Scope} (h : ρ.Admits scope) (hfree : ¬ρ.Captures) :
    scope.get? ρ.row = none := by
  by_contra hheld
  exact hfree (Or.inl (h ρ.row hheld))

/-! ## Expressions -/

variable (ρ)

/-- What two expressions have in common if one of them comes from the other by the
renaming, in each place where an expression can stand: as a value, as the argument of
`select`, and as the argument of `deref`. -/
structure ExprFollows (looked : Prop) (first second : Expr) : Prop where
  loc_eq : second.loc = first.loc
  code : ∀ (scope : Scope) (target : DataType), ρ.Admits scope →
    ρ.Follows looked (first.code ρ.manifest scope target) (second.code ρ.manifest scope target)
  selection : ∀ (target : DataType) (loc : Location),
    ρ.Follows looked (Expr.selection target loc [first]) (Expr.selection target loc [second])
  change : ∀ (scope : Scope) (store : String) (loc : Location), ρ.Admits scope →
    ρ.Follows looked
      (Expr.dotCode ρ.manifest scope (.ref store) (.method loc "deref" [first]))
      (Expr.dotCode ρ.manifest scope (.ref store) (.method loc "deref" [second]))

/-- The same for the fields of an object. -/
def EntryFollows (looked : Prop) (first second : String × Expr) : Prop :=
  second.1 = first.1 ∧ ρ.ExprFollows looked first.2 second.2

/-- The same for the links of a chain. -/
inductive DotFollows : Prop → Dot → Dot → Prop
  | field (loc : Location) (name : String) : DotFollows False (.field loc name) (.field loc name)
  | method {looked : Prop} {args args' : List Expr} (loc : Location) (name : String)
      (hargs : Aligned ρ.ExprFollows looked args args') :
      DotFollows looked (.method loc name args) (.method loc name args')

variable {ρ} {c : Prop} {scope : Scope}

theorem ExprFollows.refl (expr : Expr) : ρ.ExprFollows False expr expr where
  loc_eq := rfl
  code _ _ _ := .refl _
  selection _ _ := .refl _
  change _ _ _ _ := .refl _

theorem DotFollows.refl (dot : Dot) : ρ.DotFollows False dot dot := by
  cases dot with
  | field loc name => exact .field loc name
  | method loc name args => exact .method loc name (.refl .refl args)

theorem DotFollows.loc_eq {dot dot' : Dot} (h : ρ.DotFollows c dot dot') : dot'.loc = dot.loc := by
  cases h <;> rfl

theorem follows_elim {α β : Type} {loc otherLoc : Location} {fault other : Fault}
    (found : Option β) :
    ρ.Follows (α := α) c (found.elim (faultAt loc fault) fun _ => faultAt otherLoc other)
      (found.elim (faultAt loc fault) fun _ => faultAt otherLoc other) := by
  cases found with
  | none => exact .fault loc fault
  | some => exact .fault otherLoc other

/-- A method that takes no arguments. -/
theorem follows_isEmpty {α : Type} {args args' : List Expr}
    (h : Aligned ρ.ExprFollows c args args') (outcome : Except LocatedFault α) (loc : Location)
    (fault : Fault) :
    ρ.Follows c (if args.isEmpty then outcome else faultAt loc fault)
      (if args'.isEmpty then outcome else faultAt loc fault) := by
  cases h with
  | nil => exact .refl outcome
  | cons => exact .fault loc fault

theorem follows_elementsCode {exprs exprs' : List Expr} (h : Aligned ρ.ExprFollows c exprs exprs')
    (hscope : ρ.Admits scope) (elem : DataType) :
    ρ.Follows c (Expr.elementsCode ρ.manifest scope elem exprs)
      (Expr.elementsCode ρ.manifest scope elem exprs') := by
  induction h with
  | nil => exact .refl _
  | cons hhead _ ih =>
      rw [Expr.elementsCode, Expr.elementsCode]
      apply (hhead.code scope elem hscope).bind
      rintro ⟨value, type⟩ _
      exact ih.bind_same _

theorem follows_insertsCode {exprs exprs' : List Expr} (h : Aligned ρ.ExprFollows c exprs exprs')
    (hscope : ρ.Admits scope) (store : String) (schema : Fields) :
    ρ.Follows c (Expr.insertsCode ρ.manifest scope store schema exprs)
      (Expr.insertsCode ρ.manifest scope store schema exprs') := by
  induction h with
  | nil => exact .refl _
  | cons hhead _ ih =>
      rw [Expr.insertsCode, Expr.insertsCode]
      apply (hhead.code scope (.object schema) hscope).bind
      rintro ⟨value, type⟩ _
      exact ih.bind_same _

theorem follows_fieldsCode {entries entries' : List (String × Expr)}
    (h : Aligned ρ.EntryFollows c entries entries') (hscope : ρ.Admits scope)
    (expected : Option Fields) :
    ρ.Follows c (Expr.fieldsCode ρ.manifest scope expected entries)
      (Expr.fieldsCode ρ.manifest scope expected entries') := by
  induction h with
  | nil => exact .refl _
  | @cons _ _ first second _ _ hhead _ ih =>
      obtain ⟨name, expr⟩ := first
      obtain ⟨_, expr'⟩ := second
      obtain ⟨rfl, hexpr⟩ := hhead
      rw [Expr.fieldsCode, Expr.fieldsCode]
      apply (hexpr.code scope _ hscope).bind
      rintro ⟨value, type⟩ _
      exact ih.bind_same _

theorem names_eq {entries entries' : List (String × Expr)}
    (h : Aligned ρ.EntryFollows c entries entries') :
    entries'.map Prod.fst = entries.map Prod.fst := by
  induction h with
  | nil => rfl
  | cons hhead _ ih => simp [hhead.1, ih]

/-! ### Chains -/

theorem follows_derefCode {args args' : List Expr} (h : Aligned ρ.ExprFollows c args args')
    (hscope : ρ.Admits scope) (store : String) (loc : Location) :
    ρ.Follows c (Expr.dotCode ρ.manifest scope (.ref store) (.method loc "deref" args))
      (Expr.dotCode ρ.manifest scope (.ref store) (.method loc "deref" args')) := by
  cases h with
  | nil => exact .refl _
  | cons hhead htail =>
      cases htail with
      | nil => simpa using hhead.change scope store loc hscope
      | cons =>
          rw [Expr.dotCode_deref_of_two, Expr.dotCode_deref_of_two]
          exact follows_elim _

/-- A link of a chain follows with its arguments. -/
theorem follows_dotCode {dot dot' : Dot} (h : ρ.DotFollows c dot dot') (hscope : ρ.Admits scope)
    (current : DataType) :
    ρ.Follows c (Expr.dotCode ρ.manifest scope current dot)
      (Expr.dotCode ρ.manifest scope current dot') := by
  cases h with
  | field => exact .refl _
  | method loc name hargs =>
      cases current with
      | ref store =>
          by_cases hderef : name = "deref"
          · subst hderef
            exact follows_derefCode hargs hscope store loc
          · rw [Expr.dotCode, Expr.dotCode]
            cases ρ.manifest.store? store with
            | none => exact .fault loc _
            | some schema =>
                simp only [if_neg hderef]
                by_cases hdelete : name = "delete"
                · simp only [if_pos hdelete]
                  exact follows_isEmpty hargs _ loc _
                · simp only [if_neg hdelete]
                  exact .fault loc _
      | array elem =>
          rw [Expr.dotCode, Expr.dotCode]
          split
          · exact follows_isEmpty hargs _ loc _
          · exact .fault loc _
      | _ => exact .fault loc _

/-- The links of a chain follow one by one. -/
theorem follows_chainCode {dots dots' : List Dot} (h : Aligned ρ.DotFollows c dots dots')
    (hscope : ρ.Admits scope) (current : DataType) :
    ρ.Follows c (Expr.chainCode ρ.manifest scope current dots)
      (Expr.chainCode ρ.manifest scope current dots') := by
  induction h generalizing current with
  | nil => exact .refl _
  | cons hhead _ ih =>
      rw [Expr.chainCode, Expr.chainCode]
      apply (follows_dotCode hhead hscope current).bind
      rintro ⟨first, next⟩ _
      exact (ih next).bind_same _

theorem follows_selection {args args' : List Expr} (h : Aligned ρ.ExprFollows c args args')
    (target : DataType) (loc : Location) :
    ρ.Follows c (Expr.selection target loc args) (Expr.selection target loc args') := by
  cases h with
  | nil => exact .refl _
  | cons hhead htail =>
      cases htail with
      | nil => simpa using hhead.selection target loc
      | cons => exact .fault loc _

/-- A chain on a store follows with the arguments of its one link. -/
theorem follows_storeCode {dots dots' : List Dot} (h : Aligned ρ.DotFollows c dots dots')
    (hscope : ρ.Admits scope) (target : DataType) (loc : Location) (store : String)
    (schema : Fields) :
    ρ.Follows c (Expr.storeCode ρ.manifest scope target loc store schema dots)
      (Expr.storeCode ρ.manifest scope target loc store schema dots') := by
  cases h with
  | nil => exact .refl _
  | cons hhead htail =>
      cases htail with
      | nil =>
          cases hhead with
          | field loc name => exact .fault loc _
          | method loc name hargs =>
              simp only [or_false]
              rw [Expr.storeCode, Expr.storeCode]
              by_cases happend : name = "append"
              · simp only [if_pos happend]
                split
                · exact (follows_insertsCode hargs hscope store schema).bind_same _
                · exact .fault loc _
              · simp only [if_neg happend]
                split
                · exact follows_isEmpty hargs _ loc _
                · split
                  · exact (follows_selection hargs target loc).bind_same _
                  · exact .fault loc _
      | cons hsecond _ =>
          rw [Expr.storeCode, Expr.storeCode, hsecond.loc_eq]
          exact .fault _ _

/-! ### Forms of expressions -/

/-- Apart from anonymous functions, an expression only counts as a value. -/
theorem ExprFollows.of_code {first second : Expr} (hfirst : first.isLambda = false)
    (hsecond : second.isLambda = false) (hloc : second.loc = first.loc)
    (hcode : ∀ scope target, ρ.Admits scope → ρ.Follows c
      (first.code ρ.manifest scope target) (second.code ρ.manifest scope target)) :
    ρ.ExprFollows c first second where
  loc_eq := hloc
  code := hcode
  selection target loc := by
    rw [Expr.selection_of_isLambda hfirst, Expr.selection_of_isLambda hsecond, hloc]
    split
    · exact .fault loc _
    · exact .fault first.loc _
  change scope store loc _ := by
    rw [Expr.dotCode_deref_of_isLambda hfirst, Expr.dotCode_deref_of_isLambda hsecond, hloc]
    exact follows_elim _

theorem ExprFollows.array {elements elements' : List Expr} (loc : Location)
    (h : Aligned ρ.ExprFollows c elements elements') :
    ρ.ExprFollows c (.array loc elements) (.array loc elements') := by
  refine of_code rfl rfl rfl fun scope target hscope => ?_
  rw [Expr.code, Expr.code]
  apply Follows.same_bind
  intro elem _
  exact (follows_elementsCode h hscope elem).bind_same _

theorem ExprFollows.object {entries entries' : List (String × Expr)} (loc : Location)
    (h : Aligned ρ.EntryFollows c entries entries') :
    ρ.ExprFollows c (.object loc entries) (.object loc entries') := by
  refine of_code rfl rfl rfl fun scope target hscope => ?_
  rw [Expr.code, Expr.code, names_eq h]
  apply Follows.same_bind
  intro expected _
  apply Follows.same_bind
  intro _ _
  apply Follows.same_bind
  intro _ _
  exact (follows_fieldsCode h hscope expected).bind_same _

theorem ExprFollows.reference {dots dots' : List Dot} (loc : Location) (name : String)
    (h : Aligned ρ.DotFollows c dots dots') :
    ρ.ExprFollows c (.reference loc name dots) (.reference loc name dots') := by
  refine of_code rfl rfl rfl fun scope target hscope => ?_
  rw [Expr.code, Expr.code]
  cases scope.get? name with
  | some held =>
      simp only
      split
      · exact .fault loc _
      · exact (follows_chainCode h hscope held.type).bind_same _
  | none =>
      cases ρ.manifest.store? name with
      | some schema => exact follows_storeCode h hscope target loc name schema
      | none => exact .fault loc _

/-- The name of the row is looked up. -/
theorem ExprFollows.captured (hlooked : c) (loc : Location) (dots dots' : List Dot) :
    ρ.ExprFollows c (.reference loc ρ.row dots) (.reference loc ρ.fresh dots') := by
  refine of_code rfl rfl rfl fun scope target hscope => ?_
  have hlost : (Expr.reference loc ρ.fresh dots').code ρ.manifest scope target =
      faultAt loc (.unresolved ρ.fresh) := by
    simp only [Expr.code, hscope.free, ρ.fresh_not_store]
  rw [hlost]
  refine .lost hlooked loc fun hfree => ?_
  have hstore : ρ.manifest.store? ρ.row = none := by
    by_contra hstore
    exact hfree (Or.inr hstore)
  simp only [Expr.code, hscope.row_free hfree, hstore]

/-! ### Anonymous functions -/

variable (ρ)

/-- Two statements of anonymous functions with rows of two names. Chains on the row
correspond to each other, and no other statement is accepted. -/
inductive RowFollows (row row' : String) : Prop → Statement → Statement → Prop
  | reference {looked : Prop} {name name' : String} {dots dots' : List Dot} (loc : Location)
      (hname : name' = row' ↔ name = row) (hdots : Aligned ρ.DotFollows looked dots dots') :
      RowFollows row row' looked (.reference loc name dots) (.reference loc name' dots')
  | returned {looked : Prop} {name name' : String} {dots dots' : List Dot}
      (loc valueLoc : Location) (hname : name' = row' ↔ name = row)
      (hdots : Aligned ρ.DotFollows looked dots dots') :
      RowFollows row row' looked (.ret loc (some (.reference valueLoc name dots)))
        (.ret loc (some (.reference valueLoc name' dots')))
  | value {looked : Prop} {value value' : Expr} (loc : Location)
      (hvalue : value.isReference = false) (hvalue' : value'.isReference = false)
      (hloc : value'.loc = value.loc) :
      RowFollows row row' looked (.ret loc (some value)) (.ret loc (some value'))
  | other {looked : Prop} {first second : Statement} (hfirst : first.namesRow = false)
      (hsecond : second.namesRow = false) (hloc : second.loc = first.loc) :
      RowFollows row row' looked first second

variable {ρ} {row row' : String}

/-- A statement follows itself if the row keeps its name. -/
theorem RowFollows.refl (statement : Statement) :
    ρ.RowFollows row row False statement statement := by
  have hdots : ∀ dots, Aligned ρ.DotFollows False dots dots := .refl .refl
  cases statement with
  | reference loc name dots => exact .reference loc Iff.rfl (hdots dots)
  | ret loc value =>
      cases value with
      | none => exact .other rfl rfl rfl
      | some value =>
          cases value with
          | reference valueLoc name dots => exact .returned loc valueLoc Iff.rfl (hdots dots)
          | _ => exact .value loc rfl rfl rfl
  | create | ifThen | forIn => exact .other rfl rfl rfl

theorem RowFollows.loc_eq {first second : Statement} (h : ρ.RowFollows row row' c first second) :
    second.loc = first.loc := by
  cases h with
  | other _ _ hloc => exact hloc
  | reference | returned | value => rfl

/-- A bare row is no place for a name that is looked up. -/
theorem RowFollows.returnsRow_eq {first second : Statement}
    (h : ρ.RowFollows row row' c first second) :
    Expr.returnsRow row' second = Expr.returnsRow row first ∧
      (Expr.returnsRow row first = true → ¬c) := by
  cases h with
  | reference => exact ⟨rfl, by simp [Expr.returnsRow]⟩
  | returned loc valueLoc hname hdots =>
      cases hdots with
      | nil => simp [Expr.returnsRow, hname]
      | cons => simp [Expr.returnsRow]
  | value loc hvalue hvalue' =>
      rw [Expr.returnsRow_of_isReference hvalue, Expr.returnsRow_of_isReference hvalue']
      simp
  | other hfirst hsecond =>
      rw [Expr.returnsRow_of_namesRow hfirst, Expr.returnsRow_of_namesRow hsecond]
      simp

/-- The links behind the row of a selection follow. -/
theorem follows_selectionOfDots {dots dots' : List Dot} (h : Aligned ρ.DotFollows c dots dots')
    (hlength : dots.length ≤ 1) :
    ρ.Follows c (Expr.selectionOfDots dots) (Expr.selectionOfDots dots') := by
  cases h with
  | nil => exact .refl _
  | cons hhead htail =>
      cases htail with
      | nil =>
          cases hhead with
          | field loc name => exact .fault loc _
          | method loc name hargs =>
              simp only [or_false, Expr.selectionOfDots]
              split
              · exact .fault loc _
              · exact follows_isEmpty hargs _ loc _
      | cons => simp at hlength

/-- The body of a selection follows: the name of its row is not looked up. -/
theorem follows_selectionOfBody {body body' : List Statement}
    (h : Aligned (ρ.RowFollows row row') c body body') (loc : Location) :
    ρ.Follows c (Expr.selectionOfBody loc row body) (Expr.selectionOfBody loc row' body') := by
  cases h with
  | nil => exact .fault loc _
  | cons hhead htail =>
      cases htail with
      | nil =>
          simp only [or_false]
          cases hhead with
          | reference loc => exact .fault loc _
          | returned _ valueLoc hname hdots =>
              simp only [Expr.selectionOfBody, hname, hdots.length_eq, Bool.and_eq_true,
                decide_eq_true_eq]
              split
              next hrow => exact follows_selectionOfDots hdots hrow.2
              next => exact .fault valueLoc _
          | value _ hvalue hvalue' hloc =>
              rw [Expr.selectionOfBody_of_isReference hvalue,
                Expr.selectionOfBody_of_isReference hvalue', hloc]
              exact .fault _ _
          | other hfirst hsecond hloc =>
              rw [Expr.selectionOfBody_of_namesRow hfirst,
                Expr.selectionOfBody_of_namesRow hsecond, hloc]
              exact .fault _ _
      | cons =>
          rw [Expr.selectionOfBody_of_two, Expr.selectionOfBody_of_two]
          exact .fault loc _

theorem checkAppend_eq {dots dots' : List Dot} (h : Aligned ρ.DotFollows c dots dots')
    (loc : Location) : Expr.checkAppend loc dots' = Expr.checkAppend loc dots := by
  rcases h.getLast? with ⟨hnone, hnone'⟩ | ⟨_, _, _, hlast, hlast', hrelated⟩
  · rw [Expr.checkAppend, Expr.checkAppend, hnone, hnone']
  · rw [Expr.checkAppend, Expr.checkAppend, hlast, hlast']
    cases hrelated with
    | field => rfl
    | method loc name hargs => simp only [hargs.length_eq]

/-- The links of a change follow, and so does the value at its end. -/
theorem follows_appendCode {dots dots' : List Dot} (h : Aligned ρ.DotFollows c dots dots')
    (hscope : ρ.Admits scope) (current : DataType) (loc : Location) :
    ρ.Follows c (Expr.appendCode ρ.manifest scope current loc dots)
      (Expr.appendCode ρ.manifest scope current loc dots') := by
  induction h generalizing current loc with
  | nil => exact .refl _
  | cons hhead htail ih =>
      cases hhead with
      | field loc name =>
          simp only [false_or]
          rw [Expr.appendCode, Expr.appendCode]
          apply Follows.same_bind
          rintro ⟨_, type⟩ _
          exact (ih type loc).bind_same _
      | method loc name hargs =>
          cases htail with
          | nil =>
              cases hargs with
              | nil => exact .fault loc _
              | cons hvalue hmore =>
                  cases hmore with
                  | nil =>
                      cases current with
                      | array elem =>
                          simp only [or_false]
                          rw [Expr.appendCode, Expr.appendCode]
                          exact (hvalue.code scope elem hscope).bind_same _
                      | _ => exact .fault loc _
                  | cons => exact .fault loc _
          | cons =>
              rw [Expr.appendCode_of_two, Expr.appendCode_of_two]
              exact .fault loc _

/-- The first statement of two, where the last one returns the row. -/
theorem follows_firstCode {first first' last last' : Statement}
    (h : ρ.RowFollows row row' c first first') (hscope : ρ.Admits scope) (loc : Location)
    (schema : Fields) (hlast : Expr.returnsRow row last = true)
    (hlast' : Expr.returnsRow row' last' = true) :
    ρ.Follows c (Expr.mutationCode ρ.manifest scope loc row schema [first, last])
      (Expr.mutationCode ρ.manifest scope loc row' schema [first', last']) := by
  cases h with
  | reference loc hname hdots =>
      rw [Expr.mutationCode, Expr.mutationCode, if_pos hlast, if_pos hlast']
      simp only [hname, hdots.length_eq, checkAppend_eq hdots]
      split
      · apply Follows.same_bind
        intro _ _
        exact follows_appendCode hdots hscope (.object schema) loc
      · exact .fault loc _
  | returned loc | value loc =>
      rw [Expr.mutationCode_of_other (by simp) hlast, Expr.mutationCode_of_other (by simp) hlast']
      exact .fault loc _
  | other hother hother' hloc =>
      rw [Expr.mutationCode_of_other (Statement.ne_reference hother) hlast,
        Expr.mutationCode_of_other (Statement.ne_reference hother') hlast', hloc]
      exact .fault _ _

/-- The body of a mutation follows with its change, and returns the row by its new name. -/
theorem follows_mutationCode {body body' : List Statement}
    (h : Aligned (ρ.RowFollows row row') c body body') (hscope : ρ.Admits scope) (loc : Location)
    (schema : Fields) :
    ρ.Follows c (Expr.mutationCode ρ.manifest scope loc row schema body)
      (Expr.mutationCode ρ.manifest scope loc row' schema body') := by
  cases h with
  | nil => exact .fault loc _
  | cons hfirst hrest =>
      cases hrest with
      | nil => exact .fault loc _
      | cons hlast hmore =>
          cases hmore with
          | cons => exact .fault loc _
          | nil =>
              obtain ⟨hsame, hbare⟩ := hlast.returnsRow_eq
              cases hreturns : Expr.returnsRow row _ with
              | false =>
                  rw [hreturns] at hsame
                  rw [Expr.mutationCode_of_returnsRow hreturns,
                    Expr.mutationCode_of_returnsRow hsame, hlast.loc_eq]
                  exact .fault _ _
              | true =>
                  rw [hreturns] at hsame
                  simp only [hbare hreturns, or_false]
                  exact follows_firstCode hfirst hscope loc schema hreturns hsame

/-- An anonymous function follows with its body under the new name of its row. -/
theorem ExprFollows.lambda {body body' : List Statement} (loc : Location)
    (h : Aligned (ρ.RowFollows row row') c body body') :
    ρ.ExprFollows c (.lambda loc row body) (.lambda loc row' body') where
  loc_eq := rfl
  code _ _ _ := .fault loc _
  selection target outer := by
    rw [Expr.selection, Expr.selection]
    split
    · exact .fault outer _
    · exact follows_selectionOfBody h loc
  change scope store outer hscope := by
    rw [Expr.dotCode, Expr.dotCode]
    cases ρ.manifest.store? store with
    | none => exact .fault outer _
    | some schema => exact (follows_mutationCode h hscope loc schema).bind_same _

end Renaming

end StoredProc
