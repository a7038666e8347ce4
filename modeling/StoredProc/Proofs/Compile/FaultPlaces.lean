import StoredProc.Compile.Statement

/-! # Where faults are found

A fault of an expression or a statement is found at a node of its tree. The one
fault that has nothing to do with the tree is that a parameter has no schema;
only the head of a function can have it.
-/

namespace StoredProc

/-! ## The places of a tree -/

namespace Location

mutual

/-- The places of the nodes of an expression. -/
def inExpr : Expr → List Location
  | .reference loc _ dots => loc :: inDots dots
  | .string loc _ | .number loc _ => [loc]
  | .array loc elements => loc :: inExprs elements
  | .object loc fields => loc :: inFields fields
  | .lambda loc _ body => loc :: inStatements body

def inDot : Dot → List Location
  | .field loc _ => [loc]
  | .method loc _ args => loc :: inExprs args

def inStatement : Statement → List Location
  | .reference loc _ dots => loc :: inDots dots
  | .create loc _ _ value => loc :: inExpr value
  | .ret loc none => [loc]
  | .ret loc (some value) => loc :: inExpr value
  | .ifThen loc condition body => loc :: (inExpr condition ++ inStatements body)
  | .forIn loc _ iterable body => loc :: (inExpr iterable ++ inStatements body)

def inExprs : List Expr → List Location
  | [] => []
  | expr :: rest => inExpr expr ++ inExprs rest

def inFields : List (String × Expr) → List Location
  | [] => []
  | (_, value) :: rest => inExpr value ++ inFields rest

def inDots : List Dot → List Location
  | [] => []
  | dot :: rest => inDot dot ++ inDots rest

def inStatements : List Statement → List Location
  | [] => []
  | statement :: rest => inStatement statement ++ inStatements rest

end

/-- The place of a function and of the nodes of its body. -/
def inFunction (f : Function) : List Location := f.loc :: inStatements f.body

theorem loc_mem_inExpr (expr : Expr) : expr.loc ∈ inExpr expr := by
  cases expr <;> simp [inExpr, Expr.loc]

theorem loc_mem_inDot (dot : Dot) : dot.loc ∈ inDot dot := by
  cases dot <;> simp [inDot, Dot.loc]

theorem loc_mem_inDots {dot : Dot} {dots : List Dot} (h : dot ∈ dots) : dot.loc ∈ inDots dots := by
  induction dots with
  | nil => cases h
  | cons first rest ih =>
      rcases List.mem_cons.mp h with rfl | h
      · exact List.mem_append_left _ (loc_mem_inDot dot)
      · exact List.mem_append_right _ (ih h)

theorem loc_mem_inStatement (statement : Statement) :
    statement.loc ∈ inStatement statement := by
  cases statement with
  | ret loc value => cases value <;> simp [inStatement, Statement.loc]
  | _ => simp [inStatement, Statement.loc]

end Location

/-! ## Faults of a tree -/

/-- A fault lies in the tree whose places are these. -/
structure LocatedFault.LiesIn (places : List Location) (fault : LocatedFault) : Prop where
  mem : fault.loc ∈ places
  ne_noParameterSchema : ∀ function, fault.fault ≠ .noParameterSchema function

/-- A result is a fault of a tree, or none at all. -/
def FailsWithin {α : Type} (places : List Location) (result : Except LocatedFault α) : Prop :=
  ∀ ⦃fault⦄, result = .error fault → fault.LiesIn places

namespace FailsWithin

variable {α β : Type} {places : List Location}

theorem ok (a : α) : FailsWithin places (.ok a) := by
  intro fault h
  cases h

/-- A fault at one of the places is a fault of the tree, unless it is about the schema of a
parameter. -/
theorem faultAt {loc : Location} {fault : Fault} (hloc : loc ∈ places)
    (hfault : ∀ function, fault ≠ .noParameterSchema function) :
    FailsWithin places (faultAt loc fault : Except LocatedFault α) := by
  intro found h
  cases h
  exact ⟨hloc, hfault⟩

/-- What fails in one of two steps fails within the places of both. -/
theorem bind {result : Except LocatedFault α} {next : α → Except LocatedFault β}
    (hresult : FailsWithin places result) (hnext : ∀ a, FailsWithin places (next a)) :
    FailsWithin places (result >>= next) := by
  intro fault h
  cases result with
  | error found =>
      cases h
      exact hresult rfl
  | ok a => exact hnext a h

end FailsWithin

namespace Expr

open Location

variable {m : Manifest} {scope : Scope} {target : DataType} {places : List Location}

section Parts

variable {loc : Location}

theorem checked_failsWithin {code : Code} {type : DataType} (hloc : loc ∈ places) :
    FailsWithin places (checked loc target code type) := by
  unfold checked
  split
  · exact .ok _
  · exact .faultAt hloc (by simp)

theorem stringCode_failsWithin {value : String} (hloc : loc ∈ places) :
    FailsWithin places (stringCode target loc value) := by
  unfold stringCode
  split
  · exact .ok _
  · exact .ok _
  · exact .faultAt hloc (by simp)

theorem intCode_failsWithin {text : String} (hloc : loc ∈ places) :
    FailsWithin places (intCode loc text) := by
  unfold intCode
  split
  · exact .ok _
  · exact .faultAt hloc (by simp)

theorem doubleCode_failsWithin {text : String} (hloc : loc ∈ places) :
    FailsWithin places (doubleCode loc text) := by
  unfold doubleCode
  split
  · split
    · exact .ok _
    · exact .faultAt hloc (by simp)
  · exact .faultAt hloc (by simp)

/-- A number fails where it stands, whatever it is taken for. -/
theorem numberCode_failsWithin {text : String} (hloc : loc ∈ places) :
    FailsWithin places (numberCode target loc text) := by
  unfold numberCode
  split
  · exact intCode_failsWithin hloc
  · exact doubleCode_failsWithin hloc
  · split
    · exact intCode_failsWithin hloc
    · exact doubleCode_failsWithin hloc
  · exact .faultAt hloc (by simp)

theorem elementType_failsWithin (hloc : loc ∈ places) :
    FailsWithin places (elementType target loc) := by
  unfold elementType
  split
  · exact .ok _
  · exact .ok _
  · exact .faultAt hloc (by simp)

theorem objectFields_failsWithin (hloc : loc ∈ places) :
    FailsWithin places (objectFields target loc) := by
  unfold objectFields
  split
  · exact .ok _
  · exact .ok _
  · exact .faultAt hloc (by simp)

/-- A name that is repeated or not expected fails at its object. -/
theorem checkNames_failsWithin {expected : Option Fields} {seen names : List String}
    (hloc : loc ∈ places) : FailsWithin places (checkNames expected loc seen names) := by
  induction names generalizing seen with
  | nil => exact .ok _
  | cons name rest ih =>
      unfold checkNames
      split
      · exact .faultAt hloc (by simp)
      · split
        · exact ih
        · exact .faultAt hloc (by simp)

theorem checkMissing_failsWithin {expected : Option Fields} {names : List String}
    (hloc : loc ∈ places) : FailsWithin places (checkMissing expected loc names) := by
  unfold checkMissing
  split
  · exact .faultAt hloc (by simp)
  · exact .ok _

theorem allCode_failsWithin {store : String} {schema : Fields} (hloc : loc ∈ places) :
    FailsWithin places (allCode target loc store schema) := by
  unfold allCode
  split
  · exact .faultAt hloc (by simp)
  · split
    · exact .ok _
    · exact .faultAt hloc (by simp)

theorem fieldCode_failsWithin {current : DataType} {name : String} (hloc : loc ∈ places) :
    FailsWithin places (fieldCode current loc name) := by
  unfold fieldCode
  split
  · split
    · exact .ok _
    · exact .faultAt hloc (by simp)
  · exact .faultAt hloc (by simp)

/-- A selection fails at the links that it does not know. -/
theorem selectionOfDots_failsWithin {dots : List Dot} (hdots : inDots dots ⊆ places) :
    FailsWithin places (selectionOfDots dots) := by
  unfold selectionOfDots
  split
  · exact .ok _
  · exact .faultAt (hdots (by simp [inDots, inDot])) (by simp)
  · have hmethod := hdots (List.mem_append_left _ (List.mem_cons_self ..))
    split
    · exact .faultAt hmethod (by simp)
    · split
      · exact .ok _
      · exact .faultAt hmethod (by simp)

/-- The body of a selection fails in its statements, or as a whole. -/
theorem selectionOfBody_failsWithin {row : String} {body : List Statement}
    (hloc : loc ∈ places) (hbody : inStatements body ⊆ places) :
    FailsWithin places (selectionOfBody loc row body) := by
  unfold selectionOfBody
  split
  · split
    · exact selectionOfDots_failsWithin fun _ h =>
        hbody (by simp [inStatements, inStatement, inExpr, h])
    · exact .faultAt (hbody (by simp [inStatements, inStatement, inExpr])) (by simp)
  · next value _ =>
    have hvalue := loc_mem_inExpr value
    exact .faultAt (hbody (by simp [inStatements, inStatement, hvalue])) (by simp)
  · next statement _ _ =>
    have hstatement := loc_mem_inStatement statement
    exact .faultAt (hbody (by simp [inStatements, hstatement])) (by simp)
  · exact .faultAt hloc (by simp)

/-- A selection fails in its arguments, or where it stands. -/
theorem selection_failsWithin {args : List Expr} (hloc : loc ∈ places)
    (hargs : inExprs args ⊆ places) : FailsWithin places (selection target loc args) := by
  unfold selection
  split
  · next arg =>
    split
    · exact .faultAt hloc (by simp)
    · split
      · exact selectionOfBody_failsWithin (hargs (by simp [inExprs, inExpr]))
          fun _ h => hargs (by simp [inExprs, inExpr, h])
      · have harg := loc_mem_inExpr arg
        exact .faultAt (hargs (by simp [inExprs, harg])) (by simp)
  · exact .faultAt hloc (by simp)

theorem selectCode_failsWithin {store : String} {schema : Fields} {args : List Expr}
    (hloc : loc ∈ places) (hargs : inExprs args ⊆ places) :
    FailsWithin places (selectCode target loc store schema args) := by
  unfold selectCode
  refine .bind (selection_failsWithin hloc hargs) fun choice => ?_
  cases choice with
  | rows => exact checked_failsWithin hloc
  | pointers => exact checked_failsWithin hloc

/-- A change that does not end with a call fails at its last link or as a whole. -/
theorem checkAppend_failsWithin {dots : List Dot} (hloc : loc ∈ places)
    (hdots : inDots dots ⊆ places) : FailsWithin places (checkAppend loc dots) := by
  have hlast : ∀ dot, dots.getLast? = some dot → dot.loc ∈ places :=
    fun _ h => hdots (loc_mem_inDots (List.mem_of_getLast? h))
  unfold checkAppend
  split
  · next h =>
    split
    · exact .ok _
    · exact .faultAt (hlast _ h) (by simp)
  · next h => exact .faultAt (hlast _ h) (by simp)
  · exact .faultAt hloc (by simp)

end Parts

mutual

/-- Every fault of an expression is found at one of its nodes. -/
theorem code_failsWithin : ∀ {target : DataType} {expr : Expr}, inExpr expr ⊆ places →
    FailsWithin places (expr.code m scope target)
  | target, .reference loc name dots, hplaces => by
      have hloc : loc ∈ places := hplaces (by simp [inExpr])
      have hdots : inDots dots ⊆ places := fun _ h => hplaces (by simp [inExpr, h])
      unfold Expr.code
      split
      · split
        · exact .faultAt hloc (by simp)
        · exact .bind (chainCode_failsWithin hdots) fun ⟨_, _⟩ => checked_failsWithin hloc
      · split
        · exact storeCode_failsWithin hloc hdots
        · exact .faultAt hloc (by simp)
  | target, .string loc value, hplaces => by
      unfold Expr.code
      exact stringCode_failsWithin (hplaces (by simp [inExpr]))
  | target, .number loc text, hplaces => by
      unfold Expr.code
      exact numberCode_failsWithin (hplaces (by simp [inExpr]))
  | target, .array loc elements, hplaces => by
      unfold Expr.code
      refine .bind (elementType_failsWithin (hplaces (by simp [inExpr]))) fun elem => ?_
      refine .bind (elementsCode_failsWithin fun _ h => hplaces (by simp [inExpr, h])) fun _ => ?_
      exact .ok _
  | target, .object loc fields, hplaces => by
      have hloc : loc ∈ places := hplaces (by simp [inExpr])
      unfold Expr.code
      refine .bind (objectFields_failsWithin hloc) fun expected => ?_
      refine .bind (checkNames_failsWithin hloc) fun _ => ?_
      refine .bind (checkMissing_failsWithin hloc) fun _ => ?_
      refine .bind (fieldsCode_failsWithin fun _ h => hplaces (by simp [inExpr, h]))
        fun ⟨_, _⟩ => ?_
      exact .ok _
  | target, .lambda loc row body, hplaces => by
      unfold Expr.code
      exact .faultAt (hplaces (by simp [inExpr])) (by simp)
termination_by _ expr => sizeOf expr

theorem elementsCode_failsWithin {elem : DataType} : ∀ {exprs : List Expr},
    inExprs exprs ⊆ places → FailsWithin places (elementsCode m scope elem exprs)
  | [], _ => by
      unfold elementsCode
      exact .ok _
  | expr :: rest, hplaces => by
      unfold elementsCode
      refine .bind (code_failsWithin fun _ h => hplaces (List.mem_append_left _ h)) fun ⟨_, _⟩ => ?_
      refine .bind (elementsCode_failsWithin fun _ h => hplaces (List.mem_append_right _ h))
        fun _ => ?_
      exact .ok _
termination_by exprs => sizeOf exprs

theorem fieldsCode_failsWithin {expected : Option Fields} : ∀ {entries : List (String × Expr)},
    inFields entries ⊆ places → FailsWithin places (fieldsCode m scope expected entries)
  | [], _ => by
      unfold fieldsCode
      exact .ok _
  | (name, expr) :: rest, hplaces => by
      unfold fieldsCode
      refine .bind (code_failsWithin fun _ h => hplaces (List.mem_append_left _ h)) fun ⟨_, _⟩ => ?_
      refine .bind (fieldsCode_failsWithin fun _ h => hplaces (List.mem_append_right _ h))
        fun ⟨_, _⟩ => ?_
      exact .ok _
termination_by entries => sizeOf entries

theorem insertsCode_failsWithin {store : String} {schema : Fields} : ∀ {exprs : List Expr},
    inExprs exprs ⊆ places → FailsWithin places (insertsCode m scope store schema exprs)
  | [], _ => by
      unfold insertsCode
      exact .ok _
  | expr :: rest, hplaces => by
      unfold insertsCode
      refine .bind (code_failsWithin fun _ h => hplaces (List.mem_append_left _ h)) fun ⟨_, _⟩ => ?_
      refine .bind (insertsCode_failsWithin fun _ h => hplaces (List.mem_append_right _ h))
        fun _ => ?_
      exact .ok _
termination_by exprs => sizeOf exprs

/-- A chain on a store fails at its name, at its links or in its arguments. -/
theorem storeCode_failsWithin {target : DataType} {loc : Location} {store : String}
    {schema : Fields} (hloc : loc ∈ places) : ∀ {dots : List Dot}, inDots dots ⊆ places →
      FailsWithin places (storeCode m scope target loc store schema dots)
  | [], _ => by
      unfold storeCode
      exact allCode_failsWithin hloc
  | [.field _ _], hplaces => by
      unfold storeCode
      exact .faultAt (hplaces (by simp [inDots, inDot])) (by simp)
  | [.method methodLoc method args], hplaces => by
      have hmethod : methodLoc ∈ places := hplaces (by simp [inDots, inDot])
      have hargs : inExprs args ⊆ places := fun _ h => hplaces (by simp [inDots, inDot, h])
      unfold storeCode
      split
      · split
        · exact .bind (insertsCode_failsWithin hargs) fun _ => .ok _
        · exact .faultAt hmethod (by simp)
      · split
        · split
          · exact checked_failsWithin hmethod
          · exact .faultAt hmethod (by simp)
        · split
          · exact selectCode_failsWithin hmethod hargs
          · exact .faultAt hmethod (by simp)
  | _ :: second :: _, hplaces => by
      rw [storeCode]
      exact .faultAt (hplaces (loc_mem_inDots (by simp))) (by simp)
termination_by dots => sizeOf dots

theorem chainCode_failsWithin : ∀ {current : DataType} {dots : List Dot},
    inDots dots ⊆ places → FailsWithin places (chainCode m scope current dots)
  | current, [], _ => by
      unfold chainCode
      exact .ok _
  | current, dot :: rest, hplaces => by
      unfold chainCode
      refine .bind (dotCode_failsWithin fun _ h => hplaces (List.mem_append_left _ h))
        fun ⟨_, _⟩ => ?_
      refine .bind (chainCode_failsWithin fun _ h => hplaces (List.mem_append_right _ h))
        fun ⟨_, _⟩ => ?_
      exact .ok _
termination_by _ dots => sizeOf dots

/-- A link fails where it stands or in its arguments. -/
theorem dotCode_failsWithin {current : DataType} : ∀ {dot : Dot}, inDot dot ⊆ places →
    FailsWithin places (dotCode m scope current dot)
  | .field loc name, hplaces => by
      unfold dotCode
      exact fieldCode_failsWithin (hplaces (by simp [inDot]))
  | .method loc name args, hplaces => by
      have hloc : loc ∈ places := hplaces (by simp [inDot])
      unfold dotCode
      split
      · split
        · exact .faultAt hloc (by simp)
        · split
          · split
            · exact .ok _
            · exact .faultAt hloc (by simp)
          · split
            · split
              · exact .ok _
              · next lambdaLoc row body =>
                refine .bind (mutationCode_failsWithin (hplaces (by simp [inDot, inExprs, inExpr]))
                  fun _ h => hplaces (by simp [inDot, inExprs, inExpr, h])) fun ⟨_, _⟩ => ?_
                exact .ok _
              · next other _ =>
                have hother := loc_mem_inExpr other
                exact .faultAt (hplaces (by simp [inDot, inExprs, hother])) (by simp)
              · exact .faultAt hloc (by simp)
            · exact .faultAt hloc (by simp)
      · split
        · split
          · exact .ok _
          · exact .faultAt hloc (by simp)
        · exact .faultAt hloc (by simp)
      · exact .faultAt hloc (by simp)
termination_by dot => sizeOf dot

/-- A mutation fails in its statements or where it stands. -/
theorem mutationCode_failsWithin {loc : Location} {row : String} {schema : Fields}
    (hloc : loc ∈ places) : ∀ {body : List Statement}, inStatements body ⊆ places →
      FailsWithin places (mutationCode m scope loc row schema body)
  | [.reference changeLoc name dots, last], hplaces => by
      have hchange : changeLoc ∈ places := hplaces (by simp [inStatements, inStatement])
      have hdots : inDots dots ⊆ places :=
        fun _ h => hplaces (by simp [inStatements, inStatement, h])
      have hlast := loc_mem_inStatement last
      unfold mutationCode
      split
      · simp only
        split
        · refine .bind (checkAppend_failsWithin hchange hdots) fun _ => ?_
          exact appendCode_failsWithin hchange hdots
        · exact .faultAt hchange (by simp)
      · exact .faultAt (hplaces (by simp [inStatements, hlast])) (by simp)
  | [.create .., last], hplaces | [.ret .., last], hplaces | [.ifThen .., last], hplaces
  | [.forIn .., last], hplaces => by
      have hlast := loc_mem_inStatement last
      unfold mutationCode
      split
      · exact .faultAt (hplaces (List.mem_append_left _ (loc_mem_inStatement _))) (by simp)
      · exact .faultAt (hplaces (by simp [inStatements, hlast])) (by simp)
  | [], _ | [_], _ | _ :: _ :: _ :: _, _ => by
      unfold mutationCode
      exact .faultAt hloc (by simp)
termination_by body => sizeOf body

/-- A change fails at its links, in the value that it appends, or as a whole. -/
theorem appendCode_failsWithin : ∀ {current : DataType} {loc : Location} {dots : List Dot},
    loc ∈ places → inDots dots ⊆ places →
      FailsWithin places (appendCode m scope current loc dots)
  | current, loc, [], hloc, _ => by
      unfold appendCode
      exact .faultAt hloc (by simp)
  | current, loc, [.method methodLoc _ [value]], _, hplaces => by
      unfold appendCode
      split
      · refine .bind (code_failsWithin fun _ h => hplaces (by simp [inDots, inDot, inExprs, h]))
          fun ⟨_, _⟩ => ?_
        exact .ok _
      · exact .faultAt (hplaces (by simp [inDots, inDot])) (by simp)
  | current, loc, .field fieldLoc name :: rest, _, hplaces => by
      have hfield : fieldLoc ∈ places := hplaces (by simp [inDots, inDot])
      unfold appendCode
      refine .bind (fieldCode_failsWithin hfield) fun ⟨_, _⟩ => ?_
      refine .bind (appendCode_failsWithin hfield
        fun _ h => hplaces (List.mem_append_right _ h)) fun ⟨_, _⟩ => ?_
      exact .ok _
  | current, loc, [.method _ _ []], _, hplaces
  | current, loc, [.method _ _ (_ :: _ :: _)], _, hplaces
  | current, loc, .method _ _ _ :: _ :: _, _, hplaces => by
      rw [appendCode]
      · exact .faultAt (hplaces (by simp [inDots, inDot])) (by simp)
      · simp
termination_by _ _ dots => sizeOf dots

end

end Expr

namespace Statement

open Location

variable {m : Manifest} {scope : Scope} {target : DataType} {places : List Location}

theorem effectCode_failsWithin {loc : Location} {name : String} {dots : List Dot}
    (hplaces : inStatement (.reference loc name dots) ⊆ places) :
    FailsWithin places (effectCode m scope loc name dots) := by
  unfold effectCode
  refine .bind (Expr.code_failsWithin fun _ h => hplaces ?_) fun ⟨_, _⟩ => .ok _
  simpa [inStatement, inExpr] using h

/-- A declaration fails in its value, or where it stands if the name is taken. -/
theorem createCode_failsWithin {loc : Location} {name : String} {type : DataType} {value : Expr}
    (hplaces : inStatement (.create loc name type value) ⊆ places) :
    FailsWithin places (createCode m scope loc name type value) := by
  unfold createCode
  refine .bind (Expr.code_failsWithin fun _ h => hplaces ?_) fun ⟨_, _⟩ => ?_
  · simp [inStatement, h]
  · simp only
    split
    · exact .ok _
    · exact .faultAt (hplaces (by simp [inStatement])) (by simp)

/-- A return fails in its value, or where it stands if a value is missing or not wanted. -/
theorem returnCode_failsWithin {loc : Location} {value : Option Expr}
    (hplaces : inStatement (.ret loc value) ⊆ places) :
    FailsWithin places (returnCode m target scope loc value) := by
  have hloc : loc ∈ places := hplaces (loc_mem_inStatement (.ret loc value))
  cases value with
  | none =>
      simp only [returnCode]
      split
      · exact .ok _
      · exact .faultAt hloc (by simp)
  | some value =>
      simp only [returnCode]
      split
      · exact .faultAt hloc (by simp)
      · refine .bind (Expr.code_failsWithin fun _ h => hplaces ?_) fun ⟨_, _⟩ => .ok _
        simp [inStatement, h]

theorem unstarted_ok {α : Type} {kind : NodeKind} {a : α} : unstarted kind (.ok a) = .ok a := rfl

/-- A statement that fails before it has progressed fails with the fault of its code. -/
theorem unstarted_eq_error {α : Type} {kind : NodeKind} {result : Except LocatedFault α}
    {fault : LocatedFault} {progress : Progress}
    (h : unstarted kind result = .error (fault, progress)) : result = .error fault := by
  cases result with
  | error found =>
      cases h
      rfl
  | ok a => cases h

mutual

/-- Every fault of a statement is found at one of its nodes. -/
theorem compile_fault {fault : LocatedFault} {progress : Progress} :
    ∀ {scope : Scope} {statement : Statement}, inStatement statement ⊆ places →
      statement.compile m target scope = .error (fault, progress) → fault.LiesIn places
  | scope, .reference loc name dots, hplaces, h => by
      unfold compile at h
      exact FailsWithin.bind (effectCode_failsWithin hplaces) (fun _ => .ok _)
        (unstarted_eq_error h)
  | scope, .create loc name type value, hplaces, h => by
      unfold compile at h
      refine FailsWithin.bind (createCode_failsWithin hplaces) ?_ (unstarted_eq_error h)
      exact fun ⟨_, _⟩ => .ok _
  | scope, .ret loc value, hplaces, h => by
      unfold compile at h
      exact FailsWithin.bind (returnCode_failsWithin hplaces) (fun _ => .ok _)
        (unstarted_eq_error h)
  | scope, .ifThen loc condition body, hplaces, h => by
      unfold compile at h
      cases htest : condition.code m scope .bool with
      | error found =>
          rw [htest] at h
          cases h
          exact Expr.code_failsWithin (fun _ h => hplaces (by simp [inStatement, h])) htest
      | ok test =>
          rw [htest, unstarted_ok] at h
          simp only [bind, Except.bind] at h
          split at h
          next failure hbody =>
            cases h
            exact compileAll_fault (fun _ h => hplaces (by simp [inStatement, h])) hbody
          next => cases h
  | scope, .forIn loc row iterable body, hplaces, h => by
      unfold compile at h
      cases h
      exact ⟨hplaces (by simp [inStatement]), by simp⟩
termination_by _ statement => sizeOf statement

theorem compileAll_fault {failure : BlockFailure} :
    ∀ {scope : Scope} {returned : Option Location} {statements : List Statement},
      inStatements statements ⊆ places →
      compileAll m target scope returned statements = .error failure →
        failure.fault.LiesIn places
  | scope, returned, [], _, h => by
      unfold compileAll at h
      cases h
  | scope, some loc, statement :: rest, hplaces, h => by
      unfold compileAll at h
      cases h
      exact ⟨hplaces (List.mem_append_left _ (loc_mem_inStatement statement)), by simp⟩
  | scope, none, statement :: rest, hplaces, h => by
      unfold compileAll at h
      simp only at h
      split at h
      next fault progress hfirst =>
        cases h
        exact compile_fault (fun _ h => hplaces (List.mem_append_left _ h)) hfirst
      next =>
        split at h
        next hrest =>
          have hlies := compileAll_fault (fun _ h => hplaces (List.mem_append_right _ h)) hrest
          cases h
          exact hlies
        next => cases h
termination_by _ _ statements => sizeOf statements

end

end Statement

end StoredProc
