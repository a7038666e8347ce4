import StoredProc.Tree.Basic

/-! # Names in trees

References use names, and parameters, declarations, loops and anonymous functions
introduce them. A name is replaced in all references below a node, but not where a loop
or an anonymous function introduces it again.

A context is a tree with a place for an expression. With it one expression of a tree is
replaced while the rest of the tree stays.
-/

namespace StoredProc

theorem append_subset_append {first second first' second' : List String} (h : first ⊆ first')
    (h' : second ⊆ second') : first ++ second ⊆ first' ++ second' := by
  apply List.append_subset.mpr
  constructor
  · exact List.subset_append_of_subset_left _ h
  · exact List.subset_append_of_subset_right _ h'

/-! ## Names -/

mutual

/-- The names that are used or introduced in an expression, in their order. -/
@[simp]
def Expr.names : Expr → List String
  | .reference _ name dots => name :: Dot.namesAll dots
  | .string .. | .number .. => []
  | .array _ elements => Expr.namesAll elements
  | .object _ fields => Expr.namesFields fields
  | .lambda _ row body => row :: Statement.namesAll body

@[simp]
def Dot.names : Dot → List String
  | .field .. => []
  | .method _ _ args => Expr.namesAll args

@[simp]
def Statement.names : Statement → List String
  | .reference _ name dots => name :: Dot.namesAll dots
  | .create _ name _ value => name :: value.names
  | .ret _ none => []
  | .ret _ (some value) => value.names
  | .ifThen _ condition body => condition.names ++ Statement.namesAll body
  | .forIn _ row iterable body => row :: (iterable.names ++ Statement.namesAll body)

@[simp]
def Expr.namesAll : List Expr → List String
  | [] => []
  | expr :: rest => expr.names ++ Expr.namesAll rest

@[simp]
def Expr.namesFields : List (String × Expr) → List String
  | [] => []
  | (_, value) :: rest => value.names ++ Expr.namesFields rest

@[simp]
def Dot.namesAll : List Dot → List String
  | [] => []
  | dot :: rest => dot.names ++ Dot.namesAll rest

@[simp]
def Statement.namesAll : List Statement → List String
  | [] => []
  | statement :: rest => statement.names ++ Statement.namesAll rest

end

theorem Expr.namesAll_append (first second : List Expr) :
    Expr.namesAll (first ++ second) = Expr.namesAll first ++ Expr.namesAll second := by
  induction first with
  | nil => rfl
  | cons expr rest ih => simp [ih]

theorem Expr.namesFields_append (first second : List (String × Expr)) :
    Expr.namesFields (first ++ second) = Expr.namesFields first ++ Expr.namesFields second := by
  induction first with
  | nil => rfl
  | cons entry rest ih => simp [ih]

theorem Dot.namesAll_append (first second : List Dot) :
    Dot.namesAll (first ++ second) = Dot.namesAll first ++ Dot.namesAll second := by
  induction first with
  | nil => rfl
  | cons dot rest ih => simp [ih]

theorem Statement.namesAll_append (first second : List Statement) :
    Statement.namesAll (first ++ second) =
      Statement.namesAll first ++ Statement.namesAll second := by
  induction first with
  | nil => rfl
  | cons statement rest ih => simp [ih]

mutual

/-- The names of the variables that a statement declares, with those of its branches. -/
@[simp]
def Statement.variableNames : Statement → List String
  | .create _ name _ _ => [name]
  | .ifThen _ _ body => Statement.variableNamesAll body
  | _ => []

@[simp]
def Statement.variableNamesAll : List Statement → List String
  | [] => []
  | statement :: rest => statement.variableNames ++ Statement.variableNamesAll rest

end

theorem Statement.variableNamesAll_append (first second : List Statement) :
    Statement.variableNamesAll (first ++ second) =
      Statement.variableNamesAll first ++ Statement.variableNamesAll second := by
  induction first with
  | nil => rfl
  | cons statement rest ih => simp [ih]

mutual

theorem Statement.variableNames_subset (statement : Statement) :
    statement.variableNames ⊆ statement.names := by
  cases statement with
  | create loc name type value =>
      exact List.cons_subset_cons name (List.nil_subset _)
  | ifThen loc condition body =>
      exact List.subset_append_of_subset_right _ (Statement.variableNamesAll_subset body)
  | reference | ret | forIn => exact List.nil_subset _
termination_by sizeOf statement

theorem Statement.variableNamesAll_subset (statements : List Statement) :
    Statement.variableNamesAll statements ⊆ Statement.namesAll statements := by
  cases statements with
  | nil => exact List.nil_subset _
  | cons statement rest =>
      exact append_subset_append (Statement.variableNames_subset statement)
        (Statement.variableNamesAll_subset rest)
termination_by sizeOf statements

end

namespace Function

/-- The names that are used or introduced in a function. -/
def names (f : Function) : List String :=
  f.parameter.toList.map Parameter.name ++ Statement.namesAll f.body

/-- The names of the variables of a function: its parameter and its declarations. -/
def variableNames (f : Function) : List String :=
  f.parameter.toList.map Parameter.name ++ Statement.variableNamesAll f.body

theorem variableNames_subset (f : Function) : f.variableNames ⊆ f.names :=
  append_subset_append (List.Subset.refl _) (Statement.variableNamesAll_subset f.body)

end Function

/-! ## Renaming -/

mutual

/-- Replace a name in the references of an expression. -/
@[simp]
def Expr.rename (old new : String) : Expr → Expr
  | .reference loc name dots =>
    .reference loc (if name = old then new else name) (Dot.renameAll old new dots)
  | .string loc value => .string loc value
  | .number loc text => .number loc text
  | .array loc elements => .array loc (Expr.renameAll old new elements)
  | .object loc fields => .object loc (Expr.renameFields old new fields)
  | .lambda loc row body =>
    .lambda loc row (if row = old then body else Statement.renameAll old new body)

@[simp]
def Dot.rename (old new : String) : Dot → Dot
  | .field loc name => .field loc name
  | .method loc name args => .method loc name (Expr.renameAll old new args)

@[simp]
def Statement.rename (old new : String) : Statement → Statement
  | .reference loc name dots =>
    .reference loc (if name = old then new else name) (Dot.renameAll old new dots)
  | .create loc name type value => .create loc name type (value.rename old new)
  | .ret loc none => .ret loc none
  | .ret loc (some value) => .ret loc (some (value.rename old new))
  | .ifThen loc condition body =>
    .ifThen loc (condition.rename old new) (Statement.renameAll old new body)
  | .forIn loc row iterable body =>
    .forIn loc row (iterable.rename old new)
      (if row = old then body else Statement.renameAll old new body)

@[simp]
def Expr.renameAll (old new : String) : List Expr → List Expr
  | [] => []
  | expr :: rest => expr.rename old new :: Expr.renameAll old new rest

@[simp]
def Expr.renameFields (old new : String) : List (String × Expr) → List (String × Expr)
  | [] => []
  | (name, value) :: rest => (name, value.rename old new) :: Expr.renameFields old new rest

@[simp]
def Dot.renameAll (old new : String) : List Dot → List Dot
  | [] => []
  | dot :: rest => dot.rename old new :: Dot.renameAll old new rest

@[simp]
def Statement.renameAll (old new : String) : List Statement → List Statement
  | [] => []
  | statement :: rest => statement.rename old new :: Statement.renameAll old new rest

end

/-! ## Contexts -/

mutual

/-- An expression with a place for an expression. -/
inductive Expr.Context where
  | here
  | reference (loc : Location) (name : String) (dots : Dot.Context)
  | array (loc : Location) (before : List Expr) (element : Expr.Context) (after : List Expr)
  | object (loc : Location) (before : List (String × Expr)) (name : String)
      (value : Expr.Context) (after : List (String × Expr))
  | lambda (loc : Location) (row : String) (before : List Statement)
      (statement : Statement.Context) (after : List Statement)

/-- A chain with a place for an expression, among the arguments of a method. -/
inductive Dot.Context where
  | method (before : List Dot) (loc : Location) (name : String) (first : List Expr)
      (arg : Expr.Context) (last : List Expr) (after : List Dot)

/-- A statement with a place for an expression. -/
inductive Statement.Context where
  | reference (loc : Location) (name : String) (dots : Dot.Context)
  | create (loc : Location) (name : String) (type : DataType) (value : Expr.Context)
  | ret (loc : Location) (value : Expr.Context)
  | condition (loc : Location) (condition : Expr.Context) (body : List Statement)
  | ifBody (loc : Location) (condition : Expr) (before : List Statement)
      (statement : Statement.Context) (after : List Statement)
  | iterable (loc : Location) (row : String) (iterable : Expr.Context) (body : List Statement)
  | forBody (loc : Location) (row : String) (iterable : Expr) (before : List Statement)
      (statement : Statement.Context) (after : List Statement)

end

mutual

/-- Put an expression in its place. -/
@[simp]
def Expr.Context.fill (expr : Expr) : Expr.Context → Expr
  | .here => expr
  | .reference loc name dots => .reference loc name (dots.fill expr)
  | .array loc before element after => .array loc (before ++ element.fill expr :: after)
  | .object loc before name value after =>
    .object loc (before ++ (name, value.fill expr) :: after)
  | .lambda loc row before statement after =>
    .lambda loc row (before ++ statement.fill expr :: after)

@[simp]
def Dot.Context.fill (expr : Expr) : Dot.Context → List Dot
  | .method before loc name first arg last after =>
    before ++ .method loc name (first ++ arg.fill expr :: last) :: after

@[simp]
def Statement.Context.fill (expr : Expr) : Statement.Context → Statement
  | .reference loc name dots => .reference loc name (dots.fill expr)
  | .create loc name type value => .create loc name type (value.fill expr)
  | .ret loc value => .ret loc (some (value.fill expr))
  | .condition loc condition body => .ifThen loc (condition.fill expr) body
  | .ifBody loc condition before statement after =>
    .ifThen loc condition (before ++ statement.fill expr :: after)
  | .iterable loc row iterable body => .forIn loc row (iterable.fill expr) body
  | .forBody loc row iterable before statement after =>
    .forIn loc row iterable (before ++ statement.fill expr :: after)

end

mutual

/-- The names of an expression are names of the tree it stands in. -/
theorem Expr.Context.names_subset (context : Expr.Context) (expr : Expr) :
    expr.names ⊆ (context.fill expr).names := by
  intro name hname
  cases context with
  | here => exact hname
  | reference _ _ dots => simp [Dot.Context.names_subset dots expr hname]
  | array _ _ element _ =>
      simp [Expr.namesAll_append, Expr.Context.names_subset element expr hname]
  | object _ _ _ value _ =>
      simp [Expr.namesFields_append, Expr.Context.names_subset value expr hname]
  | lambda _ _ _ statement _ =>
      simp [Statement.namesAll_append, Statement.Context.names_subset statement expr hname]
termination_by sizeOf context

theorem Dot.Context.names_subset (context : Dot.Context) (expr : Expr) :
    expr.names ⊆ Dot.namesAll (context.fill expr) := by
  intro name hname
  cases context with
  | method _ _ _ _ arg _ _ =>
      simp [Dot.namesAll_append, Expr.namesAll_append,
        Expr.Context.names_subset arg expr hname]
termination_by sizeOf context

/-- The names of an expression are names of every statement around it. -/
theorem Statement.Context.names_subset (context : Statement.Context) (expr : Expr) :
    expr.names ⊆ (context.fill expr).names := by
  intro name hname
  cases context with
  | reference _ _ dots => simp [Dot.Context.names_subset dots expr hname]
  | create _ _ _ value => simp [Expr.Context.names_subset value expr hname]
  | ret _ value => simp [Expr.Context.names_subset value expr hname]
  | condition _ condition _ => simp [Expr.Context.names_subset condition expr hname]
  | iterable _ _ iterable _ => simp [Expr.Context.names_subset iterable expr hname]
  | ifBody _ _ _ statement _ | forBody _ _ _ _ statement _ =>
      simp [Statement.namesAll_append, Statement.Context.names_subset statement expr hname]
termination_by sizeOf context

end

/-- The body of a function with a place for an expression. -/
structure Function.Place where
  before : List Statement := []
  statement : Statement.Context
  after : List Statement := []

def Function.Place.fill (place : Function.Place) (expr : Expr) : List Statement :=
  place.before ++ place.statement.fill expr :: place.after

theorem Function.Place.names_subset (place : Function.Place) (expr : Expr) :
    expr.names ⊆ Statement.namesAll (place.fill expr) := by
  intro name hname
  simp [fill, Statement.namesAll_append, place.statement.names_subset expr hname]

end StoredProc
