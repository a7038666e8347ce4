import StoredProc.Tree.Basic

/-!
# Walking a tree

A walk visits a node, then its children from left to right, then the node
again. A visitor is told the node, its parent and its ancestors; it may leave
out the children of a node, stop the walk, or fail. The walk runs on the
outline of a tree, which has a label for every node: the node itself, or what
kind of node it is.
-/

namespace StoredProc

inductive NodeKind where
  | function
  | variableCreation
  | returnStatement
  | ifStatement
  | forIn
  | variableReference
  | stringLiteral
  | numberLiteral
  | arrayLiteral
  | objectLiteral
  | anonFunction
  | fieldAccess
  | methodInvocation
  deriving DecidableEq, Inhabited, Repr

def NodeKind.name : NodeKind → String
  | function => "Function"
  | variableCreation => "VariableCreation"
  | returnStatement => "ReturnStatement"
  | ifStatement => "If"
  | forIn => "ForIn"
  | variableReference => "VariableReference"
  | stringLiteral => "StringLiteral"
  | numberLiteral => "NumberLiteral"
  | arrayLiteral => "ArrayLiteral"
  | objectLiteral => "ObjectLiteral"
  | anonFunction => "AnonFunction"
  | fieldAccess => "FieldAccess"
  | methodInvocation => "MethodInvocation"

/-- A node of a syntax tree. -/
inductive Node where
  | function (function : Function)
  | statement (statement : Statement)
  | expr (expr : Expr)
  | dot (dot : Dot)
  deriving Inhabited

/-- The kind of a statement. -/
def Statement.kind : Statement → NodeKind
  | .reference .. => .variableReference
  | .create .. => .variableCreation
  | .ret .. => .returnStatement
  | .ifThen .. => .ifStatement
  | .forIn .. => .forIn

/-- The kind of a node. -/
def Node.kind : Node → NodeKind
  | function _ => .function
  | statement s => s.kind
  | expr (.reference ..) => .variableReference
  | expr (.string ..) => .stringLiteral
  | expr (.number ..) => .numberLiteral
  | expr (.array ..) => .arrayLiteral
  | expr (.object ..) => .objectLiteral
  | expr (.lambda ..) => .anonFunction
  | dot (.field ..) => .fieldAccess
  | dot (.method ..) => .methodInvocation

/-- A tree of labels, children in source order. A label stands for a node. -/
inductive Outline (α : Type := NodeKind) where
  | node (label : α) (children : List (Outline α))
  deriving Inhabited, Repr

/-! ## The outline of a tree -/

mutual

def Expr.outline (e : Expr) : Outline Node :=
  .node (.expr e) <|
    match e with
    | .reference _ _ dots => Dot.outlines dots
    | .string .. | .number .. => []
    | .array _ elements => Expr.outlines elements
    | .object _ fields => Expr.fieldOutlines fields
    | .lambda _ _ body => Statement.outlines body

def Dot.outline (d : Dot) : Outline Node :=
  .node (.dot d) <|
    match d with
    | .field .. => []
    | .method _ _ args => Expr.outlines args

def Statement.outline (s : Statement) : Outline Node :=
  .node (.statement s) <|
    match s with
    | .reference _ _ dots => Dot.outlines dots
    | .create _ _ _ value => [value.outline]
    | .ret _ none => []
    | .ret _ (some value) => [value.outline]
    | .ifThen _ condition body => condition.outline :: Statement.outlines body
    | .forIn _ _ iterable body => iterable.outline :: Statement.outlines body

def Expr.outlines : List Expr → List (Outline Node)
  | [] => []
  | expr :: rest => expr.outline :: Expr.outlines rest

def Expr.fieldOutlines : List (String × Expr) → List (Outline Node)
  | [] => []
  | (_, value) :: rest => value.outline :: Expr.fieldOutlines rest

def Dot.outlines : List Dot → List (Outline Node)
  | [] => []
  | dot :: rest => dot.outline :: Dot.outlines rest

def Statement.outlines : List Statement → List (Outline Node)
  | [] => []
  | statement :: rest => statement.outline :: Statement.outlines rest

end

/-- The tree below a node. -/
def Node.outline : Node → Outline Node
  | function f => .node (function f) (Statement.outlines f.body)
  | statement s => s.outline
  | expr e => e.outline
  | dot d => d.outline

namespace Outline

variable {α β : Type}

mutual

/-- Change the labels of a tree. -/
def map (f : α → β) : Outline α → Outline β
  | .node label children => .node (f label) (mapAll f children)

def mapAll (f : α → β) : List (Outline α) → List (Outline β)
  | [] => []
  | child :: rest => child.map f :: mapAll f rest

end

/-- The kinds of the nodes of a function. -/
def ofFunction (f : Function) : Outline := (Node.function f).outline.map Node.kind

/-- The kinds of the nodes of a statement. -/
def ofStatement (s : Statement) : Outline := s.outline.map Node.kind

/-- The kinds of the nodes of an expression. -/
def ofExpr (e : Expr) : Outline := e.outline.map Node.kind

end Outline

/-! ## Walks -/

/-- What a visitor sees at one visit. The chain lists the parents from the
root on; the root has none. -/
structure Visit (α : Type := NodeKind) where
  node : α
  parent : Option α
  chain : List (Option α)
  after : Bool
  deriving DecidableEq, Repr

/-- What a visitor answers. -/
inductive Reply where
  | next
  | prune
  | stop
  | fail
  deriving DecidableEq, Repr

/-- How a walk goes on after a step. -/
inductive Course where
  | going
  | stopped
  | failed
  deriving DecidableEq, Repr

/-- A visitor with a state of its own. -/
abbrev Visitor (σ : Type) (α : Type := NodeKind) := σ → Visit α → σ × Reply

namespace Outline

variable {σ α : Type}

/-- Call a visitor that may be missing. A missing one lets the walk go on. -/
def call (visitor : Option (Visitor σ α)) (state : σ) (visit : Visit α) : σ × Reply :=
  match visitor with
  | none => (state, .next)
  | some visitor => visitor state visit

/-- The course after the visit that closes a node. Only stopping and failing
matter there. -/
def closing : Reply → Course
  | .stop => .stopped
  | .fail => .failed
  | .next | .prune => .going

mutual

/-- Walk a tree: `before` is called on a node before its children, `after`
when they are done. Pruning leaves out the children and the second visit. -/
def walk (before after : Option (Visitor σ α)) (parent : Option α)
    (chain : List (Option α)) (state : σ) : Outline α → σ × Course
  | .node label children =>
    let chain := chain ++ [parent]
    match call before state ⟨label, parent, chain, false⟩ with
    | (state, .stop) => (state, .stopped)
    | (state, .fail) => (state, .failed)
    | (state, .prune) => (state, .going)
    | (state, .next) =>
      match walkAll before after (some label) chain state children with
      | (state, .going) =>
        let (state, reply) := call after state ⟨label, parent, chain, true⟩
        (state, closing reply)
      | ended => ended

def walkAll (before after : Option (Visitor σ α)) (parent : Option α)
    (chain : List (Option α)) (state : σ) : List (Outline α) → σ × Course
  | [] => (state, .going)
  | child :: rest =>
    match walk before after parent chain state child with
    | (state, .going) => walkAll before after parent chain state rest
    | ended => ended

end

/-- A visitor that counts its calls. -/
def counter : Visitor Nat α := fun count _ => (count + 1, .next)

/-- The number of nodes of a tree, the root included, as a walk counts them. -/
def size (tree : Outline α) : Nat := (tree.walk (some counter) none none [] 0).1

end Outline

end StoredProc
