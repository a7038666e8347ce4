import StoredProc.DataType.Basic

/-!
# Syntax trees

The body of a function as a tree of statements and expressions, with names and
types already resolved. A reference is a name followed by a chain of field
accesses and method calls; it is both a statement and an expression. Every
node carries its place in the text it was written in.
-/

namespace StoredProc

/-- A place in a source text. Lines count from one: without a positive line
the place is not known. -/
structure Location where
  file : String := ""
  line : Int := 0
  column : Int := 0
  deriving DecidableEq, Inhabited, Repr

namespace Location

def isKnown (loc : Location) : Bool := 0 < loc.line

def describe (loc : Location) : String :=
  if loc.isKnown then
    let place := loc.line.repr ++ ":" ++ loc.column.repr
    if loc.file.isEmpty then place else loc.file ++ ":" ++ place
  else "<unknown location>"

end Location

mutual

inductive Expr where
  | reference (loc : Location) (name : String) (dots : List Dot)
  | string (loc : Location) (value : String)
  | number (loc : Location) (text : String)
  | array (loc : Location) (elements : List Expr)
  | object (loc : Location) (fields : List (String × Expr))
  | lambda (loc : Location) (row : String) (body : List Statement)

/-- One link of the chain after a name. -/
inductive Dot where
  | field (loc : Location) (name : String)
  | method (loc : Location) (name : String) (args : List Expr)

inductive Statement where
  | reference (loc : Location) (name : String) (dots : List Dot)
  | create (loc : Location) (name : String) (type : DataType) (value : Expr)
  | ret (loc : Location) (value : Option Expr)
  | ifThen (loc : Location) (condition : Expr) (body : List Statement)
  | forIn (loc : Location) (row : String) (iterable : Expr) (body : List Statement)

end

instance : Inhabited Expr := ⟨.string {} ""⟩
instance : Inhabited Dot := ⟨.field {} ""⟩
instance : Inhabited Statement := ⟨.ret {} none⟩

structure Parameter where
  name : String
  type : DataType
  deriving Inhabited

/-- A function declaration. Without a result type it returns nothing. -/
structure Function where
  loc : Location := {}
  name : String
  parameter : Option Parameter := none
  result : Option DataType := none
  body : List Statement := []
  deriving Inhabited

namespace Expr

def loc : Expr → Location
  | .reference loc .. | .string loc _ | .number loc _ | .array loc _ | .object loc _
  | .lambda loc .. => loc

end Expr

namespace Dot

def loc : Dot → Location
  | .field loc _ | .method loc .. => loc

def name : Dot → String
  | .field _ name | .method _ name _ => name

end Dot

namespace Statement

def loc : Statement → Location
  | .reference loc .. | .create loc .. | .ret loc _ | .ifThen loc .. | .forIn loc .. => loc

end Statement

end StoredProc
