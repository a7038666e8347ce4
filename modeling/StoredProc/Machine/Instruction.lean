import StoredProc.Machine.Op

/-!
# Instructions

The instructions a compiled procedure consists of, by meaning. `toOp` gives the
form in which the machine reads them.
-/

namespace StoredProc

/-- An instruction of a compiled procedure. The machine has a stack of operands
and a heap of variables. -/
inductive Instruction where
  | text (value : String)
  | int (value : Int)
  | double (value : Double)
  | newObject
  | newArray
  | copyFromHeap (slot : Nat)
  | moveToHeap
  | truncateHeap (count : Nat)
  | returnTop
  | enforceSchema (slot schema : Nat)
  | noop
  | setField (depth : Nat)
  | getField (depth : Nat)
  | arrayPush
  | arrayLen
  | negate
  | jumpIf (address : Nat)
  | getAll (store : String)
  | query (store : String) (hidden : List String)
  | insert (store : String)
  | storeLen (store : String)
  | findOne (store : String) (hidden : List String)
  | deleteOne (store : String)
  | newPush
  | pushAt (path : List String)
  | updateOne (store : String)
  deriving DecidableEq, Inhabited, Repr

/-- Straight-line code and the code of whole procedures. -/
abbrev Code := List Instruction

namespace Instruction

/-- The operator of an update that adds to an array. -/
def pushOperator : String := "$push"

/-- The field that identifies a record. -/
def idField : String := "_id"

/-- The projection that leaves out fields. -/
def excluding (fields : List String) : Option Op.Projection :=
  some (fields.map fun name => (name, 0))

/-- The operation that carries out an instruction. -/
def toOp : Instruction → Op
  | text value => .instantiateText value
  | int value => .instantiateInt value
  | double value => .instantiateDouble value
  | newObject => .instantiateObject
  | newArray => .instantiateArray
  | copyFromHeap slot => .copyFromHeap slot
  | moveToHeap => .moveStackTopToHeap
  | truncateHeap count => .truncateHeap count
  | returnTop => .returnStackTop
  | enforceSchema slot schema => .enforceSchemaOnHeap slot schema
  | noop => .noop
  | setField depth => .setField depth
  | getField depth => .getField depth
  | arrayPush => .arrayPush
  | arrayLen => .arrayLen
  | negate => .negatePrev
  | jumpIf address => .conditionalGoto address
  | getAll store => .getAllFromStore store
  | query store hidden => .queryStore store (excluding hidden)
  | insert store => .insertFromStack store
  | storeLen store => .storeLen store
  | findOne store hidden => .findOneInStore store (excluding hidden)
  | deleteOne store => .deleteOneInStore store
  | newPush => .createUpdateDoc (.map [(pushOperator, .map [])])
  | pushAt path => .setNestedField pushOperator (".".intercalate path)
  | updateOne store => .updateOne store

/-- Move a jump by an offset. -/
def shift (offset : Nat) : Instruction → Instruction
  | jumpIf address => jumpIf (address + offset)
  | other => other

end Instruction

end StoredProc
