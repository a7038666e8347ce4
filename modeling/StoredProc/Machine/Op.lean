import StoredProc.Machine.Operand

/-!
# Operations on the wire

The machine reads an operation as `{"kind": ..., "data": ...}`. A listing shows
one operation a line: its address, its kind, and its payload if there is one.
-/

namespace StoredProc

/-- An operation as the machine reads it. -/
structure Op where
  kind : String
  data : Operand := .none
  deriving Inhabited

namespace Op

/-! ## The operations of the machine -/

def instantiateText (value : String) : Op := ⟨"instantiate", .text value⟩

def instantiateInt (value : Int) : Op := ⟨"instantiate", .int64 value⟩

def instantiateDouble (value : Double) : Op := ⟨"instantiate", .double value⟩

def instantiateObject : Op := ⟨"instantiate", .map []⟩

def instantiateArray : Op := ⟨"instantiate", .list []⟩

def copyFromHeap (slot : Int) : Op := ⟨"copyFromHeap", .int slot⟩

def moveStackTopToHeap : Op := ⟨"moveStackTopToHeap", .none⟩

def truncateHeap (count : Int) : Op := ⟨"truncateHeap", .int count⟩

def returnStackTop : Op := ⟨"returnStackTop", .none⟩

def enforceSchemaOnHeap (heapPos schema : Int) : Op :=
  ⟨"enforceSchemaOnHeap", .record [("heap_pos", .int heapPos), ("schema", .int schema)]⟩

def noop : Op := ⟨"noop", .none⟩

/-- Set a field of the object at this depth under the top of the stack. -/
def setField (depth : Int) : Op := ⟨"setField", .int depth⟩

/-- Get a field of the object at this depth under the top of the stack. -/
def getField (depth : Int) : Op := ⟨"getField", .int depth⟩

def arrayPush : Op := ⟨"arrayPush", .none⟩

def arrayLen : Op := ⟨"arrayLen", .none⟩

def negatePrev : Op := ⟨"negatePrev", .none⟩

/-- Jump if the top of the stack is true. -/
def conditionalGoto (address : Int) : Op := ⟨"conditionalGoto", .int address⟩

def goto (address : Int) : Op := ⟨"gotoOp", .int address⟩

def getAllFromStore (store : String) : Op := ⟨"getAllFromStore", .text store⟩

/-- A projection says of a field whether a query returns it. -/
abbrev Projection := List (String × Int)

def projectionOperand (projection : Projection) : Operand :=
  .map (projection.map fun entry => (entry.1, .int entry.2))

/-- The payload of operations on the record that a pointer designates. -/
def storeTarget (store : String) : Operand := .record [("store", .text store)]

def queryStore (store : String) (projection : Option Projection) : Op :=
  ⟨"queryStore", .list [.text store, (projection.map projectionOperand).getD .noMap]⟩

def insertFromStack (store : String) : Op := ⟨"insertFromStack", .text store⟩

def storeLen (store : String) : Op := ⟨"storeLen", .text store⟩

def findOneInStore (store : String) (projection : Option Projection) : Op :=
  ⟨"findOneInStore", .list [storeTarget store, (projection.map projectionOperand).getD .noMap]⟩

def deleteOneInStore (store : String) : Op := ⟨"deleteOneInStore", storeTarget store⟩

def createUpdateDoc (document : Operand) : Op := ⟨"createUpdateDoc", document⟩

def setNestedField (operator path : String) : Op :=
  ⟨"setNestedField", .list [.text operator, .text path]⟩

def updateOne (store : String) : Op := ⟨"updateOne", .text store⟩

/-! ## Jumps -/

/-- Whether the payload is the address of another operation. -/
def isJump (op : Op) : Bool := op.kind == "conditionalGoto" || op.kind == "gotoOp"

/-- The address a jump goes to. -/
def address? (op : Op) : Option Int :=
  match op.isJump, op.data with
  | true, .int address => some address
  | _, _ => none

/-! ## Writing -/

/-- The JSON form of an operation, if its payload has one. -/
def toJson? (op : Op) : Option Json :=
  op.data.toJson?.map fun data => .object [("kind", .string op.kind), ("data", data)]

/-- An operation in a listing. -/
def text (op : Op) : String :=
  match op.data with
  | .none => op.kind
  | data =>
    match data.toJson? with
    | some json => op.kind ++ " " ++ json.text
    | none => op.kind ++ " <invalid data>"

/-- An address in a listing: four digits at least. -/
def addressText (address : Nat) : String := String.ofList (Double.padded 4 address)

/-- A line of a listing. -/
def line (address : Nat) (op : Op) : String := addressText address ++ " " ++ op.text

/-- The listing of operations from address zero. -/
def listing (ops : List Op) : String :=
  String.join (ops.zipIdx.map fun (op, address) => line address op ++ "\n")

end Op

end StoredProc
