import StoredProc.Machine.Op

/-!
# Verification

A procedure is sound if every jump goes to one of its operations and no slot,
count or depth is negative. The operations are checked in order; whether the
jumps end inside the procedure is checked when all of them are known.
-/

namespace StoredProc.Op

/-- Why a procedure is not sound. -/
inductive VerifyError where
  | nonIntegerAddress (kind : String) (index : Nat)
  | negativeAddress (kind : String) (index : Nat) (address : Int)
  | outside (address : Nat) (count : Nat)
  | badOperand (kind : String) (index : Nat) (operand : Operand)
  deriving Inhabited

def VerifyError.message : VerifyError → String
  | .nonIntegerAddress kind index =>
    "invalid jump address: " ++ kind ++ " at " ++ addressText index ++ " has a non integer address"
  | .negativeAddress kind index address =>
    "invalid jump address: " ++ kind ++ " at " ++ addressText index ++ " jumps to " ++ address.repr
  | .outside address count =>
    "invalid jump address: " ++ address.repr ++ " is outside of the " ++ count.repr
      ++ " instructions"
  | .badOperand kind index operand =>
    "invalid operand: " ++ kind ++ " at " ++ addressText index ++ " has operand "
      ++ operand.describe

/-- The kinds whose payload is a slot, a count or a depth. -/
def hasSize (op : Op) : Bool :=
  ["copyFromHeap", "overwriteHeap", "truncateHeap", "setField", "getField"].contains op.kind

/-- Check operations one by one and collect the targets of jumps. -/
def targetsFrom (index : Nat) : List Op → Except VerifyError (List Nat)
  | [] => .ok []
  | op :: rest =>
    if op.isJump then
      match op.address? with
      | none => .error (.nonIntegerAddress op.kind index)
      | some address =>
        if address < 0 then .error (.negativeAddress op.kind index address)
        else (targetsFrom (index + 1) rest).map (address.toNat :: ·)
    else if op.hasSize then
      match op.data with
      | .int size =>
        if size < 0 then .error (.badOperand op.kind index op.data)
        else targetsFrom (index + 1) rest
      | _ => .error (.badOperand op.kind index op.data)
    else targetsFrom (index + 1) rest

/-- Check a procedure. Of several jumps that leave it the nearest is named. -/
def verify (ops : List Op) : Except VerifyError Unit := do
  let targets ← targetsFrom 0 ops
  match (targets.filter (ops.length ≤ ·)).min? with
  | some target => .error (.outside target ops.length)
  | none => .ok ()

end StoredProc.Op
