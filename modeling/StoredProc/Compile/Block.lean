import StoredProc.Machine.Instruction
import StoredProc.Tree.Walk

/-!
# Blocks

The code of a list of statements before it has addresses. A branch runs its
body if its test holds; it is laid out as the test, a jump over the body, the
body, and one instruction that removes the variables of the body. The jump goes
to that last instruction, which is always there. Addresses come in when a block
is assembled, so a block can be put anywhere.
-/

namespace StoredProc

/-- The code of a statement. A branch knows how many variables its body
declares. -/
inductive Step where
  | plain (kind : NodeKind) (code : Code)
  | branch (test : Code) (body : List Step) (fresh : Nat)
  deriving Inhabited

namespace Step

/-- The kind of the statement. -/
def kind : Step → NodeKind
  | .plain kind _ => kind
  | .branch .. => .ifStatement

mutual

/-- The number of instructions of a statement: a branch adds the negation of
its test, the jump and the last instruction. -/
def size : Step → Nat
  | .plain _ code => code.length
  | .branch test body _ => test.length + sizes body + 3

def sizes : List Step → Nat
  | [] => 0
  | step :: rest => step.size + sizes rest

end

/-- The instruction at the end of a branch. -/
def cleanup (fresh : Nat) : Instruction := if fresh = 0 then .noop else .truncateHeap fresh

/-- The address of the jump of a branch. -/
def jumpAddress (base : Nat) (test : Code) : Nat := base + test.length + 1

/-- The address of the last instruction of a branch. -/
def endAddress (base : Nat) (test : Code) (body : List Step) : Nat :=
  jumpAddress base test + sizes body + 1

mutual

/-- The code of a statement from an address on. -/
def assemble (base : Nat) : Step → Code
  | .plain _ code => code
  | .branch test body fresh =>
    test ++ .negate :: .jumpIf (endAddress base test body)
      :: assembleAll (jumpAddress base test + 1) body ++ [cleanup fresh]

/-- The code of statements from an address on. -/
def assembleAll (base : Nat) : List Step → Code
  | [] => []
  | step :: rest => step.assemble base ++ assembleAll (base + step.size) rest

end

end Step

end StoredProc
