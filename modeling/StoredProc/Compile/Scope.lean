import StoredProc.DataType.Basic

/-!
# Scopes

Variables get the slots of the heap one after the other, and no slot is used
twice in a function. Scopes nest: each level knows the names it introduced, and
leaving it removes these bindings. A name bound at any open level cannot be
bound again.
-/

namespace StoredProc

/-- Where a variable is kept and what it holds. -/
structure Variable where
  slot : Nat
  type : DataType
  deriving Inhabited

/-- The variables in scope. The innermost level is apart, so there always is
one. -/
structure Scope where
  bindings : List (String × Variable) := []
  level : List String := []
  outer : List (List String) := []
  count : Nat := 0
  highest : Nat := 0
  deriving Inhabited

namespace Scope

/-- The variable of a name. -/
def get? (s : Scope) (name : String) : Option Variable := s.bindings.lookup name

/-- Bind a name to the next slot, unless it is bound already. -/
def add? (s : Scope) (name : String) (type : DataType) : Option (Nat × Scope) :=
  match s.get? name with
  | some _ => none
  | none => some (s.count,
      { s with
        bindings := (name, ⟨s.count, type⟩) :: s.bindings
        level := name :: s.level
        count := s.count + 1
        highest := max s.highest s.count })

/-- Open a level. -/
def start (s : Scope) : Scope := { s with level := [], outer := s.level :: s.outer }

/-- Close a level: remove its bindings and tell how many they are. The level of
the function itself cannot be closed. -/
def stop? (s : Scope) : Option (Nat × Scope) :=
  match s.outer with
  | [] => none
  | level :: outer => some (s.level.length,
      { s with
        bindings := s.bindings.filter fun entry => !s.level.contains entry.1
        level
        outer })

/-- What is said of an attempt to close the level of the function. -/
def stopMessage : String := "function level cannot be ended"

/-- Close a level; the level of the function stays as it is. -/
def stop (s : Scope) : Nat × Scope := s.stop?.getD (0, s)

end Scope

end StoredProc
