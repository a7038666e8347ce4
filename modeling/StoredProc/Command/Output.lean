/-!
# Output

What a command writes goes to one of two channels.
-/

namespace StoredProc

structure Output where
  out : String := ""
  err : String := ""
  deriving DecidableEq, Inhabited, Repr

namespace Output

/-- One output after the other. -/
def append (a b : Output) : Output := { out := a.out ++ b.out, err := a.err ++ b.err }

instance : Append Output := ⟨append⟩

/-- A line on the first channel. -/
def line (text : String) : Output := { out := text ++ "\n" }

/-- A line on the second channel. -/
def errorLine (text : String) : Output := { err := text ++ "\n" }

end Output

end StoredProc
