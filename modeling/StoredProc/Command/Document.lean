import StoredProc.Command.Diagnostic
import StoredProc.Command.Output
import StoredProc.Json.Indent

/-!
# Writing programs

A program document is written to a file, or to the first channel if no file is
named, indented if that is wanted.
-/

namespace StoredProc

/-- Where and how a program document is written. -/
structure Destination where
  path : String := ""
  indent : Int := 0
  deriving DecidableEq, Inhabited, Repr

namespace Destination

/-- Why a document is not written. -/
inductive Error where
  | indent (cause : Json.IndentError)
  | file (cause : Disk.Error)
  deriving DecidableEq, Inhabited, Repr

def Error.message : Error → String
  | .indent cause => cause.message unreadable
  | .file cause => cause.message

/-- Whether an error ends the program at once. -/
def Error.isFatal : Error → Bool
  | .indent .negative => true
  | _ => false

/-- Write a document. The text is what goes to the first channel. -/
def write (target : Destination) (d : Disk) (document : String) : Except Error (Disk × String) := do
  let indented ← (Json.indentText document target.indent).mapError .indent
  if target.path.isEmpty then return (d, indented ++ "\n")
  let d ← (d.write target.path (indented ++ "\n")).mapError .file
  return (d, "")

end Destination

end StoredProc
