import StoredProc.DataType.Codec
import StoredProc.Json.Indent
import StoredProc.Machine.Verify

/-!
# Programs

A program is what the machine loads: procedures by name, a table of schemas,
and the record types of the stores. The sizes of the frames go with it but are
not part of its document.
-/

namespace StoredProc

/-- Procedures and stores are maps: no name occurs twice. -/
structure Program where
  procedures : List (String × List Op) := []
  schemas : List DataType := []
  stores : List (String × DataType) := []
  frames : List (String × Int) := []
  deriving Inhabited

namespace Program

/-- The names of the procedures in order. -/
def procedureNames (p : Program) : List String := (p.procedures.map Prod.fst).mergeSort

/-- The operations of a procedure. -/
def procedure (p : Program) (name : String) : List Op := (p.procedures.lookup name).getD []

/-- The JSON forms of operations, if all have one. -/
def opsToJson? (ops : List Op) : Option Json := (ops.mapM Op.toJson?).map .array

/-- The document of a program, if all payloads have a JSON form. -/
def toJson? (p : Program) : Option Json := do
  let procedures ← p.procedures.mapM fun (name, ops) => do
    let ops ← opsToJson? ops
    return (name, ops)
  return .object [("PROCEDURES", .dictionary procedures),
    ("SCHEMAS", .array (p.schemas.map DataType.toJson)),
    ("STORES", .dictionary (p.stores.map fun (name, type) => (name, type.toJson)))]

/-- The text of the document of a program. -/
def text? (p : Program) : Option String := p.toJson?.map Json.text

/-- The indented text of the document of a program. -/
def indentedText? (p : Program) (indent : String) : Option String :=
  p.toJson?.map fun document => document.indented indent

/-- The line above the listing of a procedure. -/
def header (p : Program) (name : String) : String :=
  match p.frames.lookup name with
  | some size => "; " ++ name ++ " (frame: " ++ size.repr ++ ")\n"
  | none => "; " ++ name ++ "\n"

/-- The listings of all procedures by name, a blank line between two. -/
def listing (p : Program) : String :=
  "\n".intercalate (p.procedureNames.map fun name =>
    p.header name ++ Op.listing (p.procedure name))

/-- A procedure that is not sound. -/
structure VerifyError where
  procedure : String
  cause : Op.VerifyError

def VerifyError.message (e : VerifyError) : String :=
  "procedure " ++ e.procedure ++ ": " ++ e.cause.message

/-- Check all procedures by name. -/
def verify (p : Program) : Except VerifyError Unit :=
  p.procedureNames.forM fun name =>
    (Op.verify (p.procedure name)).mapError (⟨name, ·⟩)

end Program

end StoredProc
