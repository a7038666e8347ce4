import StoredProc.Json.Query
import StoredProc.Machine.Program
import StoredProc.Text.Columns

/-!
# Programs from documents

The procedures of a program can be listed from its document. Payloads stay as
they are written there.
-/

namespace StoredProc

namespace Op

/-- The operation that a document describes. -/
def ofDocument (document : Json) : Op :=
  { kind := ((document.query? "kind").map Json.plain).getD ""
    data := match document.query? "data" with
      | some .null | none => .none
      | some data => .raw data.text }

end Op

namespace Program

/-- The value of a document; an unreadable one has no parts. -/
def readDocument (document : String) : Json := (Json.parse? document).getD (.object [])

/-- The named parts of a member of a document. -/
def partsOf (name : String) (document : Json) : List (String × Json) :=
  ((document.query? name).map Json.parts).getD []

/-- Set the procedure of a name. -/
def setProcedure (procedures : List (String × List Op)) (name : String) (ops : List Op) :
    List (String × List Op) :=
  procedures.filter (·.1 ≠ name) ++ [(name, ops)]

/-- The procedures of a program document, with the sizes of their frames. -/
def ofDocument (document : String) (frames : List (String × Int)) : Program :=
  { procedures := (partsOf "PROCEDURES" (readDocument document)).foldl
      (fun procedures part =>
        setProcedure procedures part.1 (part.2.parts.map fun op => Op.ofDocument op.2)) []
    frames }

/-- A line about each procedure, in columns. -/
def procedureTable (p : Program) : String :=
  Text.align (String.join (p.procedureNames.map fun name =>
    "  " ++ name ++ "\t" ++ (p.procedure name).length.repr ++ " instruction(s)\tframe: "
      ++ ((p.frames.lookup name).getD 0).repr ++ "\n"))

/-- A summary of a program document. -/
def summary (document : String) (frames : List (String × Int)) (fromCache : Bool) : String :=
  let p := ofDocument document frames
  let json := readDocument document
  let schemas := match json.query? "SCHEMAS.#" with
    | some (.num count) => count
    | _ => "0"
  let stores := (partsOf "STORES" json).map Prod.fst
  "procedures (" ++ p.procedureNames.length.repr ++ "):\n" ++ p.procedureTable
    ++ "schemas: " ++ schemas ++ "\n"
    ++ "stores (" ++ stores.length.repr ++ "): [" ++ " ".intercalate stores ++ "]\n"
    ++ (if fromCache then "(from build cache)\n" else "")

end Program

end StoredProc
