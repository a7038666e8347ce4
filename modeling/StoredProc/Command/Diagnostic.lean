import StoredProc.Command.Build

/-!
# Diagnostics

A failed build is reported by one diagnostic a cause: a label for its kind, where
it is, the function it is in, and what is wrong. Diagnostics are printed as lines,
with colors if they are wanted, or as a JSON document.
-/

namespace StoredProc

/-- A text in a style, given by its code. -/
def styled (colors : Bool) (code text : String) : String :=
  if colors then "\x1b[" ++ code ++ "m" ++ text ++ "\x1b[0m" else text

structure Diagnostic where
  label : String
  location : Option Location := none
  function : Option String := none
  message : String
  deriving DecidableEq, Inhabited, Repr

namespace Diagnostic

/-- The label of causes that have no kind of their own. -/
def plainLabel : String := "error"

/-- A diagnostic with nothing but a message. -/
def plain (message : String) : Diagnostic := { label := plainLabel, message }

/-- The diagnostic of a function that does not compile. -/
def ofFailure (e : FunctionError) : Diagnostic :=
  match e.fault with
  | .located f =>
    { label := f.fault.kind.label
      location := if f.loc.isKnown then some f.loc else none
      function := some e.function
      message := f.fault.message }
  | .invalid _ => { plain e.fault.message with function := some e.function }

/-- The line of a diagnostic. -/
def line (colors : Bool) (d : Diagnostic) : String :=
  styled colors "31;1" (d.label ++ ":") ++ " "
    ++ (match d.location with
      | some loc => styled colors "2" (loc.describe ++ ": ")
      | none => "")
    ++ (match d.function with
      | some function => styled colors "1" function ++ " "
      | none => "")
    ++ d.message ++ "\n"

/-- The JSON form of a location. -/
def locationJson (loc : Location) : Json :=
  .object ((if loc.file.isEmpty then [] else [("file", .string loc.file)])
    ++ [("line", .int loc.line), ("column", .int loc.column)])

/-- The JSON form of a diagnostic about the manifest at a path. -/
def toJson (path : String) (d : Diagnostic) : Json :=
  .object ([("manifest", .string path)]
    ++ (match d.function with
      | some function => [("function", .string function)]
      | none => [])
    ++ [("kind", .string d.label), ("message", .string d.message)]
    ++ (match d.location with
      | some loc => [("location", locationJson loc)]
      | none => []))

/-- The JSON document of all diagnostics. -/
def report (ok : Bool) (diagnostics : List Json) : String :=
  (Json.object [("ok", .bool ok), ("diagnostics", .array diagnostics)]).text ++ "\n"

end Diagnostic

namespace BuildError

/-- The diagnostics of a failed build. -/
def diagnostics : BuildError → List Diagnostic
  | .file cause => [.plain cause.message]
  | .manifest path cause => [.plain (path ++ ": " ++ cause.message)]
  | .registry cause => [{ label := "schema-collision", message := cause.message }]
  | .functions failures => failures.map Diagnostic.ofFailure
  | .unwritable => [.plain unreadable]

/-- The line after the diagnostics. -/
def conclusion (colors : Bool) : BuildError → String
  | .functions failures =>
    styled colors "33" (failures.length.repr ++ " function(s) failed to compile") ++ "\n"
  | _ => ""

/-- The printed form of a failed build. -/
def lines (colors : Bool) (e : BuildError) : String :=
  String.join (e.diagnostics.map (Diagnostic.line colors)) ++ e.conclusion colors

end BuildError

/-- The line about a success. -/
def successLine (colors : Bool) (message : String) : String := styled colors "32" message ++ "\n"

end StoredProc
