import StoredProc.Config.Basic
import StoredProc.Yaml.Parser

/-!
# Settings files

A settings file is a YAML map. Keys that are not there keep their defaults, and
a key without a value clears its setting. Keys that are not known are refused.
A scalar can be given for a text; a number can be given for an integer, also in
quotes if it is not negative.
-/

namespace StoredProc.Config

/-- A setting that is a text. -/
def textSetting? : Yaml → Option String
  | .null => some ""
  | .bool true => some "true"
  | .bool false => some "false"
  | .int value => some value.repr
  | .double value => some value.describe
  | .str value => some value
  | _ => none

/-- The integer part of a finite double, if it fits in 64 bits. -/
def wholePart? : Double → Option Int
  | .finite negative mantissa exponent =>
    let size := if 0 ≤ exponent then mantissa * powerOfTwo exponent.toNat
      else mantissa / powerOfTwo (-exponent).toNat
    if size < int64Limit then some (if negative then -(size : Int) else size) else none
  | _ => none

/-- A setting that is an integer. -/
def intSetting? : Yaml → Option Int
  | .null => some 0
  | .int value => if -(int64Limit : Int) ≤ value && value < int64Limit then some value else none
  | .double value => wholePart? value
  | .str text =>
    match Double.read? text with
    | some (.finite true mantissa _) => if mantissa = 0 then some 0 else none
    | some value => wholePart? value
    | none => none
  | _ => none

/-- A setting that is a truth value. -/
def boolSetting? : Yaml → Option Bool
  | .null => some false
  | .bool value => some value
  | _ => none

/-- Change one setting. -/
def set? (c : Config) (key : String) (value : Yaml) : Option Config :=
  match key with
  | "log-level" => (textSetting? value).map fun logLevel => { c with logLevel }
  | "log-format" => (textSetting? value).map fun logFormat => { c with logFormat }
  | "workers" => (intSetting? value).map fun workers => { c with workers }
  | "cache-dir" => (textSetting? value).map fun cacheDir => { c with cacheDir }
  | "no-cache" => (boolSetting? value).map fun noCache => { c with noCache }
  | "indent" => (intSetting? value).map fun indent => { c with indent }
  | _ => none

/-- Change settings one after the other. -/
def setAll? (c : Config) : List (Yaml × Yaml) → Option Config
  | [] => some c
  | (.str key, value) :: rest => do
    let c ← c.set? key value
    c.setAll? rest
  | _ => none

/-- Read the text of a settings file over the defaults. -/
def readText? (defaults : Config) (content : String) : Option Config :=
  match Yaml.parse? content with
  | some .null => some defaults
  | some (.map entries) => defaults.setAll? entries
  | _ => none

/-- Read and check the content of the settings file at a path. -/
def ofFile (defaults : Config) (path content : String) : Except Error Config :=
  match defaults.readText? content with
  | none => .error (.unreadable path)
  | some c =>
    match c.validate with
    | .error cause => .error (.inFile path cause)
    | .ok () => .ok c

end StoredProc.Config
