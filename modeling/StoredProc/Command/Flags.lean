import StoredProc.Number.Integer
import StoredProc.Text.Quoted

/-!
# Flags

A flag is written `-name` or `--name`. A value follows after an equals sign or,
unless the flag is a truth value, as the next argument. Flags end at the first
argument that is none, or at `--`. Since a command takes flags also behind its
paths, its arguments are put in order first: flags with their values in front,
all else behind.
-/

namespace StoredProc

inductive FlagValue where
  | text (value : String)
  | int (value : Int)
  | bool (value : Bool)
  deriving DecidableEq, Inhabited, Repr

namespace FlagValue

def describe : FlagValue → String
  | text value => value
  | int value => value.repr
  | bool true => "true"
  | bool false => "false"

/-- The name of the kind of a value in a help text; truth values have none. -/
def kind : FlagValue → String
  | text _ => "string"
  | int _ => "int"
  | bool _ => ""

def isBool : FlagValue → Bool
  | bool _ => true
  | _ => false

/-- The default that a help text shows. An empty text, zero and false are not
shown. -/
def shown? : FlagValue → Option String
  | text value => if value.isEmpty then none else some (Text.quoted value)
  | int value => if value = 0 then none else some value.repr
  | bool true => some "true"
  | bool false => none

end FlagValue

/-- A flag with its default, which also fixes the kind of its values. -/
structure Flag where
  name : String
  default : FlagValue
  usage : String := ""
  deriving Inhabited, Repr

/-- Why arguments cannot be read. -/
inductive FlagError where
  | malformed (argument : String)
  | helpRequested
  | undefined (name : String)
  | notBool (value name : String)
  | missingValue (name : String)
  | badValue (value name : String) (cause : IntegerError)
  deriving DecidableEq, Inhabited, Repr

def FlagError.message : FlagError → String
  | .malformed argument => "bad flag syntax: " ++ argument
  | .helpRequested => "flag: help requested"
  | .undefined name => "flag provided but not defined: -" ++ name
  | .notBool value name =>
    "invalid boolean value " ++ Text.quoted value ++ " for -" ++ name ++ ": parse error"
  | .missingValue name => "flag needs an argument: -" ++ name
  | .badValue value name cause =>
    "invalid value " ++ Text.quoted value ++ " for flag -" ++ name ++ ": " ++ cause.message

/-- What arguments say: flags with their values in order, and the other
arguments. -/
structure Arguments where
  settings : List (String × FlagValue) := []
  positional : List String := []
  deriving DecidableEq, Inhabited, Repr

namespace Arguments

/-- Put a setting in front. -/
def set (a : Arguments) (name : String) (value : FlagValue) : Arguments :=
  { a with settings := (name, value) :: a.settings }

/-- The value of a flag that is set; the last setting counts. -/
def get? (a : Arguments) (name : String) : Option FlagValue := a.settings.reverse.lookup name

def textOf (a : Arguments) (name default : String) : String :=
  match a.get? name with
  | some (.text value) => value
  | _ => default

def intOf (a : Arguments) (name : String) (default : Int) : Int :=
  match a.get? name with
  | some (.int value) => value
  | _ => default

def boolOf (a : Arguments) (name : String) (default : Bool) : Bool :=
  match a.get? name with
  | some (.bool value) => value
  | _ => default

end Arguments

namespace Flag

/-- Whether an argument has the look of a flag. -/
def isOption (argument : String) : Bool :=
  match argument.toList with
  | '-' :: _ :: _ => true
  | _ => false

def find? (flags : List Flag) (name : String) : Option Flag := flags.find? (·.name = name)

/-! ## Flags first -/

/-- Whether an argument that looks like a flag takes the next argument as its
value. All dashes in front of a name are dropped. -/
def takesNext (flags : List Flag) (argument : String) : Bool :=
  let name := argument.toList.dropWhile (· = '-')
  !name.contains '=' &&
    match find? flags (String.ofList name) with
    | some flag => !flag.default.isBool
    | none => false

/-- Divide arguments into flags with their values, and the others. -/
def divide (flags : List Flag) : List String → List String × List String
  | [] => ([], [])
  | argument :: rest =>
    if argument = "--" then ([], argument :: rest)
    else if !isOption argument then
      let (options, positional) := divide flags rest
      (options, argument :: positional)
    else if takesNext flags argument then
      match rest with
      | [] => ([argument], [])
      | value :: rest =>
        let (options, positional) := divide flags rest
        (argument :: value :: options, positional)
    else
      let (options, positional) := divide flags rest
      (argument :: options, positional)

/-- Put flags and their values in front of all other arguments. -/
def moveFirst (flags : List Flag) (arguments : List String) : List String :=
  let (options, positional) := divide flags arguments
  options ++ positional

/-! ## Reading -/

/-- The truth value of a text. -/
def readBool? (text : String) : Option Bool :=
  if ["1", "t", "T", "TRUE", "true", "True"].contains text then some true
  else if ["0", "f", "F", "FALSE", "false", "False"].contains text then some false
  else none

/-- The value that a text gives to a flag. -/
def readValue (flag : Flag) (text : String) : Except FlagError FlagValue :=
  match flag.default with
  | .text _ => .ok (.text text)
  | .int _ =>
    match readInteger text with
    | .ok value => .ok (.int value)
    | .error cause => .error (.badValue text flag.name cause)
  | .bool _ =>
    match readBool? text with
    | some value => .ok (.bool value)
    | none => .error (.notBool text flag.name)

/-- What an argument is to a reader of flags. -/
inductive Shape where
  | positional
  | terminator
  | malformed
  | option (name : String) (value : Option String)
  deriving DecidableEq, Inhabited, Repr

/-- The name and the value of a flag. An equals sign cannot stand first. -/
def splitOption (text : List Char) : Shape :=
  match text with
  | [] => .malformed
  | first :: rest =>
    if first = '-' || first = '=' then .malformed
    else
      let name := String.ofList (first :: rest.takeWhile (· ≠ '='))
      match rest.dropWhile (· ≠ '=') with
      | [] => .option name none
      | _ :: value => .option name (some (String.ofList value))

/-- What an argument is. -/
def shape (argument : String) : Shape :=
  match argument.toList with
  | ['-', '-'] => .terminator
  | '-' :: '-' :: text => splitOption text
  | '-' :: c :: text => splitOption (c :: text)
  | _ => .positional

/-- Why a name is no flag. -/
def unknown (name : String) : FlagError :=
  if name = "help" || name = "h" then .helpRequested else .undefined name

/-- Read arguments. -/
def read (flags : List Flag) : List String → Except FlagError Arguments
  | [] => .ok {}
  | argument :: rest =>
    match shape argument with
    | .positional => .ok { positional := argument :: rest }
    | .terminator => .ok { positional := rest }
    | .malformed => .error (.malformed argument)
    | .option name value =>
      match find? flags name, value with
      | none, _ => .error (unknown name)
      | some flag, some text =>
        match flag.readValue text with
        | .error cause => .error cause
        | .ok value => (read flags rest).map (·.set name value)
      | some flag, none =>
        if flag.default.isBool then (read flags rest).map (·.set name (.bool true))
        else
          match rest with
          | [] => .error (.missingValue name)
          | text :: rest =>
            match flag.readValue text with
            | .error cause => .error cause
            | .ok value => (read flags rest).map (·.set name value)

/-! ## Help -/

/-- The lines about a flag in a help text. -/
def help (flag : Flag) : String :=
  "  -" ++ flag.name ++ (if flag.default.kind.isEmpty then "" else " " ++ flag.default.kind)
    ++ "\n    \t" ++ flag.usage
    ++ (match flag.default.shown? with
      | some shown => " (default " ++ shown ++ ")"
      | none => "") ++ "\n"

/-- The help text of flags, by name. -/
def helpAll (flags : List Flag) : String :=
  String.join ((flags.mergeSort fun a b => a.name ≤ b.name).map help)

end Flag

end StoredProc
