import StoredProc.Number.Reader
import StoredProc.Text.Quoted

/-!
# Levels

A level is a number; the higher it is, the graver the event. Eight levels have
names. A level is given by its name in any case or by its number; the number
six stands for no level and cannot be given.
-/

namespace StoredProc

structure LogLevel where
  value : Int
  deriving DecidableEq, Inhabited, Repr

namespace LogLevel

def trace : LogLevel := ⟨-1⟩
def debug : LogLevel := ⟨0⟩
def info : LogLevel := ⟨1⟩
def warn : LogLevel := ⟨2⟩
def error : LogLevel := ⟨3⟩
def fatal : LogLevel := ⟨4⟩
def panic : LogLevel := ⟨5⟩
def unset : LogLevel := ⟨6⟩
def disabled : LogLevel := ⟨7⟩

/-- The levels that have names. -/
def named : List (String × LogLevel) :=
  [("trace", trace), ("debug", debug), ("info", info), ("warn", warn), ("error", error),
    ("fatal", fatal), ("panic", panic), ("disabled", disabled)]

/-- The name of a level, or its number. -/
def name (level : LogLevel) : String :=
  match named.find? fun entry => entry.2 = level with
  | some entry => entry.1
  | none => level.value.repr

/-- Why a text is no level. -/
inductive ReadError where
  | unknown (text : String)
  | outOfBounds (value : Int)
  | reserved (text : String)
  deriving DecidableEq, Inhabited, Repr

def ReadError.message : ReadError → String
  | .unknown text => "Unknown Level String: '" ++ text ++ "', defaulting to NoLevel"
  | .outOfBounds value => "Out-Of-Bounds Level: '" ++ value.repr ++ "', defaulting to NoLevel"
  | .reserved text => "unknown log level " ++ Text.quoted text

/-- A character without its case. Two characters outside ASCII have an ASCII
letter as their lower case. -/
def foldCase (c : Char) : Char :=
  if c = 'ſ' then 's' else if c = 'K' then 'k' else c.toLower

/-- The level of a name in any case. -/
def ofName? (text : String) : Option LogLevel :=
  named.lookup (String.ofList (text.toList.map foldCase))

/-- The level that a text gives; the empty text gives `info`. -/
def read (text : String) : Except ReadError LogLevel :=
  if text.isEmpty then .ok info
  else
    match ofName? text with
    | some level => .ok level
    | none =>
      match readInt64? text with
      | none => .error (.unknown text)
      | some value =>
        if value < -128 || 127 < value then .error (.outOfBounds value)
        else if value = unset.value then .error (.reserved text)
        else .ok ⟨value⟩

end LogLevel

end StoredProc
