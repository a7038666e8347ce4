import StoredProc.Log.Level

/-!
# Log events

An event has a level, fields and perhaps a message. A logger writes the events
of its level and above, one a line, as JSON objects or as plain text. The time
is that of the logger.
-/

namespace StoredProc

inductive LogFormat where
  | json
  | console
  deriving DecidableEq, Inhabited, Repr

namespace LogFormat

def name : LogFormat → String
  | json => "json"
  | console => "console"

/-- The format of a name; without a name it is JSON. -/
def ofName? (name : String) : Option LogFormat :=
  if name.isEmpty || name = "json" then some json
  else if name = "console" then some console
  else none

def unknownMessage (name : String) : String := "unknown log format " ++ Text.quoted name

end LogFormat

structure LogEvent where
  level : LogLevel
  fields : List (String × String) := []
  message : String := ""
  deriving Inhabited, Repr

structure Logger where
  level : LogLevel
  format : LogFormat := .json
  source : Option String := none
  time : String
  deriving Inhabited, Repr

/-- Why there is no logger. -/
inductive Logger.Error where
  | level (cause : LogLevel.ReadError)
  | format (name : String)
  deriving DecidableEq, Inhabited, Repr

namespace Logger

def Error.message : Error → String
  | .level cause => cause.message
  | .format name => LogFormat.unknownMessage name

/-- The logger of a level and a format given by their names. -/
def ofNames (level format time : String) : Except Error Logger := do
  let level ← (LogLevel.read level).mapError .level
  match LogFormat.ofName? format with
  | some format => return { level, format, time }
  | none => .error (.format format)

/-- The logger of a part of the program. -/
def ofSource (logger : Logger) (source : String) : Logger :=
  { logger with source := some source }

/-- Whether events of a level are written. The least level of all is `trace`. -/
def writes (logger : Logger) (level : LogLevel) : Bool :=
  logger.level.value ≤ level.value && LogLevel.trace.value ≤ level.value
    && level != LogLevel.disabled

/-- A character of a text in a JSON line. -/
def escapeChar (c : Char) : List Char :=
  if c = '"' then ['\\', '"']
  else if c = '\\' then ['\\', '\\']
  else if c.toNat = 8 then ['\\', 'b']
  else if c.toNat = 12 then ['\\', 'f']
  else if c = '\n' then ['\\', 'n']
  else if c = '\r' then ['\\', 'r']
  else if c = '\t' then ['\\', 't']
  else if c.toNat < 0x20 || c.toNat = 0x7f then ['\\', 'u'] ++ Text.hexDigits 4 c.toNat
  else [c]

/-- A text in a JSON line. -/
def string (text : String) : String :=
  String.ofList ('"' :: text.toList.flatMap escapeChar ++ ['"'])

/-- The members of the object of an event: the level, the source, the fields, the
time, and the message if there is one. -/
def members (logger : Logger) (event : LogEvent) : List (String × String) :=
  (if event.level = LogLevel.unset then [] else [("lvl", event.level.name)])
    ++ (logger.source.map fun source => ("src", source)).toList
    ++ event.fields ++ [("tm", logger.time)]
    ++ (if event.message.isEmpty then [] else [("msg", event.message)])

/-- The line of an event. -/
def line (logger : Logger) (event : LogEvent) : String :=
  match logger.format with
  | .json =>
    "\x7b" ++ ",".intercalate ((logger.members event).map fun member =>
      string member.1 ++ ":" ++ string member.2) ++ "\x7d\n"
  | .console =>
    " ".intercalate ([logger.time, event.level.name] ++ logger.source.toList ++ [event.message]
      ++ event.fields.map fun field => field.1 ++ "=" ++ Text.quoted field.2) ++ "\n"

/-- What is written of an event. -/
def write (logger : Logger) (event : LogEvent) : String :=
  if logger.writes event.level then logger.line event else ""

end Logger

end StoredProc
