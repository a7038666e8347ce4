import StoredProc.Log.Event

/-!
# Settings

Settings come from a file, then from the environment, then from the command
line. Levels and formats are kept as they are written.
-/

namespace StoredProc

/-- The variables of an environment that are set. -/
abbrev Environment := List (String × String)

/-- No worker limit means one worker a processor. An indentation of zero gives
compact output. -/
structure Config where
  logLevel : String := "warn"
  logFormat : String := "console"
  workers : Int := 0
  cacheDir : String
  noCache : Bool := false
  indent : Int := 0
  deriving DecidableEq, Inhabited, Repr

namespace Config

/-- The deepest indentation. -/
def maxIndent : Nat := 8

/-- What is wrong with settings. -/
inductive Error where
  | unreadable (path : String)
  | level (cause : LogLevel.ReadError)
  | format
  | workers
  | indent
  | notInteger (name : String)
  | inFile (path : String) (cause : Error)
  deriving Inhabited, Repr

/-- The text in front of what is wrong. -/
def Error.heading : String := "invalid configuration: "

def Error.message (unreadable : String) : Error → String
  | .unreadable path => heading ++ path ++ ": " ++ unreadable
  | .level cause => heading ++ cause.message
  | .format => heading ++ "log format should be json or console"
  | .workers => heading ++ "the number of workers should be positive"
  | .indent => heading ++ "indentation should be between 0 and " ++ maxIndent.repr
  | .notInteger name => heading ++ name ++ " should be an integer"
  | .inFile path cause => path ++ ": " ++ cause.message unreadable

/-- Check settings. -/
def validate (c : Config) : Except Error Unit :=
  match LogLevel.read c.logLevel with
  | .error cause => .error (.level cause)
  | .ok _ =>
    if c.logFormat ≠ LogFormat.json.name && c.logFormat ≠ LogFormat.console.name then
      .error .format
    else if c.workers < 0 then .error .workers
    else if c.indent < 0 || maxIndent < c.indent then .error .indent
    else .ok ()

/-- Whether a variable says yes. -/
def isTruthy (value : String) : Bool := !value.isEmpty && value ≠ "false" && value ≠ "0"

/-- An integer in a variable. Without the variable a setting stays as it is. -/
def integerOf (env : Environment) (name : String) (current : Int) : Except Error Int :=
  match env.lookup name with
  | none => .ok current
  | some text =>
    match readInt64? text with
    | some value => .ok value
    | none => .error (.notInteger name)

/-- The directory of the cache; an empty variable does not change it. -/
def cacheDirOf (env : Environment) (current : String) : String :=
  match env.lookup "CONDER_CACHE_DIR" with
  | some dir => if dir.isEmpty then current else dir
  | none => current

/-- Change settings by the variables of an environment, and check them. -/
def applyEnv (c : Config) (env : Environment) : Except Error Config := do
  let workers ← integerOf env "CONDER_WORKERS" c.workers
  let indent ← integerOf env "CONDER_INDENT" c.indent
  let changed : Config :=
    { logLevel := (env.lookup "CONDER_LOG_LEVEL").getD c.logLevel
      logFormat := (env.lookup "CONDER_LOG_FORMAT").getD c.logFormat
      workers
      cacheDir := cacheDirOf env c.cacheDir
      noCache := ((env.lookup "CONDER_NO_CACHE").map isTruthy).getD c.noCache
      indent }
  changed.validate
  return changed

/-- Blanks in front of a line of the output, a level deep. -/
def indentString (c : Config) : String := String.ofList (List.replicate c.indent.toNat ' ')

/-- Whether diagnostics may have colors. -/
def colorize (env : Environment) : Bool :=
  let yes (name : String) : Bool := ((env.lookup name).map isTruthy).getD false
  let capable : Bool := ((env.lookup "TERM").map fun term =>
    decide (1 < (term.splitOn "256color").length)).getD false
  !yes "NO_COLOR" && (yes "FORCE_COLOR" || env.lookup "COLORTERM" = some "truecolor" || capable)

/-- Whether diagnostics have colors where they are not read from a terminal. -/
def colorizeFile (env : Environment) : Bool :=
  colorize env && ((env.lookup "FORCE_COLOR").map isTruthy).getD false

end Config

end StoredProc
