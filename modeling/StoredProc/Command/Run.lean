import StoredProc.Command.Subcommand
import StoredProc.Disk.Pattern
import StoredProc.Machine.Document
import StoredProc.Watch.Session

/-!
# Running commands

A command is run on a disk, with the variables of an environment and at a time.
It ends with a status, or it goes on as a watch session, or it crashes.
-/

namespace StoredProc

/-- What a command works on. -/
structure Surroundings where
  disk : Disk
  environment : Environment := []
  time : String := ""
  deriving Inhabited

/-- How a command ends. -/
inductive Ending where
  | exit (status : Nat)
  | crashed (message : String)
  | watching (session : WatchSession)

structure Outcome where
  ending : Ending
  output : Output
  disk : Disk

namespace Outcome

/-- Success. -/
def success (d : Disk) (output : Output) : Outcome := { ending := .exit 0, output, disk := d }

/-- Failure. -/
def failure (d : Disk) (output : Output) : Outcome := { ending := .exit 1, output, disk := d }

/-- Failure with a line about the cause. -/
def refusal (d : Disk) (message : String) : Outcome := failure d (.errorLine message)

end Outcome

namespace Command

/-- Whether diagnostics have colors. -/
def colors (s : Surroundings) : Bool := Config.colorizeFile s.environment

/-- Read the arguments of a command. Help and unreadable arguments end it. -/
def readArguments (command : Subcommand) (c : Config) (s : Surroundings)
    (arguments : List String) : Except Outcome Arguments :=
  if Subcommand.asksHelp arguments then
    .error (.success s.disk { out := command.commandHelp c })
  else
    match Flag.read (command.flags c) (Flag.moveFirst (command.flags c) arguments) with
    | .error cause => .error (.failure s.disk { err := command.usageMessage c cause })
    | .ok a => .ok a

/-- The path that must be given. -/
def requirePath (s : Surroundings) (a : Arguments) : Except Outcome String :=
  match a.positional with
  | path :: _ => if path.isEmpty then .error (.refusal s.disk "missing manifest path") else .ok path
  | [] => .error (.refusal s.disk "missing manifest path")

/-- Make the builder. The text is what it logs. -/
def requireBuilder (c : Config) (s : Surroundings) (a : Arguments) :
    Except Outcome (Builder × Disk × String) :=
  (Builder.ofOptions (.ofArguments c a) s.disk (c.cacheDirectory s.environment) s.time).mapError
    fun cause => .refusal s.disk cause.message

/-- Where the program goes. -/
def destinationOf (c : Config) (a : Arguments) : Destination :=
  { path := a.textOf "o" "", indent := a.intOf "indent" c.indent }

/-- The outcome that was reached, early or at the end. -/
def settle : Except Outcome Outcome → Outcome
  | .ok outcome => outcome
  | .error outcome => outcome

/-! ## The commands -/

/-- Compile a manifest and write its program. -/
def compile (c : Config) (s : Surroundings) (arguments : List String) : Outcome :=
  settle do
    let a ← readArguments .compile c s arguments
    let path ← requirePath s a
    let (b, d, opened) ← requireBuilder c s a
    let b := { b with traced := a.boolOf "trace" false }
    let (built, b, log) := b.build d path
    let d := b.close d
    let err := opened ++ log
    match built with
    | .error cause => return .failure d { err := err ++ cause.lines (colors s) }
    | .ok result =>
      match (destinationOf c a).write d result.document with
      | .ok (d, out) => return .success d { out, err }
      | .error cause =>
        if cause.isFatal then
          return { ending := .crashed cause.message, output := { err }, disk := d }
        return .failure d { err := err ++ (Diagnostic.plain cause.message).line (colors s) }

/-- What a check has found. -/
structure Findings where
  ok : Bool := true
  output : Output := {}
  diagnostics : List Json := []

/-- Check one manifest. Its path is shown if there are several. -/
def checkOne (colors json several : Bool) (path : String) (built : Except BuildError BuildResult)
    (f : Findings) : Findings :=
  match built with
  | .error cause =>
    if json then
      { f with ok := false
               diagnostics := f.diagnostics ++ cause.diagnostics.map (Diagnostic.toJson path) }
    else
      { f with ok := false
               output := f.output
                 ++ { err := (if several then path ++ "\n" else "") ++ cause.lines colors } }
  | .ok result =>
    if json then f
    else
      { f with output := f.output
                 ++ { out := successLine colors ((if several then path ++ ": " else "")
                        ++ "ok: " ++ result.functionCount.repr ++ " function(s) compiled") } }

/-- Check manifests one after the other. -/
def checkAll (colors json several : Bool) (d : Disk) :
    List String → Builder → Findings → Builder × Findings
  | [], b, f => (b, f)
  | path :: rest, b, f =>
    let (built, b, log) := b.build d path
    checkAll colors json several d rest b
      (checkOne colors json several path built { f with output := f.output ++ { err := log } })

/-- Compile manifests and only report errors. -/
def check (c : Config) (s : Surroundings) (arguments : List String) : Outcome :=
  settle do
    let a ← readArguments .check c s arguments
    let _ ← requirePath s a
    let paths ← (s.disk.expandPatterns a.positional).mapError fun cause =>
      Outcome.refusal s.disk cause.message
    let (b, d, opened) ← requireBuilder c s a
    let json := a.boolOf "json" false
    let (b, f) := checkAll (colors s) json (1 < paths.length) d paths b
      { output := { err := opened } }
    let output := if json then f.output ++ { out := Diagnostic.report f.ok f.diagnostics }
      else f.output
    let d := b.close d
    return if f.ok then .success d output else .failure d output

/-- What an inspection shows of a program. -/
def inspection (result : BuildResult) (query : String) (ops : Bool) : Output ⊕ Output :=
  if query.isEmpty then
    if ops then
      .inl { out := (Program.ofDocument result.document result.frameSizes).listing }
    else .inl { out := Program.summary result.document result.frameSizes result.fromCache }
  else
    match (Program.readDocument result.document).query? query with
    | some value => .inl (.line value.text)
    | none => .inr (.errorLine ("nothing at path " ++ query))

/-- Show the procedures of a program, or a part of its document. -/
def inspect (c : Config) (s : Surroundings) (arguments : List String) : Outcome :=
  settle do
    let a ← readArguments .inspect c s arguments
    let path ← requirePath s a
    let (b, d, opened) ← requireBuilder c s a
    let (built, b, log) := b.build d path
    let d := b.close d
    let logged : Output := { err := opened ++ log }
    match built with
    | .error cause => return .failure d (logged ++ { err := cause.lines (colors s) })
    | .ok result =>
      match inspection result (a.positional[1]?.getD "") (a.boolOf "ops" false) with
      | .inl shown => return .success d (logged ++ shown)
      | .inr missing => return .failure d (logged ++ missing)

/-- Start to watch a manifest: the first build is made at once. -/
def watch (c : Config) (s : Surroundings) (arguments : List String) : Outcome :=
  settle do
    let a ← readArguments .watch c s arguments
    let path ← requirePath s a
    let (b, d, opened) ← requireBuilder c s a
    let session : WatchSession :=
      { builder := b, path, destination := destinationOf c a, colors := colors s }
    let logged : Output := { err := opened }
    match session.obstacle? d with
    | some reason =>
      return .failure d (logged ++ { err := (Diagnostic.plain reason.message).line (colors s) })
    | none =>
      let round := session.rebuild d
      return { ending := if round.verdict = .crashed then
                 .crashed (Destination.Error.indent .negative).message
                 else .watching round.session
               output := logged ++ round.output
               disk := round.disk }

/-- Remove all programs from the cache. -/
def clearCache (c : Config) (s : Surroundings) : Outcome :=
  match CacheFile.openIn s.disk (c.cacheDirectory s.environment) with
  | .error cause => .refusal s.disk cause.message
  | .ok (file, d) =>
    let count := file.cache.database.length
    let (_, cache) := file.cache.clear
    .success ({ file with cache }.save d)
      (.line (count.repr ++ " program(s) removed from " ++ file.path))

/-- The command that is meant, and its arguments: `help` before the name of a
command asks that command for help. -/
def normalize (name : String) (arguments : List String) : String × List String :=
  if name = Subcommand.help.name then
    match arguments with
    | first :: _ =>
      match Subcommand.ofName? first with
      | some command => (command.name, ["-h"])
      | none => (name, arguments)
    | [] => (name, arguments)
  else if ["--help", "-help", "-h"].contains name then (Subcommand.help.name, arguments)
  else (name, arguments)

/-- Run a command that needs the settings. -/
def runConfigured (command : Subcommand) (c : Config) (s : Surroundings)
    (arguments : List String) : Outcome :=
  match command with
  | .compile => compile c s arguments
  | .check => check c s arguments
  | .inspect => inspect c s arguments
  | .watch => watch c s arguments
  | .clearCache => clearCache c s
  | .installCompletions => .refusal s.disk "Did not find any shells to install"
  | .uninstallCompletions => .refusal s.disk "Did not find any shells to uninstall"
  | .help => .success s.disk { out := Subcommand.generalHelp }

/-- Whether a command does without the settings. -/
def needsNoSettings : Subcommand → Bool
  | .help | .installCompletions | .uninstallCompletions => true
  | _ => false

/-- Run the command of a command line. -/
def run (s : Surroundings) : List String → Outcome
  | [] => .failure s.disk { err := Subcommand.generalHelp }
  | first :: rest =>
    let (name, arguments) := normalize first rest
    match Subcommand.ofName? name with
    | none => .failure s.disk { err := Subcommand.unknownMessage name }
    | some command =>
      if needsNoSettings command then
        runConfigured command (Config.defaults s.environment) s arguments
      else
        match Config.load s.disk s.environment with
        | .error cause => .refusal s.disk (cause.message unreadable)
        | .ok c => runConfigured command c s arguments

end Command

end StoredProc
