import StoredProc.Command.Flags
import StoredProc.Config.Basic
import StoredProc.Text.Distance

/-!
# Commands

The first argument names a command. Each command that compiles has its own flags
and those of all builds, whose defaults are the settings.
-/

namespace StoredProc

inductive Subcommand where
  | compile
  | check
  | inspect
  | watch
  | clearCache
  | installCompletions
  | uninstallCompletions
  | help
  deriving DecidableEq, Inhabited, Repr

namespace Subcommand

/-- All commands in the order of the help text. -/
def all : List Subcommand :=
  [compile, check, inspect, watch, clearCache, installCompletions, uninstallCompletions, help]

def name : Subcommand → String
  | compile => "compile"
  | check => "check"
  | inspect => "inspect"
  | watch => "watch"
  | clearCache => "clear-cache"
  | installCompletions => "install-completions"
  | uninstallCompletions => "uninstall-completions"
  | help => "help"

def description : Subcommand → String
  | compile => "compile a manifest to a bytecode program"
  | check => "compile manifests (paths or ** patterns) and only report errors"
  | inspect => "show the procedures of a compiled manifest or query the program document"
  | watch => "recompile a manifest each time it changes"
  | clearCache => "remove all the programs stored in the build cache"
  | installCompletions =>
    "install CLI completions by addding the completion command to the detected rc file "
      ++ "(supported shells are bash, zsh and fish)"
  | uninstallCompletions =>
    "uninstall CLI completions by removing the completion command from the detected rc file"
  | help => "show the general help or command-specific help"

/-- The command of a name. -/
def ofName? (name : String) : Option Subcommand := all.find? (·.name = name)

/-- The help text on all commands. -/
def generalHelp : String :=
  "commands:\n"
    ++ String.join (all.map fun command =>
      "\t" ++ command.name ++ " - " ++ command.description ++ "\n")
    ++ "\nType `conder help <command>` to get command-specific help.\n"

/-- How far a name may be from that of a command to be taken for a slip. -/
def slipDistance : Nat := 2

/-- What is said about a name that no command has. -/
def unknownMessage (name : String) : String :=
  "unknown command '" ++ name ++ "'" ++
    match Text.closest? (all.map Subcommand.name) name slipDistance with
    | some (closest, _) => ", did you mean '" ++ closest ++ "' ?\n"
    | none => "\n" ++ generalHelp

/-! ## Flags -/

/-- The flags of all builds. -/
def buildFlags (c : Config) : List Flag :=
  [{ name := "workers"
     default := .int c.workers
     usage := "maximum number of functions compiled in parallel (0: number of CPUs)" },
    { name := "no-cache"
      default := .bool c.noCache
      usage := "do not read or write the build cache" },
    { name := "log-level"
      default := .text c.logLevel
      usage := "minimum level of the logs written to stderr" },
    { name := "log-format"
      default := .text c.logFormat
      usage := "format of the logs: console or json" }]

/-- The flags of commands that write a program. -/
def writeFlags (c : Config) : List Flag :=
  [{ name := "o"
     default := .text ""
     usage := "write the program to a file instead of stdout" },
    { name := "indent"
      default := .int c.indent
      usage := "number of spaces used to indent the program (0: compact)" }]

/-- The flags of a command. -/
def flags (c : Config) : Subcommand → List Flag
  | compile =>
    writeFlags c
      ++ [{ name := "trace"
            default := .bool false
            usage := "print the emitted instructions to stderr, disables the build cache" }]
      ++ buildFlags c
  | check =>
    [{ name := "json"
       default := .bool false
       usage := "print the diagnostics as a JSON document on stdout" }]
      ++ buildFlags c
  | inspect =>
    [{ name := "ops"
       default := .bool false
       usage := "print the instructions of every procedure" }]
      ++ buildFlags c
  | watch => writeFlags c ++ buildFlags c
  | _ => []

/-- The help text on one command. -/
def commandHelp (command : Subcommand) (c : Config) : String :=
  command.description ++ "\n\noptions:\n" ++ Flag.helpAll (command.flags c) ++
    match command with
    | inspect =>
      "\nAn optional second argument is a path (gjson syntax) to query in the program, "
        ++ "e.g. PROCEDURES.count.#\n"
    | _ => ""

/-- What is said if arguments cannot be read. -/
def usageMessage (command : Subcommand) (c : Config) (cause : FlagError) : String :=
  (match cause with
    | .helpRequested => ""
    | _ => cause.message ++ "\n")
    ++ "Usage of " ++ command.name ++ ":\n" ++ Flag.helpAll (command.flags c)

/-- Whether arguments ask for help wherever they do. -/
def asksHelp (arguments : List String) : Bool :=
  arguments.contains "-h" || arguments.contains "--help"

end Subcommand

end StoredProc
