import Std.Time.DateTime.Timestamp
import StoredProc.Cache.Storage
import StoredProc.Command.Run
import StoredProc.Log.Time
import StoredProc.Watch.Loop

/-!
# The program

The program shows a command the part of the disk that its arguments and settings
name, runs it, and brings what it changed back to the disk. A watch session looks
at its manifest ten times a second.
-/

namespace StoredProc.Main

/-- The variables that commands look at. -/
def variableNames : List String :=
  ["HOME", "XDG_CONFIG_HOME", "XDG_CONFIG_DIRS", "XDG_CACHE_HOME", "CONDER_LOG_LEVEL",
    "CONDER_LOG_FORMAT", "CONDER_WORKERS", "CONDER_CACHE_DIR", "CONDER_NO_CACHE", "CONDER_INDENT",
    "NO_COLOR", "FORCE_COLOR", "COLORTERM", "TERM"]

def readEnvironment : IO Environment :=
  variableNames.filterMapM fun name => do
    return (← IO.getEnv name).map fun value => (name, value)

/-- The text of a file. Bytes that are no text are read as one that nothing can
be made of. -/
def readText (path : String) : IO String := do
  return (String.fromUTF8? (← IO.FS.readBinFile path)).getD "\x00"

/-- What a file is. -/
def fileOf (content : String) : File :=
  match Database.decode? content with
  | some entries => .database entries
  | none => .text content

/-- Show a place; where nothing is, what leads to it. -/
partial def showPlace (d : Disk) (place : List String) : IO Disk := do
  let here := (← IO.currentDir) / Path.ofNames place
  if ← here.isDir then return { d with directories := place :: d.directories }
  if ← here.pathExists then return d.set place (fileOf (← readText (Path.ofNames place)))
  if place.isEmpty then return d
  showPlace d place.dropLast

/-- Show all files below a place. -/
partial def showBelow (d : Disk) (place : List String) : IO Disk := do
  let here := (← IO.currentDir) / Path.ofNames place
  if ← here.isDir then
    (← here.readDir).foldlM (fun d entry => showBelow d (place ++ [entry.fileName])) d
  else showPlace d place

/-- Show what an argument names. -/
def showArgument (d : Disk) (argument : String) : IO Disk := do
  let value := (argument.splitOn "=").getLast?.getD argument
  if Pattern.isPattern value then
    let directory := (Pattern.split (Path.clean value).toList).1
    showBelow d (Path.resolve d.cwd (String.ofList directory))
  else showPlace d (Path.resolve d.cwd value)

/-- Show the settings files and, as the settings say, the cache. -/
def showSettings (d : Disk) (env : Environment) : IO Disk := do
  let d ← (Config.settingsDirectories env).foldlM (fun d directory =>
    showPlace d (Path.resolve d.cwd (Path.join directory
      (Config.directoryName ++ "/config.yaml")))) d
  match Config.load d env with
  | .error _ => return d
  | .ok c =>
    showPlace d (Path.resolve d.cwd (Path.join (c.cacheDirectory env) CacheFile.fileName))

/-- Bring what has changed to the disk. -/
def store (before after : Disk) : IO Unit := do
  for directory in after.directories do
    if !before.isDirectory directory then IO.FS.createDirAll (Path.ofNames directory)
  for (place, file) in after.files do
    if before.file? place != some file then
      match file with
      | .text content => IO.FS.writeFile (Path.ofNames place) content
      | .database entries => IO.FS.writeFile (Path.ofNames place) entries.encode

def print (output : Output) : IO Unit := do
  (← IO.getStderr).putStr output.err
  let out ← IO.getStdout
  out.putStr output.out
  out.flush

/-- What a crash reports. -/
def crash (message : String) : IO UInt32 := do
  (← IO.getStderr).putStr ("panic: " ++ message ++ "\n")
  return 2

/-- The events of the loop after a look at the manifest. -/
def pollEvents (changed : Bool) (s : WatchLoop) : List LoopEvent :=
  if changed then [.file ⟨s.manifest, [.written]⟩]
  else if s.timer = .running then [.timeout, .request]
  else []

/-- Look at the manifest of a session until the end. -/
partial def follow (session : WatchSession) (d : Disk) (s : WatchLoop) : IO UInt32 := do
  IO.sleep 100
  let place := session.place d
  let seen ← showPlace { d with files := d.files.filter (·.1 != place) } place
  let changed := (seen.file? place).isSome && seen.file? place != d.file? place
  let s := (s.run? (pollEvents changed s)).getD s
  match s.step? .build with
  | none => follow session seen s
  | some s =>
    let round := session.next seen
    store seen round.disk
    print round.output
    match round.verdict with
    | .crashed => crash (Destination.Error.indent .negative).message
    | _ => follow round.session round.disk ((s.step? .built).getD s)

end StoredProc.Main

open StoredProc in
/-- Run the command of the command line. -/
def main (arguments : List String) : IO UInt32 := do
  let env ← Main.readEnvironment
  let now ← Std.Time.Timestamp.now
  let d : Disk := { cwd := Path.names (← IO.currentDir).toString }
  let d ← Main.showSettings d env
  let d ← arguments.foldlM Main.showArgument d
  let outcome := Command.run
    { disk := d, environment := env, time := Time.ofSeconds now.toSecondsSinceUnixEpoch.val.toNat }
    arguments
  Main.store d outcome.disk
  Main.print outcome.output
  match outcome.ending with
  | .exit status => return UInt32.ofNat status
  | .crashed message => Main.crash message
  | .watching session =>
    Main.follow session outcome.disk
      { manifest := Path.ofNames (session.place outcome.disk) }
