import StoredProc.Config.File
import StoredProc.Disk.Basic

/-!
# Where settings are found

The environment says where settings files and caches are kept: in directories of
the user and of the system. A directory counts only if its path is absolute. The
first settings file that is there is read; without one the defaults hold. The
variables of the environment come last.
-/

namespace StoredProc.Config

/-- The name of the directories of this program. -/
def directoryName : String := "conder"

/-- An absolute path in a variable, or else a directory of the user. -/
def userDirectory (env : Environment) (name fallback : String) : String :=
  let usual := Path.join ((env.lookup "HOME").getD "") fallback
  match env.lookup name with
  | some path => if Path.isAbsolute path then path else usual
  | none => usual

/-- The directories of settings files: that of the user, then those of the
system. -/
def settingsDirectories (env : Environment) : List String :=
  let system := (Path.parts ':' ((env.lookup "XDG_CONFIG_DIRS").getD "")).filter Path.isAbsolute
  userDirectory env "XDG_CONFIG_HOME" ".config" :: (if system.isEmpty then ["/etc/xdg"] else system)

/-- The directory of the cache, unless it is set. -/
def defaultCacheDir (env : Environment) : String :=
  Path.join (userDirectory env "XDG_CACHE_HOME" ".cache") directoryName

def defaults (env : Environment) : Config := { cacheDir := defaultCacheDir env }

/-- The settings file to read. -/
def findFile? (d : Disk) (env : Environment) : Option String :=
  ((settingsDirectories env).map fun directory =>
    Path.join directory (directoryName ++ "/config.yaml")).find? fun path =>
      let place := Path.resolve d.cwd path
      d.isFile place || d.isDirectory place

/-- Why there are no settings. -/
inductive LoadError where
  | file (cause : Disk.Error)
  | invalid (cause : Config.Error)
  deriving Inhabited, Repr

def LoadError.message (unreadable : String) : LoadError → String
  | .file cause => cause.message
  | .invalid cause => cause.message unreadable

/-- The settings of a settings file, or the defaults. -/
def loadFile (d : Disk) (env : Environment) : Except LoadError Config :=
  match findFile? d env with
  | none => .ok (defaults env)
  | some path =>
    match d.read path with
    | .error cause => .error (.file cause)
    | .ok content => (ofFile (defaults env) path content).mapError .invalid

/-- The settings that hold. -/
def load (d : Disk) (env : Environment) : Except LoadError Config := do
  let c ← loadFile d env
  (c.applyEnv env).mapError .invalid

/-- The directory of the cache that settings mean. -/
def cacheDirectory (c : Config) (env : Environment) : String :=
  if c.cacheDir.isEmpty then defaultCacheDir env else c.cacheDir

end StoredProc.Config
