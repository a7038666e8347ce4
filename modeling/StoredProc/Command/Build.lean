import StoredProc.Cache.File
import StoredProc.Command.Flags
import StoredProc.Compile.Batch
import StoredProc.Config.Search
import StoredProc.Manifest.Codec

/-!
# Builds

A builder compiles manifests from a disk. It looks a manifest up in the cache
first, by its fingerprint, and keeps there what it compiles; only whole programs
are kept. Without a cache it compiles always, and so it does when it traces.
-/

namespace StoredProc

/-- What flags say about builds. -/
structure BuildOptions where
  workers : Int
  noCache : Bool
  logLevel : String
  logFormat : String
  deriving DecidableEq, Inhabited, Repr

/-- What arguments say about builds; the settings hold where they say nothing. -/
def BuildOptions.ofArguments (c : Config) (a : Arguments) : BuildOptions :=
  { workers := a.intOf "workers" c.workers
    noCache := a.boolOf "no-cache" c.noCache
    logLevel := a.textOf "log-level" c.logLevel
    logFormat := a.textOf "log-format" c.logFormat }

/-- Why a manifest has no program. -/
inductive BuildError where
  | file (cause : Disk.Error)
  | manifest (path : String) (cause : Manifest.Error)
  | registry (cause : Registry.Error)
  | functions (failures : List FunctionError)
  | unwritable

/-- A program and where it comes from. -/
structure BuildResult where
  functionCount : Nat
  document : String
  frameSizes : List (String × Int)
  fromCache : Bool := false
  deriving Inhabited, Repr

structure Builder where
  options : BuildOptions
  logger : Logger
  cache : Option CacheFile := none
  traced : Bool := false
  deriving Inhabited

/-- The sources of log events. -/
def LogEvent.commandSource : String := "cli"

def LogEvent.cacheSource : String := "buildcache"

namespace Builder

/-- A builder for the given options, its disk, and what it logs. A cache that
cannot be opened is done without. -/
def ofOptions (options : BuildOptions) (d : Disk) (cacheDirectory time : String) :
    Except Logger.Error (Builder × Disk × String) := do
  let logger ← Logger.ofNames options.logLevel options.logFormat time
  if options.noCache then return ({ options, logger }, d, "")
  match CacheFile.openIn d cacheDirectory with
  | .error cause =>
    return ({ options, logger }, d, logger.write
      { level := .warn, fields := [("error", cause.message)], message := "build cache disabled" })
  | .ok (file, d) =>
    return ({ options, logger, cache := some file }, d,
      (logger.ofSource LogEvent.cacheSource).write
        { level := .debug, fields := [("path", file.path)], message := "build cache opened" })

/-- The cache that is used. -/
def activeCache? (b : Builder) : Option CacheFile := if b.traced then none else b.cache

/-- Log an event of the commands. -/
def warn (b : Builder) (message : String) (cause : Cache.Error) : String :=
  (b.logger.ofSource LogEvent.commandSource).write
    { level := .warn, fields := [("error", cause.message)], message }

/-- Log what a look into the database gave. What is in the memory is not logged. -/
def lookupLog (b : Builder) (c : Cache) (fingerprint message : String) : String :=
  let key := Cache.keyOf fingerprint
  match c.remembered? key with
  | some _ => ""
  | none =>
    (b.logger.ofSource LogEvent.cacheSource).write
      { level := .debug, fields := [("key", key)], message }

/-- Look a manifest up. -/
def lookup (b : Builder) (fingerprint : String) : Option CacheEntry × Builder × String :=
  match b.activeCache? with
  | none => (none, b, "")
  | some file =>
    let (found, cache) := file.cache.get fingerprint
    let after := { b with cache := some { file with cache } }
    match found with
    | .error cause => (none, after, b.warn "failed to read the build cache" cause)
    | .ok none => (none, after, b.lookupLog file.cache fingerprint "miss")
    | .ok (some entry) => (some entry, after, b.lookupLog file.cache fingerprint "hit")

/-- Keep an entry. -/
def keep (b : Builder) (fingerprint : String) (entry : CacheEntry) : Builder × String :=
  match b.activeCache? with
  | none => (b, "")
  | some file =>
    let (done, cache) := file.cache.put fingerprint entry
    let after := { b with cache := some { file with cache } }
    match done with
    | .error cause => (after, b.warn "failed to write the build cache" cause)
    | .ok () => (after, "")

/-- Compile a manifest. -/
def compile (m : Manifest) : Except BuildError CacheEntry :=
  match m.compile with
  | .error cause => .error (.registry cause)
  | .ok build =>
    if build.isComplete then
      match CacheEntry.ofProgram? build.program CacheEntry.noTime with
      | some entry => .ok entry
      | none => .error .unwritable
    else .error (.functions build.failures)

/-- Compile a manifest and keep its program. -/
def compileAndKeep (b : Builder) (m : Manifest) :
    Except BuildError CacheEntry × Builder × String :=
  let trace := if b.traced then m.trace else ""
  match compile m with
  | .error cause => (.error cause, b, trace)
  | .ok entry =>
    let (b, log) := b.keep m.fingerprint entry
    (.ok entry, b, trace ++ log)

/-- Read the manifest at a path. -/
def readManifest (d : Disk) (path : String) : Except BuildError Manifest :=
  match d.read path with
  | .error cause => .error (.file cause)
  | .ok content => (Manifest.parse content (.ofPath path)).mapError (.manifest path)

/-- The result that an entry gives for a manifest. -/
def resultOf (m : Manifest) (entry : CacheEntry) (fromCache : Bool) : BuildResult :=
  { functionCount := m.functions.length
    document := entry.document
    frameSizes := entry.frameSizes.getD []
    fromCache }

/-- Build the manifest at a path. The text is what is logged and traced. -/
def build (b : Builder) (d : Disk) (path : String) :
    Except BuildError BuildResult × Builder × String :=
  match readManifest d path with
  | .error cause => (.error cause, b, "")
  | .ok m =>
    match b.lookup m.fingerprint with
    | (some entry, b, log) => (.ok (resultOf m entry true), b, log)
    | (none, b, log) =>
      let (compiled, b, more) := b.compileAndKeep m
      (compiled.map (resultOf m · false), b, log ++ more)

/-- Write the database of the cache to the disk. -/
def close (b : Builder) (d : Disk) : Disk :=
  match b.cache with
  | some file => file.save d
  | none => d

end Builder

end StoredProc
