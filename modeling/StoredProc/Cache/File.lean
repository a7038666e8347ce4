import StoredProc.Disk.Basic

/-!
# The cache on a disk

The database of the cache is one file in the directory of the cache. Opening the
cache makes the directory and the file if they are not there; an empty file
becomes a database too.
-/

namespace StoredProc

/-- An open cache and the place of its database. -/
structure CacheFile where
  path : String
  place : List String
  cache : Cache
  deriving Inhabited

namespace CacheFile

/-- The name of the database in the directory of the cache. -/
def fileName : String := "programs.bbolt"

/-- Why a cache cannot be opened. -/
inductive OpenError where
  | directory (cause : Disk.Error)
  | file (cause : Disk.Error)
  | notDatabase
  deriving DecidableEq, Inhabited, Repr

def OpenError.message : OpenError → String
  | .directory cause => "failed to create the build cache directory: " ++ cause.message
  | .file cause => cause.message
  | .notDatabase => "invalid database"

/-- The database at a place; nothing and an empty file make an empty one. -/
def databaseAt (d : Disk) (path : String) : Except OpenError Database :=
  match d.file? (Path.resolve d.cwd path) with
  | some (.database entries) => .ok entries
  | some (.text content) => if content.isEmpty then .ok [] else .error .notDatabase
  | none =>
    if d.isDirectory (Path.resolve d.cwd path) then .error (.file ⟨"open", path, .isDirectory⟩)
    else .ok []

/-- Write the database to its disk. -/
def save (f : CacheFile) (d : Disk) : Disk := d.set f.place (.database f.cache.database)

/-- Open the cache of a directory. -/
def openIn (d : Disk) (directory : String) : Except OpenError (CacheFile × Disk) := do
  let d ← (d.makeDirectory directory).mapError .directory
  let path := Path.join directory fileName
  let database ← databaseAt d path
  let file : CacheFile :=
    { path, place := Path.resolve d.cwd path, cache := Cache.ofDatabase database }
  return (file, file.save d)

end CacheFile

end StoredProc
