import StoredProc.Cache.Entry
import StoredProc.Text.Sha256

/-!
# The build cache

A cache has two layers: a database that lasts, and a memory of the entries that
were read or written since it was opened. Entries are found by a key made of the
fingerprint of a manifest and of the version of the stored programs.
-/

namespace StoredProc

/-- A value of the database: what was packed, or bytes that cannot be unpacked. -/
inductive Packed where
  | content (text : String)
  | damaged
  deriving DecidableEq, Inhabited, Repr

/-- The database: values by key, no key twice. -/
abbrev Database := List (String × Packed)

namespace Database

def get? (d : Database) (key : String) : Option Packed := d.lookup key

def put (d : Database) (key : String) (value : Packed) : Database :=
  d.filter (·.1 ≠ key) ++ [(key, value)]

end Database

structure Cache where
  database : Database := []
  memory : List (String × CacheEntry) := []
  isOpen : Bool := true
  deriving Inhabited, Repr

namespace Cache

inductive Error where
  | invalidKey
  | closed
  | corrupted (key : String) (fault : CacheEntry.Fault)
  | unwritable
  deriving DecidableEq, Inhabited, Repr

def Error.message : Error → String
  | .invalidKey => "invalid build cache key"
  | .closed => "build cache is closed"
  | .corrupted key fault => "corrupted build cache entry (" ++ key ++ "): " ++ fault.message
  | .unwritable => unreadable

/-- The version of the stored programs. -/
def formatVersion : String := "conder-bytecode-1"

/-- The key of a manifest. -/
def keyOf (fingerprint : String) : String :=
  Text.sha256 (formatVersion ++ "\x00" ++ fingerprint)

/-! ## Steps on one layer -/

/-- Look an entry up in the memory. -/
def remembered? (c : Cache) (key : String) : Option CacheEntry := c.memory.lookup key

/-- Keep an entry in the memory. -/
def remember (c : Cache) (key : String) (entry : CacheEntry) : Cache :=
  { c with memory := (key, entry) :: c.memory.filter (·.1 ≠ key) }

/-- Forget the memory. -/
def forget (c : Cache) : Cache := { c with memory := [] }

/-- Read an entry from the database. -/
def fetch (c : Cache) (key : String) : Except Error (Option CacheEntry) :=
  if c.isOpen then
    match c.database.get? key with
    | none => .ok none
    | some .damaged => .error (.corrupted key .unreadable)
    | some (.content text) =>
      match CacheEntry.ofContent text with
      | .ok entry => .ok (some entry)
      | .error fault => .error (.corrupted key fault)
  else .error .closed

/-- Write to the database. -/
def store (c : Cache) (key content : String) : Except Error Cache :=
  if c.isOpen then .ok { c with database := c.database.put key (.content content) }
  else .error .closed

/-- Remove all from the database. -/
def wipe (c : Cache) : Except Error Cache :=
  if c.isOpen then .ok { c with database := [] } else .error .closed

/-! ## Operations -/

/-- The entry of a fingerprint. -/
def get (c : Cache) (fingerprint : String) : Except Error (Option CacheEntry) × Cache :=
  if fingerprint.isEmpty then (.error .invalidKey, c)
  else
    let key := keyOf fingerprint
    match c.remembered? key with
    | some entry => (.ok (some entry), c)
    | none =>
      match c.fetch key with
      | .error cause => (.error cause, c)
      | .ok none => (.ok none, c)
      | .ok (some entry) => (.ok (some entry), c.remember key entry)

/-- Set the entry of a fingerprint. -/
def put (c : Cache) (fingerprint : String) (entry : CacheEntry) : Except Error Unit × Cache :=
  if fingerprint.isEmpty then (.error .invalidKey, c)
  else
    match entry.content? with
    | none => (.error .unwritable, c)
    | some content =>
      let key := keyOf fingerprint
      match c.store key content with
      | .error cause => (.error cause, c)
      | .ok stored => (.ok (), stored.remember key entry)

/-- The number of entries of the database. -/
def size (c : Cache) : Except Error Nat :=
  if c.isOpen then .ok c.database.length else .error .closed

/-- Remove all entries. -/
def clear (c : Cache) : Except Error Unit × Cache :=
  match c.wipe with
  | .error cause => (.error cause, c)
  | .ok wiped => (.ok (), wiped.forget)

/-- Close the cache; only the database lasts. -/
def close (c : Cache) : Cache := { c.forget with isOpen := false }

/-- Open the cache of a database. -/
def ofDatabase (database : Database) : Cache := { database }

end Cache

end StoredProc
