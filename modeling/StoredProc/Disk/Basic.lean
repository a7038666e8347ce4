import StoredProc.Cache.Basic
import StoredProc.Disk.Path

/-!
# Disks

A disk holds files by their place, counted from the root, and knows the current
directory. A directory is there if something is in it, if it was made, or if it
leads to the current directory. The database of a build cache is a file of its
own kind.
-/

namespace StoredProc

inductive File where
  | text (content : String)
  | database (entries : Database)
  deriving DecidableEq, Inhabited

structure Disk where
  cwd : List String := []
  files : List (List String × File) := []
  directories : List (List String) := []
  deriving Inhabited

namespace Disk

/-- Why a place cannot be used. -/
inductive Reason where
  | missing
  | isDirectory
  | notDirectory
  deriving DecidableEq, Inhabited, Repr

def Reason.message : Reason → String
  | .missing => "no such file or directory"
  | .isDirectory => "is a directory"
  | .notDirectory => "not a directory"

/-- What failed, and on which path. -/
structure Error where
  action : String
  path : String
  reason : Reason
  deriving DecidableEq, Inhabited, Repr

def Error.message (e : Error) : String := e.action ++ " " ++ e.path ++ ": " ++ e.reason.message

/-- The file at a place. -/
def file? (d : Disk) (place : List String) : Option File := d.files.lookup place

def isFile (d : Disk) (place : List String) : Bool := (d.file? place).isSome

/-- Whether a place is a directory. -/
def isDirectory (d : Disk) (place : List String) : Bool :=
  place.isPrefixOf d.cwd || d.directories.any (place.isPrefixOf ·)
    || d.files.any fun entry => place.isPrefixOf entry.1 && place != entry.1

/-- Go on from a place by a name of a path, which is possible from a directory
only. -/
def enter (d : Disk) (place : List String) (name : String) : Except Reason (List String) :=
  if d.isDirectory place then
    .ok (if name.isEmpty || name = "." then place
      else if name = ".." then place.dropLast
      else place ++ [name])
  else .error (if d.isFile place then .notDirectory else .missing)

/-- The place that a path leads to; nothing need be there. -/
def locate (d : Disk) (path : String) : Except Reason (List String) :=
  if path.isEmpty then .error .missing
  else (Path.parts '/' path).foldlM d.enter (if Path.isAbsolute path then [] else d.cwd)

/-- The file at a path. -/
def openFile (d : Disk) (path : String) : Except Error File :=
  match d.locate path with
  | .error reason => .error ⟨"open", path, reason⟩
  | .ok place =>
    match d.file? place with
    | some file => .ok file
    | none =>
      if d.isDirectory place then .error ⟨"read", path, .isDirectory⟩
      else .error ⟨"open", path, .missing⟩

/-- The text of a file. A database has no text that could be read. -/
def read (d : Disk) (path : String) : Except Error String :=
  (d.openFile path).map fun
    | .text content => content
    | .database _ => "\x00"

/-- Set the file at a place. -/
def set (d : Disk) (place : List String) (file : File) : Disk :=
  { d with files := d.files.filter (·.1 != place) ++ [(place, file)] }

/-- Write a text to a file, which need not be there, in a directory that is. A
slash at the end of a path asks for a directory. -/
def write (d : Disk) (path content : String) : Except Error Disk :=
  match d.locate (path.dropEndWhile (· = '/')).toString with
  | .error reason => .error ⟨"open", path, reason⟩
  | .ok place =>
    if path.endsWith "/" || d.isDirectory place then .error ⟨"open", path, .isDirectory⟩
    else .ok (d.set place (.text content))

/-- The starts of a path that end before a slash, and the path. -/
def pathStarts (path : String) : List String :=
  let names := Path.parts '/' path
  (List.range names.length).map fun count => "/".intercalate (names.take (count + 1))

/-- Make a directory and those that lead to it. -/
def makeDirectory (d : Disk) (path : String) : Except Error Disk :=
  match (pathStarts path).find? fun start =>
      !start.isEmpty && d.isFile (Path.resolve d.cwd start) with
  | some start => .error ⟨"mkdir", start, .notDirectory⟩
  | none => .ok { d with directories := Path.resolve d.cwd path :: d.directories }

/-- The places of all files below a directory, counted from it. -/
def below (d : Disk) (directory : List String) : List (List String) :=
  d.files.filterMap fun entry =>
    if directory.isPrefixOf entry.1 && directory != entry.1 then
      some (entry.1.drop directory.length)
    else none

end Disk

end StoredProc
