/-!
# Paths

A path is a list of names divided by slashes. Cleaning drops empty names and
single dots and lets two dots cancel the name before them; it looks at nothing
but the text.
-/

namespace StoredProc.Path

/-- The parts between the places of a character; there is always one. -/
def partsFrom (divider : Char) : List Char → List (List Char)
  | [] => [[]]
  | c :: rest =>
    if c = divider then [] :: partsFrom divider rest
    else
      match partsFrom divider rest with
      | part :: parts => (c :: part) :: parts
      | [] => [[c]]

/-- The parts of a text between the places of a character. -/
def parts (divider : Char) (text : String) : List String :=
  (partsFrom divider text.toList).map String.ofList

def isAbsolute (path : String) : Bool := path.startsWith "/"

/-- Put a name behind cleaned names, which are given from their end. -/
def pushName (absolute : Bool) (names : List String) (name : String) : List String :=
  if name.isEmpty || name = "." then names
  else if name = ".." then
    match names with
    | last :: before => if last = ".." then ".." :: names else before
    | [] => if absolute then [] else [".."]
  else name :: names

/-- The cleaned names of a path. -/
def names (path : String) : List String :=
  ((parts '/' path).foldl (pushName (isAbsolute path)) []).reverse

/-- The path of an absolute list of names. -/
def ofNames (names : List String) : String := "/" ++ "/".intercalate names

/-- The shortest path that means the same. -/
def clean (path : String) : String :=
  if isAbsolute path then ofNames (names path)
  else
    match names path with
    | [] => "."
    | list => "/".intercalate list

/-- Join two paths. -/
def join (directory path : String) : String :=
  if directory.isEmpty then (if path.isEmpty then "" else clean path)
  else clean (directory ++ "/" ++ path)

/-- The last name of a path. -/
def base (path : String) : String :=
  if path.isEmpty then "."
  else
    match ((parts '/' path).filter (!·.isEmpty)).getLast? with
    | some name => name
    | none => "/"

/-- The names of a path from the root on; a relative path starts at `cwd`. -/
def resolve (cwd : List String) (path : String) : List String :=
  if isAbsolute path then names path else names (ofNames cwd ++ "/" ++ path)

end StoredProc.Path
