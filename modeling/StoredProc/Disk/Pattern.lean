import StoredProc.Disk.Basic

/-!
# File patterns

A pattern is a path in which `*` stands for any part of a name, `?` for one
character, `[...]` for one of several, `{...,...}` for one of several texts, and
a name `**` for any number of directories. A backslash takes its meaning from
the character after it. A pattern selects files only.
-/

namespace StoredProc

namespace Pattern

/-- Whether an argument is a pattern and not a path. -/
def isPattern (argument : String) : Bool :=
  argument.toList.any ("*?[\x7b".toList.contains ·)

/-- Where a check of a pattern stands: `depth` counts open braces. -/
inductive Check where
  | outside (depth : Nat)
  | escaped (depth : Nat)
  | classStart (depth : Nat)
  | negated (depth : Nat)
  | inClass (depth : Nat)
  | classEscaped (depth : Nat)
  | failed

def Check.step : Check → Char → Check
  | .outside depth, c =>
    if c = '\\' then .escaped depth
    else if c = '[' then .classStart depth
    else if c = '\x7b' then .outside (depth + 1)
    else if c = '\x7d' then (if depth = 0 then .failed else .outside (depth - 1))
    else .outside depth
  | .escaped depth, _ => .outside depth
  | .classStart depth, c =>
    if c = '^' || c = '!' then .negated depth
    else if c = ']' then .failed
    else if c = '\\' then .classEscaped depth
    else .inClass depth
  | .negated depth, c =>
    if c = ']' then .failed
    else if c = '\\' then .classEscaped depth
    else .inClass depth
  | .inClass depth, c =>
    if c = '\\' then .classEscaped depth
    else if c = ']' then .outside depth
    else .inClass depth
  | .classEscaped depth, _ => .inClass depth
  | .failed, _ => .failed

/-- Whether all brackets and braces of a pattern are closed. -/
def isValid (pattern : List Char) : Bool :=
  match pattern.foldl Check.step (.outside 0) with
  | .outside 0 => true
  | _ => false

/-- The choices between braces and what follows them. The choice at hand is
given from its end; `depth` counts braces inside it. -/
def choices (depth : Nat) (current : List Char) : List Char → Option (List (List Char) × List Char)
  | [] => none
  | '\\' :: c :: rest => choices depth (c :: '\\' :: current) rest
  | c :: rest =>
    if c = '\x7d' then
      if depth = 0 then some ([current.reverse], rest)
      else choices (depth - 1) (c :: current) rest
    else if c = ',' && depth = 0 then do
      let (more, after) ← choices 0 [] rest
      return (current.reverse :: more, after)
    else choices (if c = '\x7b' then depth + 1 else depth) (c :: current) rest

/-- The patterns without braces that a pattern stands for. -/
def expand : Nat → List Char → List (List Char)
  | 0, pattern => [pattern]
  | _ + 1, [] => [[]]
  | fuel + 1, c :: rest =>
    if c = '\x7b' then
      match choices 0 [] rest with
      | some (list, after) => list.flatMap fun choice => expand fuel (choice ++ after)
      | none => [c :: rest]
    else if c = '\\' then
      match rest with
      | d :: rest => (expand fuel rest).map fun tail => c :: d :: tail
      | [] => [[c]]
    else (expand fuel rest).map (c :: ·)

/-- A part of the pattern of a name. -/
inductive Token where
  | exact (c : Char)
  | one
  | many
  | oneOf (negated : Bool) (ranges : List (Char × Char))
  deriving Inhabited, Repr

/-- The first character of a text, which a backslash may stand before. -/
def takeEscaped (c : Char) (rest : List Char) : Char × List Char :=
  match c, rest with
  | '\\', d :: more => (d, more)
  | _, _ => (c, rest)

/-- The ranges of a class up to its end, and what follows it. -/
def readClass : Nat → List Char → List (Char × Char) × List Char
  | 0, cs => ([], cs)
  | _ + 1, [] => ([], [])
  | fuel + 1, c :: rest =>
    if c = ']' then ([], rest)
    else
      let (first, rest) := takeEscaped c rest
      let (last, rest) := match rest with
        | '-' :: d :: more => if d = ']' then (first, rest) else takeEscaped d more
        | _ => (first, rest)
      let (ranges, after) := readClass fuel rest
      ((first, last) :: ranges, after)

/-- The tokens of the pattern of a name. -/
def tokens : Nat → List Char → List Token
  | 0, _ => []
  | _ + 1, [] => []
  | fuel + 1, c :: rest =>
    if c = '*' then .many :: tokens fuel rest
    else if c = '?' then .one :: tokens fuel rest
    else if c = '[' then
      let (negated, body) := match rest with
        | '!' :: body => (true, body)
        | '^' :: body => (true, body)
        | body => (false, body)
      let (ranges, after) := readClass (body.length + 1) body
      .oneOf negated ranges :: tokens fuel after
    else
      match c, rest with
      | '\\', d :: more => .exact d :: tokens fuel more
      | _, _ => .exact c :: tokens fuel rest

/-- Whether one character fits a token. -/
def Token.fits : Token → Char → Bool
  | .exact d, c => c = d
  | .one, _ => true
  | .many, _ => false
  | .oneOf negated ranges, c =>
    (ranges.any fun range => range.1 ≤ c && c ≤ range.2) != negated

/-- Whether a name fits tokens. -/
def nameFits : List Token → List Char → Bool
  | [], [] => true
  | [], _ :: _ => false
  | .many :: rest, [] => nameFits rest []
  | .many :: rest, c :: cs => nameFits rest (c :: cs) || nameFits (.many :: rest) cs
  | _ :: _, [] => false
  | token :: rest, c :: cs => token.fits c && nameFits rest cs
termination_by tokens cs => tokens.length + cs.length

/-- The pattern of a name in a path: any directories, or one name. -/
inductive Segment where
  | deep
  | name (tokens : List Token)
  deriving Inhabited, Repr

def segment (pattern : String) : Segment :=
  if pattern = "**" then .deep else .name (tokens (pattern.length + 1) pattern.toList)

/-- Whether the place of a file fits segments. A `**` at the end stands for a
file and the directories it is in. -/
def placeFits : List Segment → List String → Bool
  | [], [] => true
  | [], _ :: _ => false
  | [.deep], place => !place.isEmpty
  | .deep :: next :: rest, [] => placeFits (next :: rest) []
  | .deep :: next :: rest, name :: names =>
    placeFits (next :: rest) (name :: names) || placeFits (.deep :: next :: rest) names
  | .name _ :: _, [] => false
  | .name tokens :: rest, name :: names => nameFits tokens name.toList && placeFits rest names
termination_by segments names => segments.length + names.length

/-- Where the part of a pattern ends that is a directory only: the position of
the last slash before the first character with a meaning of its own. -/
def lastSlash (position : Nat) (found : Option Nat) : List Char → Option Nat
  | [] => found
  | '\\' :: _ :: rest => lastSlash (position + 2) found rest
  | c :: rest =>
    if "*?[\x7b".toList.contains c then found
    else lastSlash (position + 1) (if c = '/' then some position else found) rest

/-- The directory that a pattern starts in, and the pattern from there on. -/
def split (pattern : List Char) : List Char × List Char :=
  match lastSlash 0 none pattern with
  | none => (['.'], pattern)
  | some 0 => (['/'], pattern.drop 1)
  | some position => (pattern.take position, pattern.drop (position + 1))

/-- Why a pattern selects nothing. -/
inductive Error where
  | invalid (pattern : String)
  | noMatch (pattern : String)
  deriving DecidableEq, Inhabited, Repr

def Error.message : Error → String
  | .invalid pattern => "invalid pattern " ++ pattern ++ ": syntax error in pattern"
  | .noMatch pattern => "no manifest matches " ++ pattern

end Pattern

namespace Disk

/-- The files that a pattern selects, in order. -/
def glob (d : Disk) (pattern : String) : Except Pattern.Error (List String) :=
  let (directory, rest) := Pattern.split (Path.clean pattern).toList
  if rest = ['.'] || rest = ['.', '.'] then .ok [Path.clean pattern]
  else if Pattern.isValid rest then
    let patterns := (Pattern.expand (rest.length + 1) rest).map fun plain =>
      (Path.parts '/' (String.ofList plain)).map Pattern.segment
    let found := (d.below (Path.resolve d.cwd (String.ofList directory))).filter fun place =>
      patterns.any (Pattern.placeFits · place)
    .ok ((found.map fun place =>
      Path.join (String.ofList directory) ("/".intercalate place)).mergeSort)
  else .error (.invalid pattern)

/-- The paths that arguments select: each pattern is replaced by the files it
selects, and no path is listed twice. -/
def expandFrom (d : Disk) (paths : List String) : List String → Except Pattern.Error (List String)
  | [] => .ok paths
  | argument :: rest =>
    if Pattern.isPattern argument then
      match d.glob argument with
      | .error cause => .error cause
      | .ok [] => .error (.noMatch argument)
      | .ok found =>
        d.expandFrom (found.foldl (fun paths path =>
          if paths.contains path then paths else paths ++ [path]) paths) rest
    else d.expandFrom (if paths.contains argument then paths else paths ++ [argument]) rest

/-- The paths that arguments select. -/
def expandPatterns (d : Disk) (arguments : List String) : Except Pattern.Error (List String) :=
  d.expandFrom [] arguments

end Disk

end StoredProc
