import StoredProc.Number.Power
import StoredProc.Number.Reader

/-!
# Versions

A version is one to three numbers with dots between them, perhaps a prerelease
after a hyphen and metadata after a plus sign. A `v` may stand in front. The
manifests of major version one are supported, prereleases excepted.
-/

namespace StoredProc

structure Version where
  major : Nat
  minor : Nat
  patch : Nat
  prerelease : String
  metadata : String
  deriving DecidableEq, Inhabited, Repr

namespace Version

/-- Why a text is not a version. -/
inductive Error where
  | malformed
  | outOfRange (segment : String)
  | leadingZero
  deriving DecidableEq, Inhabited, Repr

def Error.message : Error → String
  | .malformed => "Invalid Semantic Version"
  | .outOfRange segment =>
    "Error parsing version segment: strconv.ParseUint: parsing \"" ++ segment
      ++ "\": value out of range"
  | .leadingZero => "Version segment starts with 0"

def isIdentifierChar (c : Char) : Bool := c.isAlphanum || c = '-'

/-- The dot-separated identifiers of a prerelease or of metadata. -/
def identifiers (text : String) : List String := text.splitToList (· = '.')

/-- Identifiers are not empty and hold letters, digits and hyphens only. -/
def wellFormed (text : String) : Bool :=
  (identifiers text).all fun part => !part.isEmpty && part.toList.all isIdentifierChar

/-- Whether an identifier is a number written with a zero in front. -/
def hasLeadingZero (part : String) : Bool :=
  match part.toList with
  | '0' :: rest => !rest.isEmpty && rest.all Char.isDigit
  | _ => false

/-- The numbers at the start: one, and up to `more` others after dots. -/
def readSegments : Nat → List Char → Option (List String × List Char)
  | more, cs =>
    match cs.span Char.isDigit with
    | ([], _) => none
    | (digits, rest) =>
      match more, rest with
      | more + 1, '.' :: tail =>
        (readSegments more tail).map fun found => (String.ofList digits :: found.1, found.2)
      | _, rest => some ([String.ofList digits], rest)

/-- The texts of the parts: numbers, prerelease and metadata. -/
def split? (text : String) : Option (List String × String × String) := do
  let cs := match text.toList with
    | 'v' :: rest => rest
    | cs => cs
  let (segments, rest) ← readSegments 2 cs
  let (prerelease, rest) ← match rest with
    | '-' :: rest => do
      let part := String.ofList (rest.takeWhile (· ≠ '+'))
      guard (wellFormed part)
      some (part, rest.dropWhile (· ≠ '+'))
    | rest => some ("", rest)
  match rest with
  | [] => some (segments, prerelease, "")
  | '+' :: rest => do
    let metadata := String.ofList rest
    guard (wellFormed metadata)
    some (segments, prerelease, metadata)
  | _ => none

/-- The value of a number of 64 bits. -/
def segmentValue (segment : String) : Except Error Nat :=
  let value := digitsValue segment.toList
  if value < word64Limit then .ok value else .error (.outOfRange segment)

/-- Read a version. -/
def parse (text : String) : Except Error Version :=
  match split? text with
  | none => .error .malformed
  | some (segments, prerelease, metadata) => do
    let major ← segmentValue (segments.getD 0 "0")
    let minor ← segmentValue (segments.getD 1 "0")
    let patch ← segmentValue (segments.getD 2 "0")
    if (identifiers prerelease).any hasLeadingZero then .error .leadingZero
    else return ⟨major, minor, patch, prerelease, metadata⟩

/-- The version with all three numbers. -/
def text (v : Version) : String :=
  v.major.repr ++ "." ++ v.minor.repr ++ "." ++ v.patch.repr
    ++ (if v.prerelease.isEmpty then "" else "-" ++ v.prerelease)
    ++ (if v.metadata.isEmpty then "" else "+" ++ v.metadata)

/-- The constraint that `isSupported` decides. -/
def supported : String := "^1.0.0"

/-- Major version one, no prerelease. -/
def isSupported (v : Version) : Bool := v.major == 1 && v.prerelease.isEmpty

end Version

end StoredProc
