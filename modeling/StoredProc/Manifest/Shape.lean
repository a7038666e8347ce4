import StoredProc.Json.Parser
import StoredProc.Number.Shortest
import StoredProc.Number.Reader

/-!
# The shape of a manifest document

Before its entities are read, a manifest is checked as a plain JSON value:
which members must be there, what JSON types they have, and how names look.
Every violation is noted with the place where it occurs. Nothing more is
checked of a value that has the wrong type. Member names count as they are
written, and the last of several members of one name counts.
-/

namespace StoredProc

namespace Json

/-- The value of the last member with exactly this name. -/
def get? (name : String) : List (String × Json) → Option Json
  | [] => none
  | (key, value) :: rest =>
    match get? name rest with
    | some found => some found
    | none => if unescape? key == some name then some value else none

/-- The sign and the size of a written number, zeros stripped from both ends
of its digits. Equal numbers have equal forms. -/
def numberForm (text : String) : Bool × Decimal :=
  let (negative, cs) := takeSign text.toList
  let (m, rest) := Double.readMantissa false {} cs
  let exponent := match rest with
    | _ :: tail =>
      let (negative, digits) := takeSign tail
      let size : Int := digitsValue digits
      if negative then -size else size
    | [] => 0
  if m.value = 0 then (false, ⟨0, 0⟩)
  else (negative, (Decimal.mk m.value (exponent - m.places.getD 0)).stripZeros m.count)

mutual

/-- Whether two values are equal: numbers by value, objects as maps. -/
def same : Json → Json → Bool
  | .null, .null => true
  | .bool a, .bool b => a == b
  | .num a, .num b => numberForm a == numberForm b
  | .str a, .str b => unescape? a == unescape? b
  | .arr _ items, .arr _ others => sameItems items others
  | .obj _ members, .obj _ others =>
    sameMembers members others && others.all fun other =>
      members.any fun member => unescape? member.1 == unescape? other.1
  | _, _ => false

def sameItems : List Json → List Json → Bool
  | [], [] => true
  | item :: rest, other :: others => item.same other && sameItems rest others
  | _, _ => false

/-- Every member that is not followed by another of its name has an equal one
on the other side. -/
def sameMembers : List (String × Json) → List (String × Json) → Bool
  | [], _ => true
  | (key, value) :: rest, others =>
    ((rest.any fun later => unescape? later.1 == unescape? key) ||
      (match (unescape? key).bind (get? · others) with
        | some other => value.same other
        | none => false)) && sameMembers rest others

end

end Json

namespace Manifest

/-- The checks a value can fail. -/
inductive Keyword where
  | type
  | required
  | enum
  | pattern
  | additionalProperties
  | uniqueItems
  deriving DecidableEq, Repr

def Keyword.name : Keyword → String
  | type => "type"
  | required => "required"
  | enum => "enum"
  | pattern => "pattern"
  | additionalProperties => "additionalProperties"
  | uniqueItems => "uniqueItems"

/-- A failed check and the path to the value that failed it. -/
structure Violation where
  path : List String
  keyword : Keyword
  deriving DecidableEq, Repr

/-- The path of a violation with slashes, and the check. -/
def Violation.describe (v : Violation) : String :=
  String.join (v.path.map ("/" ++ ·)) ++ " " ++ v.keyword.name

/-- A check of a value at a path. -/
abbrev Check := List String → Json → List Violation

namespace Check

/-- Nothing to check. -/
def anything : Check := fun _ _ => []

/-- An object that has the required members and passes the other checks. -/
def object (required : List String) (checks : List (String × Json) → List String → List Violation) :
    Check := fun path value =>
  match value with
  | .obj _ members =>
    (if required.all fun name => (Json.get? name members).isSome then []
      else [⟨path, .required⟩]) ++ checks members path
  | _ => [⟨path, .type⟩]

/-- Check a member if it is there. -/
def member (name : String) (check : Check) (members : List (String × Json)) (path : List String) :
    List Violation :=
  match Json.get? name members with
  | some value => check (path ++ [name]) value
  | none => []

/-- A list whose items all pass a check. -/
def list (check : Check) : Check := fun path value =>
  match value with
  | .arr _ items => items.zipIdx.flatMap fun (item, i) => check (path ++ [i.repr]) item
  | _ => [⟨path, .type⟩]

/-- A list of distinct items. -/
def distinct : Check := fun path value =>
  match value with
  | .arr _ items =>
    let repeated := items.zipIdx.any fun (item, i) => (items.take i).any item.same
    if repeated then [⟨path, .uniqueItems⟩] else []
  | _ => []

/-- A text. -/
def text : Check := fun path value =>
  match value with
  | .str _ => []
  | _ => [⟨path, .type⟩]

/-- One of the given texts, whatever the type of the value. -/
def oneOf (texts : List String) : Check := fun path value =>
  match value.string? with
  | some s => if texts.contains s then [] else [⟨path, .enum⟩]
  | none => [⟨path, .enum⟩]

end Check

/-- A letter or an underscore, followed by letters, digits and underscores. -/
def isName (s : String) : Bool :=
  match s.toList with
  | c :: rest => (c.isAlpha || c = '_') && rest.all fun c => c.isAlphanum || c = '_'
  | [] => false

/-- A name. -/
def nameCheck : Check := fun path value =>
  match value with
  | .str written => if (Json.unescape? written).any isName then [] else [⟨path, .pattern⟩]
  | _ => [⟨path, .type⟩]

/-- The kinds of types. -/
def typeKinds : List String :=
  ["string", "int", "double", "bool", "Object", "Array", "Optional", "Ref", "Any", "none"]

/-- A type document, as far as its kind. -/
def typeCheck : Check :=
  .object ["kind"] fun members path => Check.member "kind" (.oneOf typeKinds) members path

/-- Whether an entity may be one of these kinds: it says so or says nothing. -/
def mayBe (kinds : List String) (members : List (String × Json)) : Bool :=
  match Json.get? "kind" members with
  | none => true
  | some value => value.string?.any kinds.contains

/-- The checks that depend on the kind of an entity. -/
def kindChecks (members : List (String × Json)) (path : List String) : List Violation :=
  let required (name : String) : List Violation :=
    if (Json.get? name members).isSome then [] else [⟨path, .required⟩]
  (if mayBe ["Struct", "HierarchicalStore"] members then
    required "schema" ++ Check.member "schema" typeCheck members path else []) ++
  (if mayBe ["Enum"] members then
    required "variants" ++
      Check.member "variants" (fun path value =>
        Check.list nameCheck path value ++ Check.distinct path value) members path else []) ++
  (if mayBe ["Function"] members then
    required "body" ++
      Check.member "parameter" (.object ["name"] fun members path =>
        Check.member "name" nameCheck members path ++
        Check.member "type" typeCheck members path) members path ++
      Check.member "body" (.list .anything) members path else [])

/-- An entity. -/
def entityCheck : Check :=
  .object ["kind", "name"] fun members path =>
    Check.member "kind" (.oneOf ["Struct", "Enum", "Function", "HierarchicalStore"]) members path ++
    Check.member "name" nameCheck members path ++
    kindChecks members path

/-- A manifest: a version, a list of entities, and nothing else. -/
def manifestCheck : Check :=
  .object ["version", "entities"] fun members path =>
    Check.member "version" .text members path ++
    Check.member "entities" (.list entityCheck) members path ++
    (if members.all fun (name, _) =>
        ["version", "entities"].contains ((Json.unescape? name).getD "")
      then [] else [⟨path, .additionalProperties⟩])

/-- The violations of a document, described, each once and in order. -/
def violations (document : Json) : List String :=
  ((manifestCheck [] document).map Violation.describe).eraseDups.mergeSort

end Manifest

end StoredProc
