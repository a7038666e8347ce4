import StoredProc.Json.Basic
import StoredProc.Number.Reader
import StoredProc.Number.Shortest

/-!
# Queries

A query is a path of names. In an object a name selects a member; in a list a
number selects an item, and `#` stands for the number of items, or for what the
rest of the path selects in each of them.
-/

namespace StoredProc.Json

/-- The index that a name gives. -/
def index? (name : String) : Option Nat :=
  let digits := name.toList
  if digits.isEmpty || !digits.all Char.isDigit then none else some (digitsValue digits)

/-- The value of a written name. -/
def member? (name : String) (members : List (String × Json)) : Option Json :=
  (members.find? fun member => unescape? member.1 == some name).map Prod.snd

/-- What a path of names selects. -/
def select? : List String → Json → Option Json
  | [], value => some value
  | name :: rest, .obj _ members => (member? name members).bind (select? rest)
  | name :: rest, .arr _ items =>
    if name = "#" then
      if rest.isEmpty then some (.nat items.length)
      else some (.array (items.filterMap (select? rest)))
    else (index? name).bind fun index => items[index]?.bind (select? rest)
  | _, _ => none

/-- What a dotted path selects. -/
def query? (path : String) (value : Json) : Option Json :=
  select? (path.splitToList (· = '.')) value

/-- The parts of a value with their names; those of a list are numbered, and any
other value is its own only part. -/
def parts : Json → List (String × Json)
  | .obj _ members => members.map fun member => ((unescape? member.1).getD member.1, member.2)
  | .arr _ items => items.zipIdx.map fun (item, index) => (index.repr, item)
  | value => [("", value)]

/-- A number as a text: integers stay as they are written, others are written
without an exponent. -/
def plainNumber (written : String) : String :=
  if (takeSign written.toList).2.all Char.isDigit then written
  else (((Double.read? written).bind Double.positionalText?).getD written)

/-- A value as a text. -/
def plain : Json → String
  | .null => ""
  | .str written => (unescape? written).getD written
  | .num written => plainNumber written
  | value => value.text

end StoredProc.Json
