import StoredProc.Cache.Basic

/-!
# Stored databases

A database is stored as a line that names its form, and a JSON object of its
values by key. Values that cannot be unpacked are stored as `null`.
-/

namespace StoredProc.Database

/-- The first line of a stored database. -/
def header : String := "program cache 1\n"

def valueJson : Packed → Json
  | .content text => .string text
  | .damaged => .null

def value? : Json → Option Packed
  | .null => some .damaged
  | value => value.string?.map .content

/-- The stored form of a database. -/
def encode (d : Database) : String :=
  header ++ (Json.object (d.map fun entry => (entry.1, valueJson entry.2))).text ++ "\n"

/-- The values among the members of a stored object. -/
def ofMembers? : List (String × Json) → Option Database
  | [] => some []
  | (name, value) :: rest => do
    let key ← Json.unescape? name
    let value ← value? value
    let more ← ofMembers? rest
    return (key, value) :: more

/-- The database of a stored form. -/
def decode? (source : String) : Option Database :=
  if header.isPrefixOf source then
    match Json.parse? (source.drop header.length).toString with
    | some (.obj _ members) => ofMembers? members
    | _ => none
  else none

end StoredProc.Database
