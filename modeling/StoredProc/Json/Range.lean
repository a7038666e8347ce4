import StoredProc.Json.Parser
import StoredProc.Number.Reader

/-!
# Numbers in range

Numbers are kept as they are written, but a document is taken only if each of
its numbers is in the range of the doubles.
-/

namespace StoredProc.Json

/-- Whether a written number is in the range of the doubles. -/
def numberInRange (written : String) : Bool :=
  match Double.read? written with
  | some value => value.isFinite
  | none => false

mutual

/-- Whether all numbers of a value are in range. -/
def inRange : Json → Bool
  | .num written => numberInRange written
  | .arr _ items => itemsInRange items
  | .obj _ members => membersInRange members
  | _ => true

def itemsInRange : List Json → Bool
  | [] => true
  | item :: rest => item.inRange && itemsInRange rest

def membersInRange : List (String × Json) → Bool
  | [] => true
  | (_, value) :: rest => value.inRange && membersInRange rest

end

/-- Read a text that is nothing but a value with its numbers in range. -/
def parseInRange? (source : String) : Option Json :=
  match parse? source with
  | some value => if value.inRange then some value else none
  | none => none

/-- The value of a text as it is written inside another document. -/
def embed? (source : String) : Option Json := (parseInRange? source).map embedded

end StoredProc.Json
