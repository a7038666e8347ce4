import StoredProc.DataType.Codec
import StoredProc.Json.Range
import StoredProc.Machine.Program
import StoredProc.Tree.Codec

/-!
# Cache entries

An entry keeps a program document and the sizes of its frames. It is stored as
a JSON object, in which the document is a value like any other.
-/

namespace StoredProc

/-- The time of an entry whose time is not known. -/
def CacheEntry.noTime : String := "0001-01-01T00:00:00Z"

structure CacheEntry where
  document : String
  frameSizes : Option (List (String × Int)) := none
  compiledAt : String := CacheEntry.noTime
  deriving DecidableEq, Inhabited, Repr

namespace CacheEntry

/-- Why a stored value is no entry. -/
inductive Fault where
  | unreadable
  | emptyDocument
  deriving DecidableEq, Inhabited, Repr

def Fault.message : Fault → String
  | .unreadable => StoredProc.unreadable
  | .emptyDocument => "empty document"

/-- The entry of a program, if all payloads have a JSON form. -/
def ofProgram? (p : Program) (compiledAt : String) : Option CacheEntry :=
  p.text?.map fun document => { document, frameSizes := some p.frames, compiledAt }

/-- The JSON form of frame sizes. -/
def frameSizesJson : Option (List (String × Int)) → Json
  | none => .null
  | some sizes => .dictionary (sizes.map fun entry => (entry.1, .int entry.2))

/-- The stored form of an entry, unless its document is not a value. -/
def content? (entry : CacheEntry) : Option String :=
  (Json.embed? entry.document).map fun document =>
    (Json.object [("document", document), ("frameSizes", frameSizesJson entry.frameSizes),
      ("compiledAt", .string entry.compiledAt)]).text

/-- A size; `null` stands for zero. -/
def readSize? : Json → Option Int
  | .null => some 0
  | value => value.int64?

/-- Set the size of a frame. -/
def setSize (sizes : List (String × Int)) (name : String) (size : Int) : List (String × Int) :=
  sizes.filter (·.1 ≠ name) ++ [(name, size)]

/-- The sizes among the members of an object, over those known. -/
def readSizes? (known : List (String × Int)) : List (String × Json) → Option (List (String × Int))
  | [] => some known
  | (name, value) :: rest => do
    let name ← Json.unescape? name
    let size ← readSize? value
    readSizes? (setSize known name size) rest

/-- The frame sizes among the members of an entry. Several add up. -/
def readFrameSizes? (members : List (String × Json)) : Option (Option (List (String × Int))) :=
  members.foldlM (fun known (name, value) =>
    if Json.named "frameSizes" name then
      match value with
      | .null => some none
      | .obj _ sizes => (readSizes? (known.getD []) sizes).map some
      | _ => none
    else some known) none

/-- Two decimal digits within a limit, and the rest. -/
def takePair? (least most : Nat) : List Char → Option (Nat × List Char)
  | a :: b :: rest =>
    if a.isDigit && b.isDigit then
      let value := digitsValue [a, b]
      if least ≤ value && value ≤ most then some (value, rest) else none
    else none
  | _ => none

/-- A given character, and the rest. -/
def takeChar? (c : Char) : List Char → Option (List Char)
  | d :: rest => if c = d then some rest else none
  | [] => none

/-- The number of days of a month. -/
def daysIn (year month : Nat) : Nat :=
  if month = 2 then
    if year % 4 = 0 && (year % 100 ≠ 0 || year % 400 = 0) then 29 else 28
  else if [4, 6, 9, 11].contains month then 30 else 31

/-- A fraction of a second may follow the seconds. -/
def skipFraction (cs : List Char) : Option (List Char) :=
  match cs with
  | c :: rest =>
    if c = '.' || c = ',' then
      if (rest.takeWhile Char.isDigit).isEmpty then none else some (rest.dropWhile Char.isDigit)
    else some cs
  | [] => some []

/-- The zone at the end of a time. -/
def isZone : List Char → Bool
  | ['Z'] => true
  | sign :: rest =>
    (sign = '+' || sign = '-') &&
      ((do
        let (_, rest) ← takePair? 0 24 rest
        let rest ← takeChar? ':' rest
        let (_, rest) ← takePair? 0 60 rest
        guard rest.isEmpty) : Option Unit).isSome
  | [] => false

/-- Whether a text is a point in time: a date, the hour and a zone. -/
def isTime (text : String) : Bool :=
  ((do
    let (century, rest) ← takePair? 0 99 text.toList
    let (year, rest) ← takePair? 0 99 rest
    let rest ← takeChar? '-' rest
    let (month, rest) ← takePair? 1 12 rest
    let rest ← takeChar? '-' rest
    let (_, rest) ← takePair? 1 (daysIn (century * 100 + year) month) rest
    let rest ← takeChar? 'T' rest
    let (_, rest) ← takePair? 0 23 rest
    let rest ← takeChar? ':' rest
    let (_, rest) ← takePair? 0 59 rest
    let rest ← takeChar? ':' rest
    let (_, rest) ← takePair? 0 59 rest
    let rest ← skipFraction rest
    guard (isZone rest)) : Option Unit).isSome

/-- Whether a member may be the time of an entry. -/
def isTimeOrNull : Json → Bool
  | .null => true
  | .str written => isTime written
  | _ => false

/-- Read an entry from the members of its stored form. -/
def ofMembers (members : List (String × Json)) : Except Fault CacheEntry :=
  match Json.soundNames members, readFrameSizes? members,
      Json.allNamed "compiledAt" isTimeOrNull members with
  | true, some frameSizes, true =>
    match Json.last? "document" members with
    | some document =>
      .ok { document := document.text
            frameSizes
            compiledAt := match Json.last? "compiledAt" members with
              | some (.str written) => written
              | _ => noTime }
    | none => .error .emptyDocument
  | _, _, _ => .error .unreadable

/-- Read an entry from its stored form. -/
def ofContent (content : String) : Except Fault CacheEntry :=
  match Json.parse? content with
  | some .null => ofMembers []
  | some (.obj _ members) => ofMembers members
  | _ => .error .unreadable

end CacheEntry

end StoredProc
