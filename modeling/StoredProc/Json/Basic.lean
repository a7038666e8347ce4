import StoredProc.Text.Quoted

/-!
# JSON values as they are written

A value keeps its spelling: a number is its text, a string keeps its escapes,
and a list or an object keeps the text it was read from beside its parts. The
spelling matters, because a number literal of a program is the text of a JSON
value, and because a document is identified by its text. Values built by the
program get the compact spelling.
-/

namespace StoredProc

/-- A JSON value together with its spelling. `str` holds the text between the
quotes with its escapes; so do the names of object members. -/
inductive Json where
  | null
  | bool (value : Bool)
  | num (text : String)
  | str (written : String)
  | arr (source : String) (items : List Json)
  | obj (source : String) (members : List (String × Json))
  deriving Inhabited, Repr

namespace Json

/-- The text of a value. -/
def text : Json → String
  | null => "null"
  | bool true => "true"
  | bool false => "false"
  | num text => text
  | str written => "\"" ++ written ++ "\""
  | arr source _ => source
  | obj source _ => source

/-! ## Escapes -/

/-- The spelling of one character inside a written string. The characters
that would end an HTML text or a script line are spelled by their code point. -/
def escapeChar (c : Char) : List Char :=
  if c = '"' then ['\\', '"']
  else if c = '\\' then ['\\', '\\']
  else if c = '\n' then ['\\', 'n']
  else if c = '\r' then ['\\', 'r']
  else if c = '\t' then ['\\', 't']
  else if c.toNat < 0x20 || c = '<' || c = '>' || c = '&' || c.toNat = 0x2028
      || c.toNat = 0x2029 then
    '\\' :: 'u' :: Text.hexDigits 4 c.toNat
  else [c]

/-- The spelling of a string, without its quotes. -/
def escape (s : String) : String :=
  String.ofList (s.toList.flatMap escapeChar)

/-- The value of a hexadecimal digit. -/
def hexValue? (c : Char) : Option Nat :=
  if '0' ≤ c ∧ c ≤ '9' then some (c.toNat - '0'.toNat)
  else if 'a' ≤ c ∧ c ≤ 'f' then some (c.toNat - 'a'.toNat + 10)
  else if 'A' ≤ c ∧ c ≤ 'F' then some (c.toNat - 'A'.toNat + 10)
  else none

/-- The code unit spelled by four hexadecimal digits. -/
def unit? (a b c d : Char) : Option Nat := do
  let a ← hexValue? a
  let b ← hexValue? b
  let c ← hexValue? c
  let d ← hexValue? d
  return ((a * 16 + b) * 16 + c) * 16 + d

def isHighSurrogate (unit : Nat) : Bool := 0xd800 ≤ unit && unit < 0xdc00

def isLowSurrogate (unit : Nat) : Bool := 0xdc00 ≤ unit && unit < 0xe000

/-- The character of a lone code unit: a surrogate has none and becomes the
replacement character. -/
def ofUnit (unit : Nat) : Char :=
  if 0xd800 ≤ unit && unit < 0xe000 then Char.ofNat 0xfffd else Char.ofNat unit

/-- The character after a backslash, for the escapes of one letter. -/
def shortEscape? : Char → Option Char
  | '"' => some '"'
  | '\\' => some '\\'
  | '/' => some '/'
  | 'b' => some (Char.ofNat 8)
  | 'f' => some (Char.ofNat 12)
  | 'n' => some '\n'
  | 'r' => some '\r'
  | 't' => some '\t'
  | _ => none

/-- Read the escapes of a written string. The argument `high` is a high
surrogate that was read just before and waits for its other half. -/
def unescapeFrom (high : Option Nat) : List Char → Option (List Char)
  | [] => some (high.toList.map ofUnit)
  | '\\' :: 'u' :: a :: b :: c :: d :: rest => do
    let unit ← unit? a b c d
    match high with
    | some first =>
      if isLowSurrogate unit then
        let c := Char.ofNat ((first - 0xd800) * 0x400 + (unit - 0xdc00) + 0x10000)
        (unescapeFrom none rest).map (c :: ·)
      else if isHighSurrogate unit then
        (unescapeFrom (some unit) rest).map (ofUnit first :: ·)
      else
        (unescapeFrom none rest).map fun tail => ofUnit first :: ofUnit unit :: tail
    | none =>
      if isHighSurrogate unit then unescapeFrom (some unit) rest
      else (unescapeFrom none rest).map (ofUnit unit :: ·)
  | '\\' :: e :: rest => do
    let c ← shortEscape? e
    (unescapeFrom none rest).map fun tail => high.toList.map ofUnit ++ c :: tail
  | c :: rest =>
    if c = '\\' then none
    else (unescapeFrom none rest).map fun tail => high.toList.map ofUnit ++ c :: tail

/-- The string that a written string stands for, if its escapes are sound. -/
def unescape? (written : String) : Option String :=
  (unescapeFrom none written.toList).map String.ofList

/-! ## Values with the compact spelling -/

def string (s : String) : Json := .str (escape s)

def nat (n : Nat) : Json := .num (Nat.repr n)

def int : Int → Json
  | .ofNat n => nat n
  | .negSucc n => .num ("-" ++ Nat.repr (n + 1))

/-- A list with the compact spelling around the spellings of its items. -/
def array (items : List Json) : Json :=
  .arr ("[" ++ ",".intercalate (items.map text) ++ "]") items

/-- The text of one member of an object. -/
def memberText (member : String × Json) : String :=
  "\"" ++ member.1 ++ "\":" ++ member.2.text

/-- An object with the compact spelling; the names are already written. -/
def written (members : List (String × Json)) : Json :=
  .obj ("\x7b" ++ ",".intercalate (members.map memberText) ++ "\x7d") members

/-- An object whose members keep the given order. -/
def object (members : List (String × Json)) : Json :=
  written (members.map fun member => (escape member.1, member.2))

/-- The spelling of a name with its quotes, which decides its place in a
dictionary. -/
def dictionaryKey (member : String × Json) : String := "\"" ++ member.1 ++ "\""

/-- An object whose members are in the order of their written names, quotes
and escapes included. -/
def dictionary (members : List (String × Json)) : Json :=
  written ((members.map fun member => (escape member.1, member.2)).mergeSort
    fun a b => dictionaryKey a ≤ dictionaryKey b)

/-! ## Respelling -/

mutual

/-- The same value in the compact spelling, every written string and name
changed by `spell`. -/
def respell (spell : String → String) : Json → Json
  | .null => .null
  | .bool value => .bool value
  | .num text => .num text
  | .str written => .str (spell written)
  | .arr _ items => array (respellItems spell items)
  | .obj _ members => written (respellMembers spell members)

def respellItems (spell : String → String) : List Json → List Json
  | [] => []
  | item :: rest => item.respell spell :: respellItems spell rest

def respellMembers (spell : String → String) : List (String × Json) → List (String × Json)
  | [] => []
  | (name, value) :: rest => (spell name, value.respell spell) :: respellMembers spell rest

end

/-- A value without the blanks around its parts. -/
def compact (value : Json) : Json := value.respell id

/-- Spell the characters of HTML by their code points, inside a string that is
already written. -/
def escapeMarkup (written : String) : String :=
  String.ofList (written.toList.flatMap fun c =>
    if c = '<' || c = '>' || c = '&' || c.toNat = 0x2028 || c.toNat = 0x2029 then
      '\\' :: 'u' :: Text.hexDigits 4 c.toNat
    else [c])

/-- The spelling a value gets inside a document that the program writes. -/
def embedded (value : Json) : Json := value.respell escapeMarkup

/-! ## Reading -/

/-- The string a value is, if it is one with sound escapes. -/
def string? : Json → Option String
  | .str written => unescape? written
  | _ => none

/-- Whether a written member name is `name`, up to the case of ASCII letters. -/
def named (name : String) (written : String) : Bool :=
  match unescape? written with
  | some key => key.toList.map Char.toLower == name.toList.map Char.toLower
  | none => false

/-- The value of the last member called `name`. -/
def last? (name : String) : List (String × Json) → Option Json
  | [] => none
  | (key, value) :: rest =>
    match last? name rest with
    | some found => some found
    | none => if named name key then some value else none

/-- Whether every member name has sound escapes. -/
def soundNames (members : List (String × Json)) : Bool :=
  members.all fun member => (unescape? member.1).isSome

/-- Read a text member: the last one that is not `null` counts, every one must
be a string or `null`, and without any the text is empty. -/
def textMember? (name : String) (members : List (String × Json)) : Option String :=
  members.foldlM (fun found member =>
    if named name member.1 then
      match member.2 with
      | .null => some found
      | value => value.string?
    else some found) ""

end Json

end StoredProc
