import StoredProc.Json.Basic

/-!
# Reading JSON text

The reader takes the longest value at the start of the text and gives back
what is left. Escapes inside strings are not judged here: a string that is
never looked at may hold any of them. The recursion is bounded by the length
of the text, which no value outgrows.
-/

namespace StoredProc.Json

/-- The blanks that may stand between two tokens. -/
def isBlank (c : Char) : Bool := c = ' ' || c = '\t' || c = '\n' || c = '\r'

def skipBlanks (cs : List Char) : List Char := cs.dropWhile isBlank

/-- The text up to the closing quote, and what follows the quote. -/
def scanString : List Char → Option (List Char × List Char)
  | [] => none
  | '"' :: rest => some ([], rest)
  | '\\' :: c :: rest => (scanString rest).map fun found => ('\\' :: c :: found.1, found.2)
  | c :: rest =>
    if c = '\\' || c.toNat = 0 then none
    else (scanString rest).map fun found => (c :: found.1, found.2)

/-- A run of digits, which may be empty, and what follows it. -/
def scanDigits (cs : List Char) : List Char × List Char := cs.span Char.isDigit

/-- The integer part: a single zero, or digits without a leading zero. -/
def scanInteger : List Char → Option (List Char × List Char)
  | '0' :: rest => some (['0'], rest)
  | cs =>
    match scanDigits cs with
    | ([], _) => none
    | found => some found

/-- The fraction, empty when the text does not go on with a point. -/
def scanFraction : List Char → Option (List Char × List Char)
  | '.' :: rest =>
    match scanDigits rest with
    | ([], _) => none
    | (digits, rest) => some ('.' :: digits, rest)
  | cs => some ([], cs)

/-- The exponent, empty when the text does not go on with its mark. -/
def scanExponent : List Char → Option (List Char × List Char)
  | mark :: rest =>
    if mark = 'e' || mark = 'E' then
      let (sign, rest) := match rest with
        | '+' :: rest => (['+'], rest)
        | '-' :: rest => (['-'], rest)
        | rest => ([], rest)
      match scanDigits rest with
      | ([], _) => none
      | (digits, rest) => some (mark :: sign ++ digits, rest)
    else some ([], mark :: rest)
  | [] => some ([], [])

/-- The text of a number and what follows it. -/
def scanNumber (cs : List Char) : Option (List Char × List Char) := do
  let (sign, rest) := match cs with
    | '-' :: rest => (['-'], rest)
    | cs => ([], cs)
  let (integer, rest) ← scanInteger rest
  let (fraction, rest) ← scanFraction rest
  let (exponent, rest) ← scanExponent rest
  return (sign ++ integer ++ fraction ++ exponent, rest)

/-- The part of `before` that was read when `after` is left. -/
def consumed (before after : List Char) : String :=
  String.ofList (before.take (before.length - after.length))

mutual

/-- Read one value at the very start of the text. -/
def readValue : Nat → List Char → Option (Json × List Char)
  | 0, _ => none
  | fuel + 1, cs =>
    match cs with
    | 'n' :: 'u' :: 'l' :: 'l' :: rest => some (.null, rest)
    | 't' :: 'r' :: 'u' :: 'e' :: rest => some (.bool true, rest)
    | 'f' :: 'a' :: 'l' :: 's' :: 'e' :: rest => some (.bool false, rest)
    | '"' :: rest => (scanString rest).map fun found => (.str (String.ofList found.1), found.2)
    | '[' :: rest =>
      match skipBlanks rest with
      | ']' :: after => some (.arr (consumed cs after) [], after)
      | start => do
        let (items, after) ← readItems fuel start
        return (.arr (consumed cs after) items, after)
    | '{' :: rest =>
      match skipBlanks rest with
      | '}' :: after => some (.obj (consumed cs after) [], after)
      | start => do
        let (members, after) ← readMembers fuel start
        return (.obj (consumed cs after) members, after)
    | _ => (scanNumber cs).map fun found => (.num (String.ofList found.1), found.2)

/-- Read the items of a list up to its closing bracket. -/
def readItems : Nat → List Char → Option (List Json × List Char)
  | 0, _ => none
  | fuel + 1, cs => do
    let (item, rest) ← readValue fuel cs
    match skipBlanks rest with
    | ',' :: rest => do
      let (items, rest) ← readItems fuel (skipBlanks rest)
      return (item :: items, rest)
    | ']' :: rest => some ([item], rest)
    | _ => none

/-- Read the members of an object up to its closing brace. -/
def readMembers : Nat → List Char → Option (List (String × Json) × List Char)
  | 0, _ => none
  | fuel + 1, cs =>
    match cs with
    | '"' :: rest => do
      let (name, rest) ← scanString rest
      match skipBlanks rest with
      | ':' :: rest => do
        let (value, rest) ← readValue fuel (skipBlanks rest)
        match skipBlanks rest with
        | ',' :: rest => do
          let (members, rest) ← readMembers fuel (skipBlanks rest)
          return ((String.ofList name, value) :: members, rest)
        | '}' :: rest => some ([(String.ofList name, value)], rest)
        | _ => none
      | _ => none
    | _ => none

end

/-- The first value of a text and what follows it. -/
def parseFirst? (source : String) : Option (Json × List Char) :=
  let cs := source.toList
  readValue (2 * cs.length + 1) (skipBlanks cs)

/-- The value a whole text spells, with nothing but blanks around it. -/
def parse? (source : String) : Option Json := do
  let (value, rest) ← parseFirst? source
  if (skipBlanks rest).isEmpty then some value else none

mutual

/-- Whether all strings and names inside a value have sound escapes. -/
def sound : Json → Bool
  | .str written => (unescape? written).isSome
  | .arr _ items => soundItems items
  | .obj _ members => soundMembers members
  | _ => true

def soundItems : List Json → Bool
  | [] => true
  | item :: rest => item.sound && soundItems rest

def soundMembers : List (String × Json) → Bool
  | [] => true
  | (name, value) :: rest => (unescape? name).isSome && value.sound && soundMembers rest

end

end StoredProc.Json
