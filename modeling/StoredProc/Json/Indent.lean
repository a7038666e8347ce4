import StoredProc.Json.Range

/-!
# Indented documents

An indented document has one item or member a line, each level one indentation
deeper. Empty lists and objects stay on their line. Numbers and strings are not
changed.

A text is indented while it is read, from front to back. A number is a run of the
characters that numbers are written with. It is read as a double, and the first run
that spells none, or one beyond the doubles, is reported.
-/

namespace StoredProc.Json

/-- A line break followed by `depth` indentations. -/
def breakLine (indent : String) (depth : Nat) : String :=
  "\n" ++ String.join (List.replicate depth indent)

mutual

/-- The indented text of a value at a depth. -/
def indentAt (indent : String) (depth : Nat) : Json → String
  | .arr _ [] => "[]"
  | .arr _ (item :: rest) =>
    "[" ++ breakLine indent (depth + 1) ++ item.indentAt indent (depth + 1)
      ++ indentItems indent (depth + 1) rest ++ breakLine indent depth ++ "]"
  | .obj _ [] => "\x7b\x7d"
  | .obj _ ((name, value) :: rest) =>
    "\x7b" ++ breakLine indent (depth + 1) ++ "\"" ++ name ++ "\": "
      ++ value.indentAt indent (depth + 1)
      ++ indentMembers indent (depth + 1) rest ++ breakLine indent depth ++ "\x7d"
  | value => value.text

/-- The items after the first. -/
def indentItems (indent : String) (depth : Nat) : List Json → String
  | [] => ""
  | item :: rest =>
    "," ++ breakLine indent depth ++ item.indentAt indent depth ++ indentItems indent depth rest

/-- The members after the first. -/
def indentMembers (indent : String) (depth : Nat) : List (String × Json) → String
  | [] => ""
  | (name, value) :: rest =>
    "," ++ breakLine indent depth ++ "\"" ++ name ++ "\": " ++ value.indentAt indent depth
      ++ indentMembers indent depth rest

end

/-- The indented text of a value. -/
def indented (indent : String) (value : Json) : String := value.indentAt indent 0

/-! ## Texts -/

/-- Why a run of number characters is no number. -/
inductive NumeralFault where
  | malformed
  | overflow
  deriving DecidableEq, Inhabited, Repr

def NumeralFault.reason : NumeralFault → String
  | .malformed => "invalid syntax"
  | .overflow => "value out of range"

/-- What is wrong with a text. -/
inductive TextFault where
  | unreadable
  | numeral (written : String) (fault : NumeralFault)
  deriving DecidableEq, Inhabited, Repr

/-- Why a document cannot be indented. -/
inductive IndentError where
  | text (fault : TextFault)
  | negative
  deriving DecidableEq, Inhabited, Repr

/-- What is said of a document that cannot be indented; `unreadable` is said of a text that
is no document. -/
def IndentError.message (unreadable : String) : IndentError → String
  | .text .unreadable => unreadable
  | .text (.numeral written fault) =>
    "strconv.ParseFloat: parsing \"" ++ written ++ "\": " ++ fault.reason
  | .negative => "strings: negative Repeat count"

/-- The number at the front of a text, as it is written. -/
def takeNumeral (cs : List Char) : Except TextFault (String × List Char) :=
  let (run, rest) := cs.span Double.isNumberChar
  let written := String.ofList run
  match Double.read? written with
  | none => .error (.numeral written .malformed)
  | some value =>
    if value.isFinite then .ok (written, rest) else .error (.numeral written .overflow)

mutual

/-- Indent the value at the front of a text. -/
def reindentValue (indent : String) :
    Nat → Nat → List Char → Except TextFault (String × List Char)
  | 0, _, _ => .error .unreadable
  | fuel + 1, depth, cs =>
    match cs with
    | 'n' :: 'u' :: 'l' :: 'l' :: rest => .ok ("null", rest)
    | 't' :: 'r' :: 'u' :: 'e' :: rest => .ok ("true", rest)
    | 'f' :: 'a' :: 'l' :: 's' :: 'e' :: rest => .ok ("false", rest)
    | '"' :: rest =>
      match scanString rest with
      | some (written, rest) => .ok ("\"" ++ String.ofList written ++ "\"", rest)
      | none => .error .unreadable
    | '[' :: rest =>
      match skipBlanks rest with
      | ']' :: after => .ok ("[]", after)
      | start => do
        let (lines, after) ← reindentItems indent fuel (depth + 1) start
        return ("[" ++ lines ++ breakLine indent depth ++ "]", after)
    | '{' :: rest =>
      match skipBlanks rest with
      | '}' :: after => .ok ("\x7b\x7d", after)
      | start => do
        let (lines, after) ← reindentMembers indent fuel (depth + 1) start
        return ("\x7b" ++ lines ++ breakLine indent depth ++ "\x7d", after)
    | c :: rest =>
      if c = '-' || c.isDigit then takeNumeral (c :: rest) else .error .unreadable
    | [] => .error .unreadable

/-- Indent the items of a list up to its closing bracket, each on a line of its own. -/
def reindentItems (indent : String) :
    Nat → Nat → List Char → Except TextFault (String × List Char)
  | 0, _, _ => .error .unreadable
  | fuel + 1, depth, cs => do
    let (item, rest) ← reindentValue indent fuel depth cs
    let line := breakLine indent depth ++ item
    match skipBlanks rest with
    | ',' :: rest => do
      let (lines, rest) ← reindentItems indent fuel depth (skipBlanks rest)
      return (line ++ "," ++ lines, rest)
    | ']' :: rest => .ok (line, rest)
    | _ => .error .unreadable

/-- Indent the members of an object up to its closing brace, each on a line of its own. -/
def reindentMembers (indent : String) :
    Nat → Nat → List Char → Except TextFault (String × List Char)
  | 0, _, _ => .error .unreadable
  | fuel + 1, depth, cs =>
    match cs with
    | '"' :: rest =>
      match scanString rest with
      | none => .error .unreadable
      | some (name, rest) =>
        match skipBlanks rest with
        | ':' :: rest => do
          let (value, rest) ← reindentValue indent fuel depth (skipBlanks rest)
          let line := breakLine indent depth ++ "\"" ++ String.ofList name ++ "\": " ++ value
          match skipBlanks rest with
          | ',' :: rest => do
            let (lines, rest) ← reindentMembers indent fuel depth (skipBlanks rest)
            return (line ++ "," ++ lines, rest)
          | '}' :: rest => .ok (line, rest)
          | _ => .error .unreadable
        | _ => .error .unreadable
    | _ => .error .unreadable

end

/-- Indent a whole text, with nothing but blanks around its value. -/
def reindent (indent document : String) : Except TextFault String := do
  let cs := document.toList
  let (text, rest) ← reindentValue indent (2 * cs.length + 1) 0 (skipBlanks cs)
  if (skipBlanks rest).isEmpty then return text else .error .unreadable

/-- Indent the text of a document by a number of blanks; without any it stays
as it is. -/
def indentText (document : String) (indent : Int) : Except IndentError String :=
  if indent = 0 then .ok document
  else if indent < 0 then .error .negative
  else (reindent (String.ofList (List.replicate indent.toNat ' ')) document).mapError .text

end StoredProc.Json
