import StoredProc.Yaml.Basic

/-!
# Reading YAML text

The reader knows block maps and lists, flow maps and lists, plain and quoted
scalars, and comments. It works in two steps: the text is cut into lines with
an indentation, where a flow collection or a quoted text that goes on is one
line; then the lines are read by their indentation. Both steps are bounded by
the length of the text.

This is a part of the format. Left out are anchors and aliases, tags, block
scalars and directives: a value that starts with the mark of one (`&`, `*`, `!`,
`|`, `>` or `%`) is not read. Left out as well are marked keys (`? key`), merged
maps, plain scalars that go on over several lines, and texts of several
documents. What the theory says of YAML texts it says of this reader.
-/

namespace StoredProc.Yaml

def isSpace (c : Char) : Bool := c = ' ' || c = '\t'

def trimRight (cs : List Char) : List Char := (cs.reverse.dropWhile isSpace).reverse

/-- A line of a document: its indentation and what follows it. -/
structure Line where
  indent : Nat
  text : List Char

/-! ## Lines -/

/-- Where a scan over the characters of a line stands. -/
structure Scan where
  /-- The number of open flow collections. -/
  depth : Nat := 0
  /-- The quote that is open. -/
  quote : Option Char := none
  /-- Whether the next character of a quoted text stands for itself. -/
  escaped : Bool := false
  /-- Whether a token may start here. -/
  fresh : Bool := true

/-- The scan after one more character. -/
def Scan.step (scan : Scan) (c : Char) : Scan :=
  match scan.quote with
  | some quote =>
    if scan.escaped then { scan with escaped := false }
    else if quote = '"' && c = '\\' then { scan with escaped := true }
    else if c = quote then { scan with quote := none, fresh := false }
    else scan
  | none =>
    if (c = '"' || c = '\'') && scan.fresh then { scan with quote := some c }
    else if (c = '[' || c = '{') && (scan.fresh || scan.depth ≠ 0) then
      { scan with depth := scan.depth + 1, fresh := true }
    else if (c = ']' || c = '}') && scan.depth ≠ 0 then
      { scan with depth := scan.depth - 1, fresh := false }
    else if isSpace c || ((c = ',' || c = ':') && scan.depth ≠ 0) then { scan with fresh := true }
    else { scan with fresh := false }

/-- Cut the comment off a line and note what stays open at its end. -/
def scanLine (scan : Scan) : List Char → List Char × Scan
  | [] => ([], scan)
  | c :: rest =>
    if c = '#' && scan.quote.isNone && scan.fresh then ([], scan)
    else
      let (kept, scan) := scanLine (scan.step c) rest
      (c :: kept, scan)

/-- The line that a physical line starts, unless it is blank. -/
def startLine (cs : List Char) : Option Line :=
  let text := trimRight cs
  let indent := (text.takeWhile (· = ' ')).length
  if text.all isSpace then none else some ⟨indent, text.drop indent⟩

/-- Join physical lines. `open?` is a line whose flow collection or quoted text
goes on. Nothing is read when the text ends inside one. -/
def joinLines (open? : Option (List Char × Scan)) : List (List Char) → Option (List Line)
  | [] =>
    match open? with
    | none => some []
    | some _ => none
  | physical :: rest =>
    let (start, scan) := match open? with
      | none => ([], ({} : Scan))
      | some (start, scan) => (start ++ [' '], { scan with fresh := true })
    let physical := if open?.isSome then physical.dropWhile isSpace else physical
    let (text, scan) := scanLine scan physical
    let line := start ++ trimRight text
    if scan.depth ≠ 0 || scan.quote.isSome then joinLines (some (line, scan)) rest
    else
      match startLine line with
      | none => joinLines none rest
      | some line => (joinLines none rest).map (line :: ·)

/-- The physical lines of a text. -/
def physicalLines (source : String) : List (List Char) :=
  (source.splitOn "\n").map fun line => line.toList.filter (· ≠ '\r')

/-! ## Scalars -/

/-- A text in single quotes, after the opening one. -/
def readSingle : List Char → Option (List Char × List Char)
  | [] => none
  | '\'' :: '\'' :: rest => (readSingle rest).map fun found => ('\'' :: found.1, found.2)
  | c :: rest =>
    if c = '\'' then some ([], rest)
    else (readSingle rest).map fun found => (c :: found.1, found.2)

/-- A text in double quotes, after the opening one, with its escapes. -/
def readDouble : List Char → Option (List Char × List Char)
  | [] => none
  | '\\' :: 'u' :: a :: b :: c :: d :: rest => do
    let unit ← Json.unit? a b c d
    let found ← readDouble rest
    return (Json.ofUnit unit :: found.1, found.2)
  | '\\' :: 'x' :: a :: b :: rest => do
    let unit ← Json.unit? '0' '0' a b
    let found ← readDouble rest
    return (Json.ofUnit unit :: found.1, found.2)
  | '\\' :: e :: rest => do
    let c ← match e with
      | '0' => some (Char.ofNat 0)
      | 'a' => some (Char.ofNat 7)
      | 'e' => some (Char.ofNat 27)
      | 'v' => some (Char.ofNat 11)
      | ' ' => some ' '
      | e => Json.shortEscape? e
    let found ← readDouble rest
    return (c :: found.1, found.2)
  | c :: rest =>
    if c = '"' then some ([], rest)
    else if c = '\\' then none
    else (readDouble rest).map fun found => (c :: found.1, found.2)

/-- Whether a character may not start a plain scalar. -/
def isIndicator (c : Char) : Bool :=
  ['&', '*', '!', '|', '>', '%', '@', Char.ofNat 0x60, ']', '}', ','].contains c

/-- A plain scalar inside a flow collection, as far as it goes. -/
def readPlain : List Char → List Char × List Char
  | [] => ([], [])
  | ':' :: rest =>
    match rest with
    | [] => ([], [':'])
    | c :: _ =>
      if isSpace c || c = ',' || c = ']' || c = '}' then ([], ':' :: rest)
      else
        let found := readPlain rest
        (':' :: found.1, found.2)
  | c :: rest =>
    if c = ',' || c = '[' || c = ']' || c = '{' || c = '}' then ([], c :: rest)
    else
      let found := readPlain rest
      (c :: found.1, found.2)

/-! ## Flow collections -/

mutual

/-- A value inside a flow collection. -/
def readFlow : Nat → List Char → Option (Yaml × List Char)
  | 0, _ => none
  | fuel + 1, cs =>
    match cs.dropWhile isSpace with
    | '"' :: rest => (readDouble rest).map fun found => (.str (String.ofList found.1), found.2)
    | '\'' :: rest => (readSingle rest).map fun found => (.str (String.ofList found.1), found.2)
    | '[' :: rest =>
      match rest.dropWhile isSpace with
      | ']' :: rest => some (.list [], rest)
      | rest => (readFlowItems fuel rest).map fun found => (.list found.1, found.2)
    | '{' :: rest =>
      match rest.dropWhile isSpace with
      | '}' :: rest => some (.map [], rest)
      | rest => (readFlowEntries fuel rest).map fun found => (.map found.1, found.2)
    | c :: rest =>
      if isIndicator c then none
      else
        let (text, rest) := readPlain (c :: rest)
        some (resolve (String.ofList (trimRight text)), rest)
    | [] => none

/-- The items of a flow list up to its closing bracket. -/
def readFlowItems : Nat → List Char → Option (List Yaml × List Char)
  | 0, _ => none
  | fuel + 1, cs => do
    let (item, rest) ← readFlow fuel cs
    match rest.dropWhile isSpace with
    | ',' :: rest =>
      match rest.dropWhile isSpace with
      | ']' :: rest => some ([item], rest)
      | rest => (readFlowItems fuel rest).map fun found => (item :: found.1, found.2)
    | ']' :: rest => some ([item], rest)
    | _ => none

/-- The entries of a flow map up to its closing brace. -/
def readFlowEntries : Nat → List Char → Option (List (Yaml × Yaml) × List Char)
  | 0, _ => none
  | fuel + 1, cs => do
    let (key, rest) ← readFlow fuel cs
    let (value, rest) ← match rest.dropWhile isSpace with
      | ':' :: rest =>
        match rest.dropWhile isSpace with
        | ',' :: rest => some (.null, ',' :: rest)
        | '}' :: rest => some (.null, '}' :: rest)
        | rest => readFlow fuel rest
      | rest => some (.null, rest)
    match rest.dropWhile isSpace with
    | ',' :: rest =>
      match rest.dropWhile isSpace with
      | '}' :: rest => some ([(key, value)], rest)
      | rest => (readFlowEntries fuel rest).map fun found => ((key, value) :: found.1, found.2)
    | '}' :: rest => some ([(key, value)], rest)
    | _ => none

end

/-- A value that stands on one line. -/
def readInline (cs : List Char) : Option Yaml :=
  match cs with
  | [] => some .null
  | c :: _ =>
    if c = '"' || c = '\'' || c = '[' || c = '{' then do
      let (value, rest) ← readFlow (cs.length + 1) cs
      guard (rest.all isSpace)
      return value
    else if isIndicator c then none
    else some (resolve (String.ofList (trimRight cs)))

/-! ## Blocks -/

/-- The text after the mark of a list item. -/
def itemText? : List Char → Option (List Char)
  | ['-'] => some []
  | '-' :: c :: rest => if isSpace c then some (c :: rest) else none
  | _ => none

/-- The text after a colon that ends a key. -/
def afterColon? : List Char → Option (List Char)
  | [':'] => some []
  | ':' :: c :: rest => if isSpace c then some (rest.dropWhile isSpace) else none
  | _ => none

/-- A plain key and the text after its colon. -/
def splitPlainKey? : List Char → Option (List Char × List Char)
  | [] => none
  | c :: rest =>
    match afterColon? (c :: rest) with
    | some after => some ([], after)
    | none => (splitPlainKey? rest).map fun found => (c :: found.1, found.2)

/-- The key of a map entry and the text after its colon. -/
def splitKey? (cs : List Char) : Option (Yaml × List Char) :=
  match cs with
  | '"' :: rest => do
    let (key, rest) ← readDouble rest
    let after ← afterColon? (rest.dropWhile isSpace)
    return (.str (String.ofList key), after)
  | '\'' :: rest => do
    let (key, rest) ← readSingle rest
    let after ← afterColon? (rest.dropWhile isSpace)
    return (.str (String.ofList key), after)
  | '[' :: _ | '{' :: _ => none
  | cs => (splitPlainKey? cs).map fun found =>
    (resolve (String.ofList (trimRight found.1)), found.2)

mutual

/-- The value of a block with at least this indentation; without lines of that
indentation it is `null`. -/
def readBlock : Nat → Nat → List Line → Option (Yaml × List Line)
  | 0, _, _ => none
  | _ + 1, _, [] => some (.null, [])
  | fuel + 1, least, line :: rest =>
    if line.indent < least then some (.null, line :: rest)
    else if (itemText? line.text).isSome then
      (readList fuel line.indent (line :: rest)).map fun found => (.list found.1, found.2)
    else if (splitKey? line.text).isSome then
      (readMap fuel line.indent (line :: rest)).map fun found => (.map found.1, found.2)
    else (readInline line.text).map fun value => (value, rest)

/-- The items of a block list with this indentation. -/
def readList : Nat → Nat → List Line → Option (List Yaml × List Line)
  | 0, _, _ => none
  | _ + 1, _, [] => some ([], [])
  | fuel + 1, indent, line :: rest =>
    match line.indent == indent, itemText? line.text with
    | true, some text => do
      let content := text.dropWhile isSpace
      let lines :=
        if content.isEmpty then rest
        else ⟨indent + 1 + (text.length - content.length), content⟩ :: rest
      let (item, rest) ← readBlock fuel (indent + 1) lines
      let (items, rest) ← readList fuel indent rest
      return (item :: items, rest)
    | _, _ => some ([], line :: rest)

/-- The entries of a block map with this indentation. A list may stand under
its key without more indentation. -/
def readMap : Nat → Nat → List Line → Option (List (Yaml × Yaml) × List Line)
  | 0, _, _ => none
  | _ + 1, _, [] => some ([], [])
  | fuel + 1, indent, line :: rest =>
    match line.indent == indent && (itemText? line.text).isNone, splitKey? line.text with
    | true, some (key, text) => do
      let (value, rest) ←
        if text.isEmpty then
          match rest with
          | next :: _ =>
            if next.indent = indent && (itemText? next.text).isSome then
              (readList fuel indent rest).map fun found => (.list found.1, found.2)
            else readBlock fuel (indent + 1) rest
          | [] => some (.null, [])
        else (readInline text).map fun value => (value, rest)
      let (entries, rest) ← readMap fuel indent rest
      return ((key, value) :: entries, rest)
    | _, _ => some ([], line :: rest)

end

/-- The value of a document, of the part of the format that the reader knows. A
mark of the document start may come first. -/
def parse? (source : String) : Option Yaml := do
  let lines ← joinLines none (physicalLines source)
  let lines := match lines with
    | ⟨0, ['-', '-', '-']⟩ :: rest => rest
    | lines => lines
  let (value, rest) ← readBlock (2 * source.length + 2) 0 lines
  guard rest.isEmpty
  return value

end StoredProc.Yaml
