import StoredProc.Json.Range
import StoredProc.Manifest.Basic
import StoredProc.Manifest.Shape
import StoredProc.Manifest.Version
import StoredProc.Text.Sha256
import StoredProc.Tree.Declaration
import StoredProc.Yaml.Parser

/-!
# Manifest documents

A manifest is read from JSON or YAML text. The checks come in this order: the
first value of the text can be read, it has the shape of a manifest, nothing
follows it, its version is supported, and then entity after entity is read and
declared.
-/

namespace StoredProc

namespace Entity

/-- Why a document is not an entity. -/
inductive DecodeError where
  | unreadable
  | schemaType (name : String) (cause : DataType.DecodeError)
  | schemaNotObject (name : String) (type : DataType)
  | function (name : String) (cause : Function.DecodeError)
  | unknownKind (kind : String)
  deriving Inhabited

def DecodeError.message : DecodeError → String
  | .unreadable => "invalid manifest document: " ++ StoredProc.unreadable
  | .schemaType name cause => "schema of " ++ name ++ ": " ++ cause.message
  | .schemaNotObject name type =>
    "invalid manifest document: the schema of " ++ name ++ " should be an object type, not "
      ++ type.describe
  | .function name cause => "function " ++ name ++ ": " ++ cause.message
  | .unknownKind kind => "invalid manifest document: unknown entity kind " ++ Text.quoted kind

/-- The texts of a list; `null` stands for an empty text. -/
def readTexts? : List Json → Option (List String)
  | [] => some []
  | .null :: rest => (readTexts? rest).map ("" :: ·)
  | item :: rest => do
    let text ← item.string?
    let texts ← readTexts? rest
    return text :: texts

/-- The variants among the members: the last list counts, every one must be a
list of texts. -/
def readVariants? (members : List (String × Json)) : Option (List String) :=
  members.foldlM (fun found (name, value) =>
    if Json.named "variants" name then
      match value with
      | .null => some []
      | .arr _ items => readTexts? items
      | _ => none
    else some found) []

/-- The fields of an object schema. -/
def readSchema (name : String) (members : List (String × Json)) : Except DecodeError Fields :=
  match Json.last? "schema" members with
  | none => .error (.schemaType name .unreadable)
  | some document =>
    match DataType.ofJson document with
    | .error cause => .error (.schemaType name cause)
    | .ok (.object fields) => .ok fields
    | .ok type => .error (.schemaNotObject name type)

/-- Read an entity from the members of its document. -/
def ofMembers (members : List (String × Json)) : Except DecodeError Entity :=
  match Json.soundNames members, Json.textMember? "kind" members, Json.textMember? "name" members,
      readVariants? members with
  | true, some kind, some name, some variants =>
    match kind with
    | "Struct" => (readSchema name members).map (.struct name)
    | "HierarchicalStore" => (readSchema name members).map (.store name)
    | "Enum" => .ok (.enum name variants)
    | "Function" =>
      match Function.ofMembers members with
      | .ok decl => .ok (.function decl)
      | .error .unreadable => .error .unreadable
      | .error cause => .error (.function name cause)
    | kind => .error (.unknownKind kind)
  | _, _, _, _ => .error .unreadable

/-- Read an entity. -/
def ofJson : Json → Except DecodeError Entity
  | .null => ofMembers []
  | .obj _ members => ofMembers members
  | _ => .error .unreadable

end Entity

namespace Manifest

inductive Format where
  | json
  | yaml
  deriving DecidableEq, Inhabited, Repr

def Format.name : Format → String
  | json => "json"
  | yaml => "yaml"

/-- The extension of a path: the last dot of its last element and what follows
it, empty without a dot. -/
def extension (path : String) : String :=
  let last := path.toList.reverse.takeWhile (· ≠ '/')
  if last.contains '.' then String.ofList ((last.takeWhile (· ≠ '.')).reverse.cons '.') else ""

/-- The format of a file, told from its extension in any case. -/
def Format.ofPath (path : String) : Format :=
  let extension := String.ofList ((extension path).toList.map Char.toLower)
  if extension = ".yaml" ∨ extension = ".yml" then .yaml else .json

/-- Why a text is not a manifest. -/
inductive Error where
  | unreadable
  | shape (violations : List String)
  | badVersion (text : String) (cause : Version.Error)
  | unsupported (version : Version)
  | entity (index : Nat) (cause : Entity.DecodeError)
  | name (cause : NameError)
  deriving Inhabited

def Error.message : Error → String
  | .unreadable | .shape _ => "invalid manifest document: " ++ StoredProc.unreadable
  | .badVersion text cause =>
    "unsupported manifest version " ++ Text.quoted text ++ ": " ++ cause.message
  | .unsupported version =>
    "unsupported manifest version " ++ version.text ++ ", expected " ++ Version.supported
  | .entity index cause => "entity #" ++ index.repr ++ ": " ++ cause.message
  | .name cause => cause.message

/-- Read and declare entities, counting them. -/
def addAll (m : Manifest) (index : Nat) : List Json → Except Error Manifest
  | [] => .ok m
  | document :: rest =>
    match Entity.ofJson document with
    | .error cause => .error (.entity index cause)
    | .ok entity =>
      match m.add entity with
      | .error cause => .error (.name cause)
      | .ok m => addAll m (index + 1) rest

/-- The entity documents of a manifest document. -/
def entityDocuments (members : List (String × Json)) : List Json :=
  match Json.last? "entities" members with
  | some (.arr _ items) => items
  | _ => []

/-- Identify a document by its text without blanks. -/
def fingerprintOf (document : Json) : String := Text.sha256 document.compact.text

/-- Read a manifest from a document; `rest` is what follows it in its text. -/
def ofDocument (document : Json) (rest : List Char) : Except Error Manifest :=
  match violations document with
  | [] =>
    match document, (Json.skipBlanks rest).isEmpty with
    | .obj _ members, true => do
      let text := (Json.textMember? "version" members).getD ""
      let version ← (Version.parse text).mapError (.badVersion text)
      if version.isSupported then
        let m ← addAll {} 0 (entityDocuments members)
        return { m with fingerprint := fingerprintOf document }
      else .error (.unsupported version)
    | _, _ => .error .unreadable
  | found => .error (.shape found)

/-- The first value of a text and what follows it. -/
def readText? (source : String) : Format → Option (Json × List Char)
  | .json => Json.parseFirst? source
  | .yaml => do
    let value ← Yaml.parse? source
    let document ← value.toJson?
    return (document, [])

/-- Read a manifest. -/
def parse (source : String) (format : Format) : Except Error Manifest :=
  match readText? source format with
  | some (document, rest) =>
    if document.sound && document.inRange then ofDocument document rest else .error .unreadable
  | none => .error .unreadable

end Manifest

end StoredProc
