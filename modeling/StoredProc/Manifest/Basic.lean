import StoredProc.Tree.Basic

/-!
# Manifests

A manifest declares the structs, enums, functions and stores of a program. The
entities keep their order of declaration, and no two of them have one name.
-/

namespace StoredProc

/-- The fields of an object type. -/
abbrev Fields := List (String × DataType)

inductive EntityKind where
  | struct
  | enum
  | function
  | store
  deriving DecidableEq, Inhabited, Repr

def EntityKind.name : EntityKind → String
  | struct => "Struct"
  | enum => "Enum"
  | function => "Function"
  | store => "HierarchicalStore"

/-- A named declaration. A store is a collection of records with one object
type. -/
inductive Entity where
  | struct (name : String) (schema : Fields)
  | enum (name : String) (variants : List String)
  | function (decl : Function)
  | store (name : String) (schema : Fields)
  deriving Inhabited

namespace Entity

def name : Entity → String
  | .struct name _ | .enum name _ | .store name _ => name
  | .function decl => decl.name

def kind : Entity → EntityKind
  | .struct .. => .struct
  | .enum .. => .enum
  | .function _ => .function
  | .store .. => .store

end Entity

/-- The declarations of a program. The fingerprint identifies the document the
manifest was read from; it is empty for a manifest that was put together. -/
structure Manifest where
  entities : List Entity := []
  fingerprint : String := ""
  deriving Inhabited

namespace Manifest

/-- Why an entity cannot join a manifest. -/
inductive NameError where
  | empty (kind : EntityKind)
  | duplicate (name : String) (first second : EntityKind)
  deriving DecidableEq, Inhabited, Repr

def NameError.message : NameError → String
  | .empty kind => "entity has an empty name (" ++ kind.name ++ ")"
  | .duplicate name first second =>
    "duplicate entity name: " ++ name ++ " is declared as a " ++ first.name
      ++ " and as a " ++ second.name

/-- The entity of a name. -/
def get? (m : Manifest) (name : String) : Option Entity :=
  m.entities.find? fun entity => entity.name == name

/-- Declare one more entity. -/
def add (m : Manifest) (entity : Entity) : Except NameError Manifest :=
  if entity.name.isEmpty then .error (.empty entity.kind)
  else
    match m.get? entity.name with
    | some first => .error (.duplicate entity.name first.kind entity.kind)
    | none => .ok { m with entities := m.entities ++ [entity] }

/-- The manifest of a list of entities. -/
def ofEntities (entities : List Entity) : Except NameError Manifest :=
  entities.foldlM add {}

/-- The names of all entities in order. -/
def names (m : Manifest) : List String := (m.entities.map Entity.name).mergeSort

/-- The fields of the records of a store. -/
def store? (m : Manifest) (name : String) : Option Fields :=
  match m.get? name with
  | some (.store _ schema) => some schema
  | _ => none

/-- The declaration of a function. -/
def function? (m : Manifest) (name : String) : Option Function :=
  match m.get? name with
  | some (.function decl) => some decl
  | _ => none

/-- The functions in order of declaration. -/
def functions (m : Manifest) : List Function :=
  m.entities.filterMap fun
    | .function decl => some decl
    | _ => none

end Manifest

end StoredProc
