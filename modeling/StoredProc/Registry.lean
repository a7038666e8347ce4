import StoredProc.Manifest.Basic

/-!
# The schema registry

Every struct and every function parameter of a manifest has a schema in one
flat table; procedures name a schema by its index. Stores are listed apart.
The order is the order of declaration.
-/

namespace StoredProc

/-- The named schemas by index, and the record fields of the stores. -/
structure Registry where
  schemas : List (String × DataType) := []
  stores : List (String × Fields) := []
  deriving Inhabited

namespace Registry

/-- Two schemas with one name. -/
inductive Error where
  | schemaCollision (name : String)
  | storeCollision (name : String)
  deriving DecidableEq, Inhabited, Repr

def Error.message : Error → String
  | .schemaCollision name =>
    "schema collision: a schema named " ++ name ++ " already exists"
  | .storeCollision name => "schema collision: store " ++ name ++ " is declared twice"

/-- The name under which the parameter of a function is registered. -/
def parameterName (function : String) : String := "__func__" ++ function

/-- The index of a schema. -/
def index? (r : Registry) (name : String) : Option Nat :=
  r.schemas.findIdx? fun schema => schema.1 == name

/-- The index of the parameter schema of a function. -/
def parameterIndex? (r : Registry) (function : String) : Option Nat :=
  r.index? (parameterName function)

/-- The record fields of a store. -/
def store? (r : Registry) (name : String) : Option Fields := r.stores.lookup name

/-- The names of the stores in order. -/
def storeNames (r : Registry) : List String := (r.stores.map Prod.fst).mergeSort

/-- Register a schema under a new name. -/
def addSchema (r : Registry) (name : String) (schema : DataType) : Except Error Registry :=
  match r.index? name with
  | some _ => .error (.schemaCollision name)
  | none => .ok { r with schemas := r.schemas ++ [(name, schema)] }

/-- Register what an entity declares. -/
def add (r : Registry) : Entity → Except Error Registry
  | .struct name schema => r.addSchema name (.object schema)
  | .enum .. => .ok r
  | .function decl =>
    match decl.parameter with
    | some parameter => r.addSchema (parameterName decl.name) parameter.type
    | none => .ok r
  | .store name schema =>
    match r.store? name with
    | some _ => .error (.storeCollision name)
    | none => .ok { r with stores := r.stores ++ [(name, schema)] }

/-- The registry of a manifest. -/
def ofManifest (m : Manifest) : Except Error Registry := m.entities.foldlM add {}

end Registry

end StoredProc
