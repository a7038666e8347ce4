import StoredProc.Manifest.Basic
import StoredProc.Proofs.Machine.Operands
import StoredProc.Proofs.DataType.Conformance

/-! # The machine

The machine has a stack of operands, a heap of variables and the stores. Here it
executes instructions in a row; jumps and returns are not among them. An instruction
that lacks an operand, or has one of the wrong shape, cannot be executed.

The stores are not part of the machine. They are asked, answer with a value, and may
change. What they answer to a sensible request is described by its type.
-/

namespace StoredProc

namespace Value

/-- Set a field of a record. -/
def setEntry (name : String) (value : Value) : List (String × Value) → List (String × Value)
  | [] => [(name, value)]
  | (key, old) :: rest =>
    if key = name then (name, value) :: rest else (key, old) :: setEntry name value rest

/-- A field that is set is found, and the others are as before. -/
theorem lookup_setEntry (name other : String) (value : Value) (entries : List (String × Value)) :
    (setEntry name value entries).lookup other =
      if other = name then some value else entries.lookup other := by
  induction entries with
  | nil =>
      rw [setEntry, List.lookup_cons]
      by_cases h : other = name
      · simp [h]
      · simp [h, beq_false_of_ne h]
  | cons entry rest ih =>
      obtain ⟨key, old⟩ := entry
      rw [setEntry]
      by_cases hkey : key = name
      · subst hkey
        rw [if_pos rfl, List.lookup_cons, List.lookup_cons]
        by_cases h : other = key
        · simp [h]
        · simp [h, beq_false_of_ne h]
      · rw [if_neg hkey, List.lookup_cons, List.lookup_cons, ih]
        by_cases h : other = key
        · subst h
          simp [hkey]
        · simp [beq_false_of_ne h]

/-- The record with a field set. -/
def setField? (name : String) (value : Value) : Value → Option Value
  | .object entries => some (.object (setEntry name value entries))
  | _ => none

/-- The value of a field of a record. -/
def field? (name : String) : Value → Option Value
  | .object entries => entries.lookup name
  | _ => none

/-- The document of an update that adds values to arrays. -/
def pushDocument (entries : List (String × Value)) : Value :=
  .object [(Instruction.pushOperator, .object entries)]

/-- Fill in a document: a value goes under an operator at a dotted path. -/
def setNested? (operator path : String) (value : Value) : Value → Option Value
  | .object entries =>
    match entries.lookup operator with
    | some (.object nested) =>
      some (.object (setEntry operator (.object (setEntry path value nested)) entries))
    | _ => none
  | _ => none

theorem setNested?_pushDocument (path : String) (value : Value) :
    setNested? Instruction.pushOperator path value (pushDocument []) =
      some (pushDocument [(path, value)]) := by
  simp [setNested?, pushDocument, setEntry]

/-- Change the value at a depth, counted from one. -/
def modifyAt (change : Value → Option Value) : Nat → List Value → Option (List Value)
  | 1, value :: rest => (change value).map (· :: rest)
  | depth + 2, value :: rest => (modifyAt change (depth + 1) rest).map (value :: ·)
  | _, _ => none

/-- A change at a depth needs a stack of that depth, and keeps its height. -/
theorem length_of_modifyAt {change : Value → Option Value} {depth : Nat}
    {values changed : List Value} (h : modifyAt change depth values = some changed) :
    depth ≤ values.length ∧ changed.length = values.length := by
  fun_induction modifyAt change depth values generalizing changed with
  | case1 value rest =>
      obtain ⟨new, _, rfl⟩ := Option.map_eq_some_iff.mp h
      simp
  | case2 depth value rest ih =>
      obtain ⟨more, hmore, rfl⟩ := Option.map_eq_some_iff.mp h
      have hlength := ih hmore
      simp only [List.length_cons]
      omega
  | case3 => cases h

end Value

/-! ## Stores -/

/-- What the stores can be asked for. -/
inductive Request where
  | all (store : String)
  | query (store : String) (hidden : List String)
  | count (store : String)
  | find (store : String) (hidden : List String) (id : Nat)
  | delete (store : String) (id : Nat)
  | update (store : String) (id : Nat) (document : Value)
  | insert (store : String) (record : Value)

/-- A path through the fields of records. -/
inductive DataType.At : DataType → List String → DataType → Prop
  | here (type : DataType) : At type [] type
  | field {fields : List (String × DataType)} {name : String} {path : List String}
      {next type : DataType} (hfield : DataType.field? fields name = some next)
      (hrest : At next path type) : At (.object fields) (name :: path) type

/-- The requests that make sense, with the types of their answers. Records come
without the field that identifies them; if all other fields are hidden, what is left
of a record is a pointer to it. Updates add a value to an array of the record. -/
inductive Request.Typed (m : Manifest) : Request → DataType → Prop
  | all {store : String} {schema : Fields} (hstore : m.store? store = some schema) :
      Typed m (.all store) (.array (.object schema))
  | query {store : String} {schema : Fields} (hstore : m.store? store = some schema) :
      Typed m (.query store (schema.map Prod.fst)) (.array (.ref store))
  | count {store : String} {schema : Fields} (hstore : m.store? store = some schema) :
      Typed m (.count store) .int
  | find {store : String} {schema : Fields} (id : Nat) (hstore : m.store? store = some schema) :
      Typed m (.find store [Instruction.idField] id) (.optional (.object schema))
  | delete {store : String} {schema : Fields} (id : Nat) (hstore : m.store? store = some schema) :
      Typed m (.delete store id) .bool
  | update {store : String} {schema : Fields} (id : Nat) {path : List String} {elem : DataType}
      {value : Value} (hstore : m.store? store = some schema)
      (hpath : DataType.At (.object schema) path (.array elem)) (hvalue : value.Conforms elem) :
      Typed m (.update store id (.pushDocument [(".".intercalate path, value)]))
        (.optional (.object schema))

/-- How stores in a state answer. -/
abbrev Service (σ : Type) := Request → σ → Value × σ

/-- In valid states all sensible requests are answered by type, and stay so. -/
def Service.Serves {σ : Type} (serve : Service σ) (m : Manifest) (valid : σ → Prop) : Prop :=
  ∀ ⦃request : Request⦄ ⦃type : DataType⦄ ⦃stores : σ⦄, request.Typed m type → valid stores →
    (serve request stores).1.Conforms type ∧ valid (serve request stores).2

/-! ## Execution -/

structure Machine (σ : Type) where
  stack : List Value
  heap : List Value
  stores : σ

namespace Machine

variable {σ : Type}

def push (s : Machine σ) (value : Value) : Machine σ := { s with stack := value :: s.stack }

/-- Ask the stores, and leave the answer on a stack. -/
def ask (s : Machine σ) (serve : Service σ) (request : Request) (below : List Value) : Machine σ :=
  { s with
    stack := (serve request s.stores).1 :: below
    stores := (serve request s.stores).2 }

end Machine

namespace Instruction

variable {σ : Type}

/-- The machine after an instruction. -/
def execute (serve : Service σ) (s : Machine σ) : Instruction → Option (Machine σ)
  | .text value => some (s.push (.text value))
  | .int value => some (s.push (.int value))
  | .double value => some (s.push (.double value))
  | .newObject => some (s.push (.object []))
  | .newArray => some (s.push (.array []))
  | .copyFromHeap slot => s.heap[slot]?.map s.push
  | .moveToHeap =>
    match s.stack with
    | value :: below => some { s with stack := below, heap := s.heap ++ [value] }
    | _ => none
  | .truncateHeap count => some { s with heap := s.heap.take (s.heap.length - count) }
  | .noop => some s
  | .setField depth =>
    match s.stack with
    | value :: .text name :: below =>
      (Value.modifyAt (Value.setField? name value) depth below).map fun stack => { s with stack }
    | _ => none
  | .getField depth =>
    match s.stack with
    | .text name :: below =>
      (Value.modifyAt (Value.field? name) depth below).map fun stack => { s with stack }
    | _ => none
  | .arrayPush =>
    match s.stack with
    | value :: .array items :: below => some { s with stack := .array (items ++ [value]) :: below }
    | _ => none
  | .arrayLen =>
    match s.stack with
    | .array items :: below => some { s with stack := .int items.length :: below }
    | _ => none
  | .negate =>
    match s.stack with
    | .bool value :: below => some { s with stack := .bool (!value) :: below }
    | _ => none
  | .getAll store => some (s.ask serve (.all store) s.stack)
  | .query store hidden => some (s.ask serve (.query store hidden) s.stack)
  | .storeLen store => some (s.ask serve (.count store) s.stack)
  | .insert store =>
    match s.stack with
    | record :: below =>
      some { s with stack := below, stores := (serve (.insert store record) s.stores).2 }
    | _ => none
  | .findOne store hidden =>
    match s.stack with
    | .pointer owner id :: below =>
      if owner = store then some (s.ask serve (.find store hidden id) below) else none
    | _ => none
  | .deleteOne store =>
    match s.stack with
    | .pointer owner id :: below =>
      if owner = store then some (s.ask serve (.delete store id) below) else none
    | _ => none
  | .newPush => some (s.push (.pushDocument []))
  | .pushAt path =>
    match s.stack with
    | value :: document :: below =>
      (Value.setNested? pushOperator (".".intercalate path) value document).map
        fun document => { s with stack := document :: below }
    | _ => none
  | .updateOne store =>
    match s.stack with
    | document :: .pointer owner id :: below =>
      if owner = store then some (s.ask serve (.update store id document) below) else none
    | _ => none
  | .returnTop | .jumpIf _ | .enforceSchema .. => none

/-- The machine changes the depth of its stack as expected. -/
theorem depth_of_execute {serve : Service σ} {s after : Machine σ} {instruction : Instruction}
    (h : instruction.execute serve s = some after) :
    instruction.operands ≤ s.stack.length ∧
      after.stack.length = instruction.onDepth s.stack.length := by
  obtain ⟨stack, heap, stores⟩ := s
  cases instruction with
  | text | int | double | newObject | newArray | noop | truncateHeap | getAll | query | storeLen
  | newPush =>
      cases h
      simp [operands, results, onDepth, Machine.push, Machine.ask]
  | copyFromHeap slot =>
      obtain ⟨value, _, rfl⟩ := Option.map_eq_some_iff.mp h
      simp [operands, results, onDepth, Machine.push]
  | moveToHeap | insert | arrayPush | arrayLen | negate =>
      simp only [execute] at h
      split at h
      · cases h
        simp [operands, results, onDepth]
      · cases h
  | findOne | deleteOne | updateOne =>
      simp only [execute] at h
      split at h
      · split at h
        · cases h
          simp [operands, results, onDepth, Machine.ask]
        · cases h
      · cases h
  | pushAt path =>
      simp only [execute] at h
      split at h
      · obtain ⟨document, _, rfl⟩ := Option.map_eq_some_iff.mp h
        simp [operands, results, onDepth]
      · cases h
  | setField | getField =>
      simp only [execute] at h
      split at h
      · obtain ⟨changed, hchanged, rfl⟩ := Option.map_eq_some_iff.mp h
        have hlength := Value.length_of_modifyAt hchanged
        simp only [operands, results, onDepth, List.length_cons] at hlength ⊢
        omega
      · cases h
  | returnTop | jumpIf | enforceSchema => cases h

end Instruction

/-- The machine after instructions in a row. -/
def Code.run {σ : Type} (serve : Service σ) (s : Machine σ) : Code → Option (Machine σ)
  | [] => some s
  | instruction :: rest => (instruction.execute serve s).bind fun s => run serve s rest

theorem Code.run_append {σ : Type} {serve : Service σ} {s : Machine σ} (first second : Code) :
    run serve s (first ++ second) = (run serve s first).bind fun s => run serve s second := by
  induction first generalizing s with
  | nil => rfl
  | cons instruction rest ih => simp [run, ih, Option.bind_assoc]

/-- Code that has been run has found all its operands. -/
theorem Code.depthFrom_of_run {σ : Type} {serve : Service σ} {s after : Machine σ} {code : Code}
    (h : run serve s code = some after) :
    depthFrom s.stack.length code = some after.stack.length := by
  induction code generalizing s with
  | nil =>
      cases h
      rfl
  | cons instruction rest ih =>
      obtain ⟨middle, hmiddle, hrest⟩ := Option.bind_eq_some_iff.mp h
      obtain ⟨hoperands, hdepth⟩ := Instruction.depth_of_execute hmiddle
      exact depthFrom_cons.mpr ⟨hoperands, hdepth ▸ ih hrest⟩

end StoredProc
