import StoredProc.Compile.Procedure
import StoredProc.Machine.Program
import StoredProc.Text.Natural

/-!
# Manifests to programs

All functions of a manifest are compiled, each on its own. The program has the
procedures of those that succeed; the failures are listed in natural order of
the names of their functions.
-/

namespace StoredProc

/-- The program of a manifest and the functions that are missing in it. -/
structure Build where
  program : Program
  failures : List FunctionError := []
  deriving Inhabited

/-- Failures in the order in which they are reported: inserted one after the
other, however many they are. A sort that inserts no more than twelve items and
goes another way with longer lists agrees with this one on up to twelve failures,
and on more where natural order is a strict order of their names. Of more failures
than twelve whose names it does not order strictly, this is the order of inserting
them, and another way may list them differently. -/
def FunctionError.sort (failures : List FunctionError) : List FunctionError :=
  Text.insertionSort (fun a b => Text.naturalLess a.function b.function) failures

/-- The report of several failures, given the reports of each. -/
def FunctionError.summary (reports : List String) : String :=
  "\n".intercalate ((reports.length.repr ++ " function(s) failed to compile:") :: reports)

namespace Build

def isComplete (b : Build) : Bool := b.failures.isEmpty

/-- The report of all failures. -/
def failureMessage (b : Build) : String :=
  FunctionError.summary (b.failures.map FunctionError.message)

end Build

namespace Manifest

/-- The procedures of the functions that compile. -/
def procedures (m : Manifest) (r : Registry) : List Procedure :=
  m.functions.filterMap fun f => (f.compile m r).toOption

/-- The failures of the functions that do not compile, in order of declaration. -/
def failures (m : Manifest) (r : Registry) : List FunctionError :=
  m.functions.filterMap fun f =>
    match f.compile m r with
    | .error failure => some failure
    | .ok _ => none

/-- The program of a manifest with its registry. -/
def program (m : Manifest) (r : Registry) : Program :=
  let procedures := m.procedures r
  { procedures := procedures.map fun p => (p.name, p.ops)
    schemas := r.schemas.map Prod.snd
    stores := r.stores.map fun store => (store.1, .object store.2)
    frames := procedures.map fun p => (p.name, (p.frameSize : Int)) }

/-- Compile a manifest. -/
def compile (m : Manifest) : Except Registry.Error Build := do
  let r ← Registry.ofManifest m
  return { program := m.program r, failures := FunctionError.sort (m.failures r) }

/-- The traces of all functions in order of declaration. -/
def trace (m : Manifest) : String :=
  match Registry.ofManifest m with
  | .error _ => ""
  | .ok r => String.join (m.functions.map fun f => f.trace m r)

end Manifest

end StoredProc
