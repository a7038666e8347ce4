import StoredProc.Proofs.Compile.Elaboration

/-! # What the code of expressions consists of

The code of an expression works on the stack and on the stores. It neither
jumps nor returns, it leaves the heap as it is, and every slot it reads belongs
to a variable in scope. All facts about statements that need to see inside the
code of expressions follow from this one.
-/

namespace StoredProc

/-- Renaming the fault of a computation does not change its result. -/
theorem mapError_ok_iff {ε ε' α : Type} {rename : ε → ε'} {result : Except ε α} {value : α} :
    result.mapError rename = .ok value ↔ result = .ok value := by
  cases result with
  | error fault => exact ⟨nofun, nofun⟩
  | ok found =>
      change Except.ok found = Except.ok value ↔ _
      simp

/-- An instruction that may occur in an expression compiled in a scope. -/
def Instruction.Computes (scope : Scope) : Instruction → Prop
  | .copyFromHeap slot => ∃ name held, scope.get? name = some held ∧ held.slot = slot
  | .moveToHeap | .truncateHeap _ | .returnTop | .enforceSchema .. | .noop | .negate
  | .jumpIf _ => False
  | _ => True

/-- Code made of such instructions only. -/
def Code.Computes (scope : Scope) (code : Code) : Prop :=
  ∀ instruction ∈ code, instruction.Computes scope

namespace Code.Computes

variable {scope : Scope}

@[simp]
theorem nil : Code.Computes scope [] := by
  intro instruction hmem
  cases hmem

@[simp]
theorem cons {instruction : Instruction} {code : Code} :
    Code.Computes scope (instruction :: code) ↔
      instruction.Computes scope ∧ Code.Computes scope code :=
  List.forall_mem_cons

@[simp]
theorem append {first second : Code} :
    Code.Computes scope (first ++ second) ↔
      Code.Computes scope first ∧ Code.Computes scope second :=
  List.forall_mem_append

end Code.Computes

variable {m : Manifest} {scope : Scope}

/-- By induction on the elaboration, all code of expressions is made of such instructions. -/
theorem Elaborates.computes {part : Part} {code : Code} (h : Elaborates m scope part code) :
    Code.Computes scope code := by
  induction h with
  | ofVariable hheld _ _ _ ih => exact Code.Computes.cons.mpr ⟨⟨_, _, hheld, rfl⟩, ih⟩
  | append _ _ _ ih | push _ ih | descend _ _ ih => exact ih
  | update _ _ _ _ ihchange ihrest => simp [Instruction.Computes, ihchange, ihrest]
  | element _ _ ihvalue ihrest | field _ _ ihvalue ihrest | record _ _ ihvalue ihrest =>
      simp [Instruction.Computes, ihvalue, ihrest]
  | array _ ih | openArray _ ih | object _ _ _ _ ih | openObject _ _ ih | access _ _ ih
  | delete _ _ ih | find _ _ ih | length _ ih => simp [Instruction.Computes, ih]
  | all | count | rows | pointers | text | int | double | noElements | noFields | noRecords
  | stop => simp [Instruction.Computes]

namespace Expr

/-- The code of an expression computes in the scope it is compiled in. -/
theorem code_computes {target : DataType} {result : TypedCode} {expr : Expr}
    (h : expr.code m scope target = .ok result) : Code.Computes scope result.1 :=
  (elaborates_of_code h).computes

/-- A truth value comes from a variable: neither literals nor stores have one. -/
theorem bindings_ne_nil_of_code_bool {condition : Expr} {result : TypedCode}
    (h : condition.code m scope .bool = .ok result) : scope.bindings ≠ [] := by
  intro hempty
  obtain ⟨code, type⟩ := result
  cases elaborates_of_code h with
  | ofVariable hheld => simp [Scope.get?, hempty] at hheld
  | all _ _ hfits | rows _ _ hfits | pointers _ _ hfits => simp [DataType.compatible] at hfits
  | count _ _ hfits | text hfits | int hfits | double hfits => cases hfits

end Expr

end StoredProc
