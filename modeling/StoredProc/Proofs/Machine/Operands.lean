import StoredProc.Proofs.Machine.Flow

/-! # Operands

Every instruction takes some values from the stack and leaves some. Along a way of
control the depth of the stack is thereby known, and with it whether an instruction
finds its operands.
-/

namespace StoredProc

namespace Instruction

/-- The number of values that an instruction takes or looks at. -/
def operands : Instruction → Nat
  | .moveToHeap | .returnTop | .jumpIf _ | .insert _ | .arrayLen | .negate | .findOne ..
  | .deleteOne _ => 1
  | .arrayPush | .pushAt _ | .updateOne _ => 2
  | .setField depth => depth + 2
  | .getField depth => depth + 1
  | _ => 0

/-- The number of values that an instruction leaves in their place. An insertion
leaves nothing. -/
def results : Instruction → Nat
  | .text _ | .int _ | .double _ | .newObject | .newArray | .copyFromHeap _ | .getAll _
  | .query .. | .storeLen _ | .newPush | .arrayLen | .negate | .findOne .. | .deleteOne _
  | .arrayPush | .pushAt _ | .updateOne _ => 1
  | .setField depth | .getField depth => depth
  | _ => 0

/-- The depth of the stack after an instruction. -/
def onDepth (depth : Nat) (instruction : Instruction) : Nat :=
  depth - instruction.operands + instruction.results

end Instruction

namespace Code

variable {code : Code} {depth last : Nat}

/-! ## Straight-line code -/

/-- The depth after instructions in a row, if all of them find their operands. -/
def depthFrom (depth : Nat) : Code → Option Nat
  | [] => some depth
  | instruction :: rest =>
    if instruction.operands ≤ depth then depthFrom (instruction.onDepth depth) rest else none

@[simp]
theorem depthFrom_nil : depthFrom depth [] = some depth := rfl

@[simp]
theorem depthFrom_cons {instruction : Instruction} {rest : Code} :
    depthFrom depth (instruction :: rest) = some last ↔
      instruction.operands ≤ depth ∧ depthFrom (instruction.onDepth depth) rest = some last := by
  simp [depthFrom]

/-- The depth after two parts is that after the second, from that after the first. -/
@[simp]
theorem depthFrom_append {first second : Code} :
    depthFrom depth (first ++ second) = some last ↔
      ∃ middle, depthFrom depth first = some middle ∧ depthFrom middle second = some last := by
  induction first generalizing depth with
  | nil => simp [depthFrom]
  | cons instruction rest ih =>
      rw [List.cons_append, depthFrom_cons, ih]
      simp only [depthFrom_cons]
      constructor
      · rintro ⟨hle, middle, hfirst, hsecond⟩
        exact ⟨middle, ⟨hle, hfirst⟩, hsecond⟩
      · rintro ⟨middle, ⟨hle, hfirst⟩, hsecond⟩
        exact ⟨hle, middle, hfirst, hsecond⟩

/-! ## Ways of control -/

/-- The depth after all that is executed on a way. -/
def depthAfter (code : Code) (transits : List Transit) (depth : Nat) : Nat :=
  transits.foldl (fun depth t => (code[t.address]?.map (·.onDepth depth)).getD depth) depth

/-- From an address on, with so many values on the stack, every instruction that
control gets to finds its operands. -/
def Supplies (code : Code) (start depth : Nat) : Prop :=
  ∀ ⦃transits : List Transit⦄ ⦃address : Nat⦄ ⦃instruction : Instruction⦄,
    Flow code start transits address → code[address]? = some instruction →
      instruction.operands ≤ code.depthAfter transits depth

namespace Supplies

variable {start : Nat} {instruction : Instruction}

theorem operands_le (h : code.Supplies start depth)
    (hinstruction : code[start]? = some instruction) : instruction.operands ≤ depth :=
  h (.stay start) hinstruction

theorem next (h : code.Supplies start depth) (hinstruction : code[start]? = some instruction)
    {jumped : Bool} {next : Nat} (hnext : instruction.next? start jumped = some next) :
    code.Supplies next (instruction.onDepth depth) := by
  intro transits address found hflow hfound
  have hoperands := h (.step hinstruction hnext hflow) hfound
  simpa [depthAfter, hinstruction] using hoperands

/-- An instruction that finds its operands may stand in front, if those that control goes on to
find theirs. -/
theorem step (hinstruction : code[start]? = some instruction)
    (hoperands : instruction.operands ≤ depth)
    (hnext : ∀ jumped next, instruction.next? start jumped = some next →
      code.Supplies next (instruction.onDepth depth)) : code.Supplies start depth := by
  intro transits address found hflow hfound
  cases hflow with
  | stay =>
      rw [hinstruction, Option.some.injEq] at hfound
      exact hfound ▸ hoperands
  | @step _ next _ first jumped rest hfirst hmove hrest =>
      rw [hinstruction, Option.some.injEq] at hfirst
      subst hfirst
      have hlater := hnext jumped next hmove hrest hfound
      simpa [depthAfter, hinstruction] using hlater

/-- Behind the last instruction nothing is asked for. -/
theorem of_length_le (hle : code.length ≤ start) : code.Supplies start depth := by
  have hnone : code[start]? = none := List.getElem?_eq_none hle
  intro transits address instruction hflow hinstruction
  cases hflow with
  | stay => simp [hnone] at hinstruction
  | step hfirst => simp [hnone] at hfirst

end Supplies

end Code

end StoredProc
