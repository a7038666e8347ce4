import StoredProc.Machine.Instruction
import StoredProc.Machine.Verify

/-! # Operations that pass verification

The verifier reads a procedure from front to back and compares the jumps with its
length in the end. For a procedure to pass, it is enough to look at each operation
on its own.
-/

namespace StoredProc

namespace Op

/-- An operation that the verifier has nothing against in a procedure of so many
operations. -/
structure InRange (count : Nat) (op : Op) : Prop where
  jump : op.isJump = true → ∃ address : Nat, op.address? = some address ∧ address < count
  size : op.hasSize = true → ∃ size : Nat, op.data = .int size

/-- Operations in range give targets, which are in range. -/
theorem exists_targetsFrom {count : Nat} {ops : List Op} (h : ∀ op ∈ ops, op.InRange count)
    (index : Nat) :
    ∃ targets, targetsFrom index ops = .ok targets ∧ ∀ target ∈ targets, target < count := by
  induction ops generalizing index with
  | nil => exact ⟨[], rfl, by simp⟩
  | cons op rest ih =>
      have hop := h op (List.mem_cons_self ..)
      obtain ⟨targets, htargets, hlt⟩ :=
        ih (fun other hother => h other (List.mem_cons_of_mem _ hother)) (index + 1)
      unfold targetsFrom
      split
      next hjump =>
        obtain ⟨address, haddress, hinside⟩ := hop.jump hjump
        have hnonneg : ¬(address : Int) < 0 := by omega
        refine ⟨address :: targets, by simp [haddress, htargets, hnonneg, Except.map], ?_⟩
        simpa using ⟨hinside, hlt⟩
      next =>
        split
        next hsize =>
          obtain ⟨size, hdata⟩ := hop.size hsize
          have hnonneg : ¬(size : Int) < 0 := by omega
          exact ⟨targets, by simp [hdata, hnonneg, htargets], hlt⟩
        next => exact ⟨targets, htargets, hlt⟩

theorem verify_of_inRange {ops : List Op} (h : ∀ op ∈ ops, op.InRange ops.length) :
    verify ops = .ok () := by
  obtain ⟨targets, htargets, hlt⟩ := exists_targetsFrom h 0
  have hnone : targets.filter (ops.length ≤ ·) = [] := by
    simpa [List.filter_eq_nil_iff] using hlt
  simp [verify, htargets, hnone, bind, Except.bind]

end Op

/-- Slots, counts and depths are natural numbers, so only a jump can be wrong. -/
theorem Instruction.toOp_inRange {instruction : Instruction} {count : Nat}
    (h : ∀ goal, instruction = .jumpIf goal → goal < count) : instruction.toOp.InRange count := by
  cases instruction with
  | jumpIf goal => exact ⟨fun _ => ⟨goal, rfl, h goal rfl⟩, nofun⟩
  | copyFromHeap n | truncateHeap n | setField n | getField n =>
      exact ⟨nofun, fun _ => ⟨n, rfl⟩⟩
  | _ => exact ⟨nofun, nofun⟩

/-- Code whose jumps stay inside of it passes verification. -/
theorem Code.verify_of_jumps {code : Code} (h : ∀ goal, .jumpIf goal ∈ code → goal < code.length) :
    Op.verify (code.map Instruction.toOp) = .ok () := by
  apply Op.verify_of_inRange
  intro op hop
  obtain ⟨instruction, hinstruction, rfl⟩ := List.mem_map.mp hop
  rw [List.length_map]
  apply Instruction.toOp_inRange
  rintro goal rfl
  exact h goal hinstruction

end StoredProc
