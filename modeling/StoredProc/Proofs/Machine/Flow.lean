import StoredProc.Machine.Instruction

/-! # The flow of control, and the heap along it

Control starts at the first instruction of a procedure. From a jump it may go on
in both ways, whatever the test says; a return ends the procedure, and so does
running past the last instruction. This allows every run of the machine.

The heap is a list that grows and shrinks at its end. Storing a variable appends
the value on top of the stack, and truncating removes as many values as it says.
What is on top of the stack is left open: it is given for each address, since no
instruction is executed twice when all jumps go forward.
-/

namespace StoredProc

/-- An instruction that is executed, and whether control jumps from it. -/
structure Transit where
  address : Nat
  jumped : Bool
  deriving DecidableEq

namespace Instruction

/-- Where control goes from an instruction at an address. -/
def next? (address : Nat) (jumped : Bool) : Instruction → Option Nat
  | .returnTop => none
  | .jumpIf goal => some (if jumped then goal else address + 1)
  | _ => if jumped then none else some (address + 1)

/-- The heap after an instruction, given the value on top of the stack. -/
def onHeap {α : Type} (top : α) (heap : List α) : Instruction → List α
  | .moveToHeap => heap ++ [top]
  | .truncateHeap count => heap.take (heap.length - count)
  | _ => heap

/-- Instructions that pass control on and leave the heap alone. -/
def isStraight : Instruction → Bool
  | .returnTop | .jumpIf _ | .moveToHeap | .truncateHeap _ => false
  | _ => true

theorem next?_of_isStraight {instruction : Instruction} (h : instruction.isStraight = true)
    (address : Nat) (jumped : Bool) :
    instruction.next? address jumped = if jumped then none else some (address + 1) := by
  cases instruction with
  | returnTop | jumpIf => cases h
  | _ => rfl

theorem onHeap_of_isStraight {α : Type} {instruction : Instruction}
    (h : instruction.isStraight = true) (top : α) (heap : List α) :
    instruction.onHeap top heap = heap := by
  cases instruction with
  | moveToHeap | truncateHeap => cases h
  | _ => rfl

end Instruction

/-- A way of control from one address to another, with what is executed. -/
inductive Flow (code : Code) : Nat → List Transit → Nat → Prop
  | stay (address : Nat) : Flow code address [] address
  | step {address next stop : Nat} {instruction : Instruction} {jumped : Bool}
      {transits : List Transit} (hinstruction : code[address]? = some instruction)
      (hnext : instruction.next? address jumped = some next)
      (hrest : Flow code next transits stop) :
      Flow code address (⟨address, jumped⟩ :: transits) stop

/-- A way on which control does not jump, so that it enters every body. -/
def Entering (transits : List Transit) : Prop := ∀ t ∈ transits, t.jumped = false

theorem entering_append {first second : List Transit} :
    Entering (first ++ second) ↔ Entering first ∧ Entering second :=
  List.forall_mem_append

/-- The heap after an executed instruction. -/
def Transit.heapAfter {α : Type} (code : Code) (top : Nat → α) (heap : List α) (t : Transit) :
    List α :=
  match code[t.address]? with
  | some instruction => instruction.onHeap (top t.address) heap
  | none => heap

/-- The heap after all that is executed on a way. -/
def Code.heapAfter {α : Type} (code : Code) (top : Nat → α) (transits : List Transit)
    (heap : List α) : List α :=
  transits.foldl (Transit.heapAfter code top) heap

namespace Code

variable {code : Code}

section Heap

variable {α : Type} {top : Nat → α}

@[simp]
theorem heapAfter_nil (heap : List α) : code.heapAfter top [] heap = heap := rfl

@[simp]
theorem heapAfter_cons (t : Transit) (transits : List Transit) (heap : List α) :
    code.heapAfter top (t :: transits) heap =
      code.heapAfter top transits (t.heapAfter code top heap) := rfl

theorem heapAfter_append (first second : List Transit) (heap : List α) :
    code.heapAfter top (first ++ second) heap =
      code.heapAfter top second (code.heapAfter top first heap) :=
  List.foldl_append

/-- Instructions that leave the heap alone do so together. -/
theorem heapAfter_eq_self {transits : List Transit} {heap : List α}
    (h : ∀ t ∈ transits, t.heapAfter code top heap = heap) :
    code.heapAfter top transits heap = heap := by
  induction transits with
  | nil => rfl
  | cons t rest ih =>
      rw [heapAfter_cons, h t List.mem_cons_self]
      exact ih fun t ht => h t (List.mem_cons_of_mem _ ht)

end Heap

/-- All ways of control go forward. -/
def Forward (code : Code) : Prop :=
  ∀ ⦃address next : Nat⦄ ⦃instruction : Instruction⦄ ⦃jumped : Bool⦄,
    code[address]? = some instruction → instruction.next? address jumped = some next →
      address < next

/-- A part of some code that control can only leave at its end. -/
def Closed (code : Code) (start stop : Nat) : Prop :=
  ∀ ⦃address next : Nat⦄ ⦃instruction : Instruction⦄ ⦃jumped : Bool⦄,
    start ≤ address → address < stop → code[address]? = some instruction →
      instruction.next? address jumped = some next → address < next ∧ next ≤ stop

end Code

namespace Flow

variable {code : Code} {start middle stop : Nat} {transits : List Transit}

theorem single {instruction : Instruction} {address next : Nat} (jumped : Bool)
    (hinstruction : code[address]? = some instruction)
    (hnext : instruction.next? address jumped = some next) :
    Flow code address [⟨address, jumped⟩] next :=
  .step hinstruction hnext (.stay _)

theorem append {first second : List Transit} (h₁ : Flow code start first middle)
    (h₂ : Flow code middle second stop) : Flow code start (first ++ second) stop := by
  induction h₁ with
  | stay => exact h₂
  | step hinstruction hnext _ ih => exact .step hinstruction hnext (ih h₂)

/-- Control does not come back in code that goes forward. -/
theorem le (h : Flow code start transits stop) (hforward : code.Forward) : start ≤ stop := by
  induction h with
  | stay => exact Nat.le_refl _
  | step hinstruction hnext _ ih => exact Nat.le_of_lt (Nat.lt_of_lt_of_le
      (hforward hinstruction hnext) ih)

/-- Control does not come back to where it was. -/
theorem eq_nil (h : Flow code start transits start) (hforward : code.Forward) :
    transits = [] := by
  cases h with
  | stay => rfl
  | step hinstruction hnext hrest =>
      have hlt := hforward hinstruction hnext
      have hle := hrest.le hforward
      omega

/-- What comes before and after an executed instruction. -/
theorem split_mem (h : Flow code start transits stop) {t : Transit} (ht : t ∈ transits) :
    ∃ first second instruction next, transits = first ++ t :: second ∧
      Flow code start first t.address ∧ code[t.address]? = some instruction ∧
      instruction.next? t.address t.jumped = some next ∧ Flow code next second stop := by
  induction h with
  | stay => cases ht
  | @step _ _ _ _ _ transits hinstruction hnext hrest ih =>
      rcases List.mem_cons.mp ht with rfl | ht
      · exact ⟨[], transits, _, _, rfl, .stay _, hinstruction, hnext, hrest⟩
      · obtain ⟨first, second, found, next, rfl, hfirst, hfound, hnext', hsecond⟩ := ih ht
        exact ⟨_ :: first, second, found, next, rfl, .step hinstruction hnext hfirst, hfound,
          hnext', hsecond⟩

/-- A way out of a closed part passes its end. Until then it stays inside. -/
theorem split {low high : Nat} (h : Flow code start transits stop)
    (hclosed : code.Closed low high) (hlow : low ≤ start) (hhigh : start ≤ high)
    (hstop : high ≤ stop) :
    ∃ first second, transits = first ++ second ∧ Flow code start first high ∧
      Flow code high second stop ∧ ∀ t ∈ first, low ≤ t.address ∧ t.address < high := by
  induction h with
  | stay address =>
      obtain rfl : address = high := Nat.le_antisymm hhigh hstop
      exact ⟨[], [], rfl, .stay _, .stay _, by simp⟩
  | @step address next stop instruction jumped transits hinstruction hnext hrest ih =>
      rcases Nat.eq_or_lt_of_le hhigh with rfl | hlt
      · exact ⟨[], _, rfl, .stay _, .step hinstruction hnext hrest, by simp⟩
      · obtain ⟨hforward, hle⟩ := hclosed hlow hlt hinstruction hnext
        obtain ⟨first, second, rfl, hfirst, hsecond, hinside⟩ :=
          ih (by omega) hle hstop
        refine ⟨_ :: first, second, rfl, .step hinstruction hnext hfirst, hsecond, ?_⟩
        intro t ht
        rcases List.mem_cons.mp ht with rfl | ht
        · exact ⟨hlow, hlt⟩
        · exact hinside t ht

/-- What is executed on a way lies between its ends. -/
theorem bounds (h : Flow code start transits stop) (hforward : code.Forward) :
    ∀ t ∈ transits, start ≤ t.address ∧ t.address < stop := by
  induction h with
  | stay => simp
  | step hinstruction hnext hrest ih =>
      have hlt := hforward hinstruction hnext
      have hle := hrest.le hforward
      intro t ht
      rcases List.mem_cons.mp ht with rfl | ht
      · exact ⟨Nat.le_refl _, by simp only; omega⟩
      · have hinside := ih t ht
        omega

/-- A way from an address to the next one executes one instruction. -/
theorem eq_singleton (h : Flow code start transits (start + 1)) (hforward : code.Forward) :
    ∃ instruction jumped, transits = [⟨start, jumped⟩] ∧ code[start]? = some instruction ∧
      instruction.next? start jumped = some (start + 1) := by
  generalize hstop : start + 1 = stop at h
  cases h with
  | stay => omega
  | @step _ next _ instruction jumped _ hinstruction hnext hrest =>
      have hlt := hforward hinstruction hnext
      have hle := hrest.le hforward
      obtain rfl : next = stop := by omega
      rw [hrest.eq_nil hforward]
      exact ⟨instruction, jumped, rfl, hinstruction, hnext⟩

/-- A way without jumps passes every address on it. -/
theorem split_of_entering (h : Flow code start transits stop) (hentering : Entering transits)
    (hle : start ≤ middle) (hle' : middle ≤ stop) :
    ∃ first second, transits = first ++ second ∧ Flow code start first middle ∧
      Flow code middle second stop := by
  induction h with
  | stay address =>
      obtain rfl : address = middle := Nat.le_antisymm hle hle'
      exact ⟨[], [], rfl, .stay _, .stay _⟩
  | @step address next stop instruction jumped transits hinstruction hnext hrest ih =>
      rcases Nat.eq_or_lt_of_le hle with rfl | hlt
      · exact ⟨[], _, rfl, .stay _, .step hinstruction hnext hrest⟩
      · obtain ⟨hjumped, hentering⟩ := List.forall_mem_cons.mp hentering
        -- Without a jump every instruction but a return leads to the next address.
        have hsucc : next = address + 1 := by
          simp only at hjumped
          subst hjumped
          cases instruction with
          | returnTop => simp [Instruction.next?] at hnext
          | _ => exact (Option.some.inj hnext).symm
        obtain ⟨first, second, rfl, hfirst, hsecond⟩ := ih hentering (by omega) hle'
        exact ⟨_ :: first, second, rfl, .step hinstruction hnext hfirst, hsecond⟩

end Flow

end StoredProc
