import Mathlib.Order.Bounds.Basic
import StoredProc.Machine.Program
import StoredProc.Proofs.DataType.FieldOrder

/-! # What verification reports

The operations of a procedure are read once from front to back. The first one whose
payload is not the number it should be ends the reading, and it is the one reported.
Only if there is none are the targets of the jumps compared with the length of the
procedure, and the nearest one outside is reported. A program is reported by the first
of its procedures, in the order of their names, that is not accepted.
-/

namespace StoredProc

namespace Op

variable {op : Op} {ops before after : List Op}

/-- An operation whose payload should be a slot, a count, a depth or an address, and is none.
An integer of the program is none, whatever its value. -/
def Malformed (op : Op) : Prop :=
  (op.isJump = true ∨ op.hasSize = true) ∧ ∀ n : Nat, op.data ≠ .int n

/-- What is said of a malformed operation. -/
def complaint (index : Nat) (op : Op) : VerifyError :=
  if op.isJump then
    match op.data with
    | .int address => .negativeAddress op.kind index address
    | _ => .nonIntegerAddress op.kind index
  else .badOperand op.kind index op.data

/-- The addresses that are jumped to. -/
def targets (ops : List Op) : List Nat :=
  ops.filterMap fun op => op.address?.map Int.toNat

theorem isJump_iff : op.isJump = true ↔ op.kind ∈ ["conditionalGoto", "gotoOp"] := by
  simp [isJump]

theorem hasSize_iff : op.hasSize = true ↔
    op.kind ∈ ["copyFromHeap", "overwriteHeap", "truncateHeap", "setField", "getField"] := by
  simp [hasSize]

theorem address?_eq_some_iff {address : Int} :
    op.address? = some address ↔ op.isJump = true ∧ op.data = .int address := by
  unfold address?
  cases op.isJump <;> cases op.data <;> simp

/-- What is not malformed has a natural number where one is needed. -/
theorem exists_natural (h : ¬op.Malformed) (hneeds : op.isJump = true ∨ op.hasSize = true) :
    ∃ n : Nat, op.data = .int n := by
  by_contra hnone
  exact h ⟨hneeds, fun n hn => hnone ⟨n, hn⟩⟩

/-- The complaint says which operation it is about, and whether that is a jump. -/
theorem complaint_message (index : Nat) (op : Op) :
    ∃ reason, (op.complaint index).message =
      (if op.isJump then "invalid jump address: " else "invalid operand: ")
        ++ op.kind ++ " at " ++ addressText index ++ reason := by
  unfold complaint
  cases op.isJump with
  | true =>
      rw [if_pos rfl, if_pos rfl]
      split
      next address _ => exact ⟨" jumps to " ++ address.repr, String.append_assoc⟩
      next => exact ⟨" has a non integer address", rfl⟩
  | false =>
      rw [if_neg Bool.false_ne_true, if_neg Bool.false_ne_true]
      exact ⟨" has operand " ++ op.data.describe, String.append_assoc⟩

/-- A jump to the outside is reported with its target. -/
theorem outside_message (address count : Nat) :
    ∃ reason, (VerifyError.outside address count).message =
      "invalid jump address: " ++ address.repr ++ reason := by
  have hassoc : ∀ first second third fourth : String,
      first ++ second ++ third ++ fourth = first ++ (second ++ (third ++ fourth)) := by
    intro first second third fourth
    rw [String.append_assoc, String.append_assoc]
  exact ⟨" is outside of the " ++ (count.repr ++ " instructions"), hassoc _ _ _ _⟩

/-! ## Reading the operations -/

/-- Reading stops at a malformed operation. -/
theorem targetsFrom_of_malformed (h : op.Malformed) (index : Nat) (rest : List Op) :
    targetsFrom index (op :: rest) = .error (op.complaint index) := by
  obtain ⟨hneeds, hdata⟩ := h
  have hnegative : ∀ value : Int, op.data = .int value → value < 0 := by
    intro value hvalue
    by_contra hle
    exact hdata value.toNat (by rw [hvalue, Int.toNat_of_nonneg (by omega)])
  unfold targetsFrom complaint
  cases hjump : op.isJump with
  | true =>
      simp only [if_true]
      cases haddress : op.address? with
      | none => cases hop : op.data <;> simp [address?, hjump, hop] at haddress ⊢
      | some address =>
          have hint := (address?_eq_some_iff.mp haddress).2
          simp [hint, hnegative address hint]
  | false =>
      have hsize : op.hasSize = true := by simpa [hjump] using hneeds
      simp only [hsize, if_true, Bool.false_eq_true, if_false]
      cases hop : op.data with
      | int value => simp [hnegative value hop]
      | _ => rfl

/-- An operation that is not malformed is passed by, and adds the target of its jump. -/
theorem targetsFrom_of_not_malformed (h : ¬op.Malformed) (index : Nat) (rest : List Op) :
    targetsFrom index (op :: rest) =
      (targetsFrom (index + 1) rest).map (targets [op] ++ ·) := by
  have hsame : ∀ result : Except VerifyError (List Nat), result.map ([] ++ ·) = result := by
    rintro (_ | _) <;> rfl
  rw [targetsFrom.eq_def]
  cases hjump : op.isJump with
  | true =>
      obtain ⟨n, hn⟩ := exists_natural h (Or.inl hjump)
      have haddress : op.address? = some (n : Int) := address?_eq_some_iff.mpr ⟨hjump, hn⟩
      simp [hjump, haddress, targets]
  | false =>
      have htargets : targets [op] = [] := by simp [targets, address?, hjump]
      rw [htargets, hsame]
      cases hsize : op.hasSize with
      | true =>
          obtain ⟨n, hn⟩ := exists_natural h (Or.inr hsize)
          simp [hjump, hsize, hn]
      | false => simp [hjump, hsize]

/-- Reading passes by all operations in front of the first malformed one. -/
theorem targetsFrom_append (h : ∀ op ∈ before, ¬op.Malformed) (index : Nat) (rest : List Op) :
    targetsFrom index (before ++ rest) =
      (targetsFrom (index + before.length) rest).map (targets before ++ ·) := by
  induction before generalizing index with
  | nil =>
      rw [List.nil_append, List.length_nil, Nat.add_zero]
      cases targetsFrom index rest <;> rfl
  | cons op others ih =>
      have hop := h op List.mem_cons_self
      rw [List.cons_append, targetsFrom_of_not_malformed hop,
        ih (fun other hother => h other (List.mem_cons_of_mem _ hother))]
      have htargets : targets (op :: others) = targets [op] ++ targets others :=
        List.filterMap_append (l := [op])
      have hindex : index + 1 + others.length = index + (op :: others).length := by
        rw [List.length_cons]
        omega
      rw [hindex]
      cases targetsFrom (index + (op :: others).length) rest with
      | error cause => rfl
      | ok found => simp [Except.map, htargets]

theorem targetsFrom_eq_targets (h : ∀ op ∈ ops, ¬op.Malformed) :
    targetsFrom 0 ops = .ok (targets ops) := by
  have happend := targetsFrom_append h 0 []
  simpa [targetsFrom, Except.map] using happend

/-! ## Verdicts on a procedure -/

/-- The first malformed operation is reported. -/
theorem verify_of_malformed (hops : ops = before ++ op :: after)
    (hbefore : ∀ other ∈ before, ¬other.Malformed) (hop : op.Malformed) :
    verify ops = .error (op.complaint before.length) := by
  have hread : targetsFrom 0 ops = .error (op.complaint before.length) := by
    rw [hops, targetsFrom_append hbefore, targetsFrom_of_malformed hop, Nat.zero_add]
    rfl
  rw [verify, hread]
  rfl

/-- The addresses outside of a procedure that its jumps go to. -/
def escapes (ops : List Op) : Set Nat :=
  {address | ops.length ≤ address ∧ ∃ op ∈ ops, op.isJump = true ∧ op.data = .int address}

/-- Where nothing is malformed, the addresses outside are among the targets. -/
theorem mem_escapes_iff (h : ∀ op ∈ ops, ¬op.Malformed) {address : Nat} :
    address ∈ escapes ops ↔ address ∈ (targets ops).filter (ops.length ≤ ·) := by
  rw [List.mem_filter, targets, List.mem_filterMap, decide_eq_true_eq, and_comm, escapes,
    Set.mem_ofPred_eq]
  refine and_congr_right fun _ => exists_congr fun op => and_congr_right fun hop => ?_
  constructor
  · intro hjump
    rw [address?_eq_some_iff.mpr hjump]
    rfl
  · intro htarget
    obtain ⟨value, hvalue, rfl⟩ := Option.map_eq_some_iff.mp htarget
    obtain ⟨hjump, hdata⟩ := address?_eq_some_iff.mp hvalue
    obtain ⟨n, hn⟩ := exists_natural (h op hop) (Or.inl hjump)
    rw [hdata, Operand.int.injEq] at hn
    subst hn
    exact ⟨hjump, hdata⟩

/-- If no operation is malformed, only a jump that leaves the procedure is reported, and
it is the nearest. -/
theorem verify_of_not_malformed (h : ∀ op ∈ ops, ¬op.Malformed) :
    (verify ops = .ok () ∧ escapes ops = ∅) ∨
      ∃ address, verify ops = .error (.outside address ops.length) ∧
        IsLeast (escapes ops) address := by
  rw [verify, targetsFrom_eq_targets h]
  cases hmin : ((targets ops).filter (ops.length ≤ ·)).min? with
  | none =>
      refine Or.inl ⟨by simp [bind, Except.bind, hmin], ?_⟩
      rw [Set.eq_empty_iff_forall_notMem]
      intro address haddress
      rw [mem_escapes_iff h, List.min?_eq_none_iff.mp hmin] at haddress
      cases haddress
  | some target =>
      obtain ⟨hmem, hle⟩ := List.min?_eq_some_iff.mp hmin
      refine Or.inr ⟨target, by simp [bind, Except.bind, hmin], (mem_escapes_iff h).mpr hmem, ?_⟩
      intro address haddress
      exact hle address ((mem_escapes_iff h).mp haddress)

/-- Either no operation is malformed, or there is a first one. -/
theorem first_malformed (ops : List Op) :
    (∀ op ∈ ops, ¬op.Malformed) ∨
      ∃ before op after, ops = before ++ op :: after ∧
        (∀ other ∈ before, ¬other.Malformed) ∧ op.Malformed := by
  induction ops with
  | nil => exact Or.inl (by simp)
  | cons op rest ih =>
      by_cases hop : op.Malformed
      · exact Or.inr ⟨[], op, rest, rfl, by simp, hop⟩
      · rcases ih with hrest | ⟨before, bad, after, rfl, hbefore, hbad⟩
        · exact Or.inl (List.forall_mem_cons.mpr ⟨hop, hrest⟩)
        · exact Or.inr ⟨op :: before, bad, after, rfl,
            List.forall_mem_cons.mpr ⟨hop, hbefore⟩, hbad⟩

/-- A procedure whose jumps go to its own operations, and whose slots, counts and depths
are not negative. -/
structure Admissible (ops : List Op) : Prop where
  jump : ∀ op ∈ ops, op.kind ∈ ["conditionalGoto", "gotoOp"] →
    ∃ address : Int, op.data = .int address ∧ 0 ≤ address ∧ address < ops.length
  size : ∀ op ∈ ops,
    op.kind ∈ ["copyFromHeap", "overwriteHeap", "truncateHeap", "setField", "getField"] →
      ∃ size : Int, op.data = .int size ∧ 0 ≤ size

theorem Admissible.not_malformed (h : Admissible ops) : ∀ op ∈ ops, ¬op.Malformed := by
  rintro op hop ⟨hjump | hsize, hdata⟩
  · obtain ⟨address, haddress, hle, _⟩ := h.jump op hop (isJump_iff.mp hjump)
    exact hdata address.toNat (by rw [haddress, Int.toNat_of_nonneg hle])
  · obtain ⟨size, hvalue, hle⟩ := h.size op hop (hasSize_iff.mp hsize)
    exact hdata size.toNat (by rw [hvalue, Int.toNat_of_nonneg hle])

theorem Admissible.escapes_eq (h : Admissible ops) : escapes ops = ∅ := by
  rw [Set.eq_empty_iff_forall_notMem]
  rintro target ⟨hle, op, hop, hjump, hdata⟩
  obtain ⟨address, haddress, _, hlt⟩ := h.jump op hop (isJump_iff.mp hjump)
  rw [hdata, Operand.int.injEq] at haddress
  omega

/-- Without malformed operations and jumps outside, a procedure is admissible. -/
theorem admissible_of_not_malformed (h : ∀ op ∈ ops, ¬op.Malformed) (hescapes : escapes ops = ∅) :
    Admissible ops where
  jump := by
    intro op hop hkind
    have hjump := isJump_iff.mpr hkind
    obtain ⟨n, hn⟩ := exists_natural (h op hop) (Or.inl hjump)
    refine ⟨n, hn, by omega, ?_⟩
    by_contra hle
    have hmem : n ∈ escapes ops := ⟨by omega, op, hop, hjump, hn⟩
    rw [hescapes] at hmem
    exact hmem
  size := by
    intro op hop hkind
    obtain ⟨n, hn⟩ := exists_natural (h op hop) (Or.inr (hasSize_iff.mpr hkind))
    exact ⟨n, hn, by omega⟩

/-- Exactly the admissible procedures are accepted. -/
theorem verify_eq_ok_iff : verify ops = .ok () ↔ Admissible ops := by
  constructor
  · intro hok
    rcases first_malformed ops with hnone | ⟨before, op, after, hops, hbefore, hop⟩
    · rcases verify_of_not_malformed hnone with ⟨_, hescapes⟩ | ⟨address, herror, _⟩
      · exact admissible_of_not_malformed hnone hescapes
      · rw [herror] at hok
        cases hok
    · rw [verify_of_malformed hops hbefore hop] at hok
      cases hok
  · intro hadmissible
    rcases verify_of_not_malformed hadmissible.not_malformed with ⟨hok, _⟩ | ⟨address, _, hleast⟩
    · exact hok
    · have hmem := hleast.1
      rw [hadmissible.escapes_eq] at hmem
      exact hmem.elim

/-- Where nothing is malformed, the nearest address outside is reported. -/
theorem verify_eq_error_iff (h : ∀ op ∈ ops, ¬op.Malformed) {error : VerifyError} :
    verify ops = .error error ↔
      ∃ address, error = .outside address ops.length ∧ IsLeast (escapes ops) address := by
  rcases verify_of_not_malformed h with ⟨hok, hescapes⟩ | ⟨address, herror, hleast⟩
  · rw [hok, hescapes]
    simp only [reduceCtorEq, false_iff, not_exists, not_and]
    exact fun address _ hleast => hleast.1
  · rw [herror, Except.error.injEq]
    constructor
    · rintro rfl
      exact ⟨address, rfl, hleast⟩
    · rintro ⟨other, rfl, hother⟩
      rw [hleast.unique hother]

end Op

/-! ## Verdicts on a program -/

/-- Work along a list ends at the first item that fails. -/
theorem forM_cases {ε α : Type} (work : α → Except ε Unit) (items : List α) :
    (items.forM work = .ok () ∧ ∀ item ∈ items, work item = .ok ()) ∨
      ∃ before item after error, items = before ++ item :: after ∧
        (∀ other ∈ before, work other = .ok ()) ∧ work item = .error error ∧
        items.forM work = .error error := by
  induction items with
  | nil => exact Or.inl ⟨rfl, by simp⟩
  | cons item rest ih =>
      rw [List.forM_eq_forM, List.forM_cons, ← List.forM_eq_forM]
      cases hitem : work item with
      | error error => exact Or.inr ⟨[], item, rest, error, rfl, by simp, hitem, rfl⟩
      | ok =>
          rcases ih with ⟨hok, hrest⟩ | ⟨before, bad, after, error, rfl, hbefore, hbad, herror⟩
          · exact Or.inl ⟨hok, List.forall_mem_cons.mpr ⟨hitem, hrest⟩⟩
          · exact Or.inr ⟨item :: before, bad, after, error, rfl,
              List.forall_mem_cons.mpr ⟨hitem, hbefore⟩, hbad, herror⟩

namespace Program

variable {p : Program}

theorem mem_procedureNames {name : String} :
    name ∈ p.procedureNames ↔ name ∈ p.procedures.map Prod.fst :=
  List.mem_mergeSort

theorem pairwise_procedureNames (p : Program) : p.procedureNames.Pairwise (· ≤ ·) :=
  Text.pairwise_mergeSort_key (fun name => name) _

/-- All procedures are accepted, or the first one that is not is reported. -/
theorem verify_cases (p : Program) :
    (p.verify = .ok () ∧
        ∀ name ∈ p.procedures.map Prod.fst, Op.verify (p.procedure name) = .ok ()) ∨
      ∃ error, p.verify = .error error ∧ error.procedure ∈ p.procedures.map Prod.fst ∧
        Op.verify (p.procedure error.procedure) = .error error.cause ∧
        ∀ name ∈ p.procedures.map Prod.fst, Op.verify (p.procedure name) ≠ .ok () →
          error.procedure ≤ name := by
  have hok_of : ∀ {name : String} {result : Except Op.VerifyError Unit},
      result.mapError (⟨name, ·⟩ : _ → VerifyError) = .ok () → result = .ok () := by
    rintro name (cause | value) h
    · cases h
    · rfl
  rcases forM_cases (fun name => (Op.verify (p.procedure name)).mapError
      (⟨name, ·⟩ : _ → VerifyError)) p.procedureNames with
    ⟨hok, hall⟩ | ⟨before, name, after, error, hnames, hbefore, hname, herror⟩
  · exact Or.inl ⟨hok, fun name hname => hok_of (hall name (mem_procedureNames.mpr hname))⟩
  · cases hcause : Op.verify (p.procedure name) with
    | ok =>
        rw [hcause] at hname
        cases hname
    | error cause =>
        rw [hcause] at hname
        cases hname
        refine Or.inr ⟨⟨name, cause⟩, herror, ?_, hcause, fun other hother hfails => ?_⟩
        · rw [← mem_procedureNames, hnames]
          simp
        · rw [← mem_procedureNames, hnames] at hother
          rcases List.mem_append.mp hother with hearly | hlate
          · exact absurd (hok_of (hbefore other hearly)) hfails
          · have hsorted := pairwise_procedureNames p
            rw [hnames] at hsorted
            rcases List.mem_cons.mp hlate with rfl | hafter
            · exact String.le_refl _
            · exact (List.pairwise_cons.mp (List.pairwise_append.mp hsorted).2.1).1 other hafter

/-- A program is accepted exactly if all of its procedures are. -/
theorem verify_eq_ok_iff :
    p.verify = .ok () ↔
      ∀ name ∈ p.procedures.map Prod.fst, Op.verify (p.procedure name) = .ok () := by
  rcases verify_cases p with ⟨hok, hall⟩ | ⟨error, herror, hmem, hcause, _⟩
  · exact iff_of_true hok hall
  · rw [herror]
    simp only [reduceCtorEq, false_iff]
    intro hall
    rw [hall _ hmem] at hcause
    cases hcause

/-- The procedure that is reported is the first one that is not accepted. -/
theorem verify_eq_error_iff {error : VerifyError} :
    p.verify = .error error ↔
      error.procedure ∈ p.procedures.map Prod.fst ∧
        Op.verify (p.procedure error.procedure) = .error error.cause ∧
        ∀ name ∈ p.procedures.map Prod.fst, Op.verify (p.procedure name) ≠ .ok () →
          error.procedure ≤ name := by
  rcases verify_cases p with ⟨hok, hall⟩ | ⟨found, hfound, hmem, hcause, hleast⟩
  · rw [hok]
    simp only [reduceCtorEq, false_iff]
    rintro ⟨hmem, hcause, _⟩
    rw [hall _ hmem] at hcause
    cases hcause
  · rw [hfound, Except.error.injEq]
    constructor
    · rintro rfl
      exact ⟨hmem, hcause, hleast⟩
    · rintro ⟨hmem', hcause', hleast'⟩
      have hname : found.procedure = error.procedure :=
        String.le_antisymm (hleast _ hmem' (by simp [hcause'])) (hleast' _ hmem (by simp [hcause]))
      cases found
      cases error
      simp only at hname hcause hcause'
      subst hname
      rw [hcause, Except.error.injEq] at hcause'
      rw [hcause']

end Program

/-! ## The verifier is exact -/

/-- Verification accepts exactly the admissible procedures. Of the others it reports the first
malformed operation, as a jump or as an operand, and if there is none, the nearest
address outside that is jumped to. Of a program it reports the first procedure, by name,
that it does not accept. -/
theorem verification_exact (ops : List Op) (p : Program) :
    (Op.verify ops = .ok () ↔ Op.Admissible ops) ∧
    (∀ before op after, ops = before ++ op :: after →
      (∀ other ∈ before, ¬other.Malformed) → op.Malformed →
        Op.verify ops = .error (op.complaint before.length) ∧
        ∃ reason, (op.complaint before.length).message =
          (if op.isJump then "invalid jump address: " else "invalid operand: ")
            ++ op.kind ++ " at " ++ Op.addressText before.length ++ reason) ∧
    ((∀ op ∈ ops, ¬op.Malformed) → ∀ error, Op.verify ops = .error error ↔
      ∃ address, error = .outside address ops.length ∧ IsLeast (Op.escapes ops) address ∧
        ∃ reason, error.message = "invalid jump address: " ++ address.repr ++ reason) ∧
    (p.verify = .ok () ↔
      ∀ name ∈ p.procedures.map Prod.fst, Op.verify (p.procedure name) = .ok ()) ∧
    ∀ error, p.verify = .error error ↔
      error.procedure ∈ p.procedures.map Prod.fst ∧
        Op.verify (p.procedure error.procedure) = .error error.cause ∧
        ∀ name ∈ p.procedures.map Prod.fst, Op.verify (p.procedure name) ≠ .ok () →
          error.procedure ≤ name := by
  refine ⟨Op.verify_eq_ok_iff, ?_, ?_, Program.verify_eq_ok_iff,
    fun _ => Program.verify_eq_error_iff⟩
  · intro before op after hops hbefore hop
    exact ⟨Op.verify_of_malformed hops hbefore hop, Op.complaint_message before.length op⟩
  · intro h error
    rw [Op.verify_eq_error_iff h]
    constructor
    · rintro ⟨address, rfl, hleast⟩
      exact ⟨address, rfl, hleast, Op.outside_message address ops.length⟩
    · rintro ⟨address, heq, hleast, _⟩
      exact ⟨address, heq, hleast⟩

/-- Two jumps out of a procedure, and two malformed operations between them. -/
def Op.mixedFaults : List Op :=
  [.conditionalGoto 9, .truncateHeap (-1), ⟨"gotoOp", .text "0"⟩, .goto 7]

/-- Two procedures that are not admissible, the first by name declared last. -/
def Program.mixedFaults : Program where
  procedures := [("c", [.goto (-1)]), ("a", [.noop]), ("b", [.goto 5, .conditionalGoto 3])]

/-- A slot given by an integer of the program. -/
def Op.foreignSlot : Op := ⟨"copyFromHeap", (Op.instantiateInt 1).data⟩

/-- The negative count comes before the jumps that leave the procedure, an integer of the program
is no slot, and the first procedure by name is reported. -/
theorem verification_exact_mixedFaults :
    (Op.truncateHeap (-1)).Malformed ∧
      Op.verify Op.mixedFaults = .error (.badOperand "truncateHeap" 1 (.int (-1))) ∧
      Op.foreignSlot.Malformed ∧ Op.verify [.copyFromHeap 1] = .ok () ∧
      Op.verify [.copyFromHeap 1, Op.foreignSlot] =
        .error (.badOperand "copyFromHeap" 1 (.int64 1)) ∧
      Op.verify [.goto 5, .conditionalGoto 3] = .error (.outside 3 2) ∧
      Program.mixedFaults.verify = .error ⟨"b", .outside 3 2⟩ := by
  have hjump : ∀ n : Nat, ¬(Op.goto n).Malformed ∧ ¬(Op.conditionalGoto n).Malformed :=
    fun n => ⟨fun h => h.2 n rfl, fun h => h.2 n rfl⟩
  have hsize : (Op.truncateHeap (-1)).Malformed :=
    ⟨Or.inr (by decide), fun n hn => absurd (Operand.int.inj hn) (by omega)⟩
  have hslot : ¬(Op.copyFromHeap 1).Malformed := fun h => h.2 1 rfl
  have hforeign : Op.foreignSlot.Malformed := ⟨Or.inr (by decide), fun n hn => by cases hn⟩
  have hrefused : Op.verify [.copyFromHeap 1, Op.foreignSlot] =
      .error (.badOperand "copyFromHeap" 1 (.int64 1)) := by
    obtain ⟨_, hfirst, _⟩ := verification_exact [.copyFromHeap 1, Op.foreignSlot] {}
    exact (hfirst [_] _ [] rfl (by simpa using hslot) hforeign).1
  have hjumps : Op.verify [.goto 5, .conditionalGoto 3] = .error (.outside 3 2) := by
    obtain ⟨_, _, houtside, _⟩ := verification_exact [.goto 5, .conditionalGoto 3] {}
    refine (houtside (by simpa using ⟨(hjump 5).1, (hjump 3).2⟩) _).mpr
      ⟨3, rfl, ⟨?_, ?_⟩, Op.outside_message 3 2⟩
    · exact ⟨by decide, .conditionalGoto 3, by simp, by decide, rfl⟩
    · rintro address ⟨_, op, hop, _, hdata⟩
      rcases List.mem_cons.mp hop with rfl | hop
      · cases hdata
        decide
      · obtain rfl := List.mem_singleton.mp hop
        cases hdata
        decide
  obtain ⟨_, hfirst, _, _, hprogram⟩ := verification_exact Op.mixedFaults Program.mixedFaults
  refine ⟨hsize, (hfirst [_] _ _ rfl (by simpa using (hjump 9).2) hsize).1, hforeign,
    rfl, hrefused, hjumps, ?_⟩
  refine (hprogram _).mpr ⟨by decide, hjumps, ?_⟩
  intro name hname hfails
  have hnames : name = "c" ∨ name = "a" ∨ name = "b" := by simpa [Program.mixedFaults] using hname
  rcases hnames with rfl | rfl | rfl
  · decide
  · exact absurd rfl hfails
  · decide

end StoredProc
