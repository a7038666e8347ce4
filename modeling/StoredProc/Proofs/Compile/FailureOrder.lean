import StoredProc.Compile.Batch
import StoredProc.Proofs.Text.NaturalOrder

/-! # The order of failures

Failures are collected in any order and sorted by the names of their functions. What
comes out is determined by the failures alone exactly if natural order is a strict order
of the names. It is not for names such as `f1a` and `f01a`, of which neither comes before
the other, and then the report depends on the order in which the failures came. That no
other order determines it is a fact about inserting, which is how lists of any length are
sorted here.
-/

namespace StoredProc.FunctionError

variable {errors : List FunctionError}

/-- The names are in order: none comes before an earlier one. -/
def InOrder (errors : List FunctionError) : Prop :=
  errors.Pairwise fun a b => Text.naturalLess b.function a.function = false

instance (errors : List FunctionError) : Decidable (InOrder errors) :=
  inferInstanceAs (Decidable (errors.Pairwise _))

/-- The report does not depend on the order in which the failures came, and its names
are in order. -/
structure Determined (errors : List FunctionError) : Prop where
  sort_eq : ∀ other : List FunctionError, other.Perm errors → sort other = sort errors
  inOrder : InOrder (sort errors)

theorem eq_of_function_eq (hnames : (errors.map function).Nodup) {a b : FunctionError}
    (ha : a ∈ errors) (hb : b ∈ errors) (h : a.function = b.function) : a = b :=
  List.inj_on_of_nodup_map hnames ha hb h

/-- Failures are compared as their names are. -/
theorem strictOn_iff (hnames : (errors.map function).Nodup) :
    Text.StrictOn (fun a b => Text.naturalLess a.function b.function) errors ↔
      Text.StrictOn Text.naturalLess (errors.map function) := by
  constructor
  · intro h
    refine ⟨fun name _ => Text.naturalLess_self name, ?_, ?_⟩
    · simp only [List.forall_mem_map]
      intro a ha b hb hne
      exact h.total a ha b hb fun heq => hne (congrArg function heq)
    · simp only [List.forall_mem_map]
      exact h.trans
  · intro h
    refine ⟨fun a _ => Text.naturalLess_self a.function, ?_, ?_⟩
    · intro a ha b hb hne
      exact h.total _ (List.mem_map_of_mem ha) _ (List.mem_map_of_mem hb) fun heq =>
        hne (eq_of_function_eq hnames ha hb heq)
    · intro a ha b hb c hc
      exact h.trans _ (List.mem_map_of_mem ha) _ (List.mem_map_of_mem hb) _ (List.mem_map_of_mem hc)

/-- The report is determined exactly if natural order is a strict order of the names. In
particular it is if no number in a name has a zero in front or more than 64 bits, and
then it is the only way to list the failures with their names in order. -/
theorem determined_iff (hnames : (errors.map function).Nodup) :
    (Determined errors ↔ Text.StrictOn Text.naturalLess (errors.map function)) ∧
      ((∀ e ∈ errors, Text.isPlain e.function.toList = true) →
        Determined errors ∧
          ∀ other : List FunctionError, other.Perm errors → InOrder other →
            other = sort errors) := by
  have hiff : Determined errors ↔ Text.StrictOn Text.naturalLess (errors.map function) := by
    rw [← strictOn_iff hnames]
    constructor
    · intro h
      exact Text.strictOn_of_insertionSort_eq (fun a _ => Text.naturalLess_self a.function)
        (List.Nodup.of_map _ hnames) h.sort_eq
    · intro h
      exact ⟨fun other hperm => Text.insertionSort_eq_of_perm h hperm,
        Text.pairwise_insertionSort h⟩
  refine ⟨hiff, fun hplain => ?_⟩
  have hstrict : Text.StrictOn Text.naturalLess (errors.map function) :=
    Text.strictOn_of_isPlain (by simpa using hplain)
  refine ⟨hiff.mpr hstrict, fun other hperm hother => ?_⟩
  exact Text.eq_insertionSort ((strictOn_iff hnames).mpr hstrict) hperm hother

/-- A failure of a function without a return. -/
def ofName (name : String) : FunctionError := ⟨name, .located ⟨{}, .missingReturn⟩⟩

/-- Numbers are compared by their values. -/
theorem determined_iff_plainNames :
    Determined (["f10", "g", "f2b3", "f2b"].map ofName) ∧
      (sort (["f10", "g", "f2b3", "f2b"].map ofName)).map function =
        ["f2b", "f2b3", "f10", "g"] := by
  have hnames : ((["f10", "g", "f2b3", "f2b"].map ofName).map function).Nodup := by decide +kernel
  have hplain : ∀ e ∈ ["f10", "g", "f2b3", "f2b"].map ofName,
      Text.isPlain e.function.toList = true := by
    simp only [List.forall_mem_map]
    decide +kernel
  exact ⟨((determined_iff hnames).2 hplain).1, by decide +kernel⟩

/-- Names that differ in a zero in front of a number. The last name in the report comes
before the first, and there is a list of the same failures with another report, whose
names are in order. -/
theorem not_determined_leadingZero :
    ((["f1a", "f1", "f01a"].map ofName).map function).Nodup ∧
      ¬ Determined (["f1a", "f1", "f01a"].map ofName) ∧
      (sort (["f1a", "f1", "f01a"].map ofName)).map function = ["f1", "f1a", "f01a"] ∧
      Text.naturalLess "f01a" "f1" = true ∧
      (sort (["f01a", "f1", "f1a"].map ofName)).map function = ["f01a", "f1", "f1a"] ∧
      InOrder (["f01a", "f1", "f1a"].map ofName) := by
  have hnot : ¬ InOrder (sort (["f1a", "f1", "f01a"].map ofName)) := by decide +kernel
  refine ⟨by decide +kernel, fun h => hnot h.inOrder, ?_⟩
  decide +kernel

end StoredProc.FunctionError
