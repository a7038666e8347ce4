import StoredProc.Compile.Batch
import StoredProc.Proofs.Compile.SourceMap
import StoredProc.Proofs.Manifest.Names
import StoredProc.Proofs.Table
import StoredProc.Proofs.Text.InsertionSort

/-! # Compiling functions in parallel

Workers compile the functions of a manifest. A dispatcher hands the functions in their
order to workers that are idle, and closes when there are no more. A worker stores what
comes out for a function under the name of the function, in one of two maps, and leaves
when the dispatcher has closed. What happens when is not determined.

Every way in which this can go ends, and it ends with what comes out when the functions
are compiled one after the other. That rests on the names of the functions: no two of
them are stored under one name.
-/

namespace StoredProc

/-- Set the entry of a name in a map. -/
def Table.set {α : Type} (name : String) (value : α) (table : List (String × α)) :
    List (String × α) :=
  (name, value) :: table.filter fun entry => entry.1 ≠ name

theorem Table.set_of_notMem {α : Type} {name : String} {table : List (String × α)}
    (h : name ∉ table.map Prod.fst) (value : α) :
    set name value table = (name, value) :: table := by
  rw [set, List.filter_eq_self.mpr]
  intro entry hentry
  have hne : entry.1 ≠ name := fun heq => h (heq ▸ List.mem_map_of_mem hentry)
  simpa using hne

/-! ## What comes out for functions -/

namespace Function

variable {m : Manifest} {r : Registry}

def procedure? (m : Manifest) (r : Registry) (f : Function) : Option Procedure :=
  (f.compile m r).toOption

def failure? (m : Manifest) (r : Registry) (f : Function) : Option FunctionError :=
  match f.compile m r with
  | .error failure => some failure
  | .ok _ => none

theorem isSome_failure? (m : Manifest) (r : Registry) (f : Function) :
    (f.failure? m r).isSome = !(f.procedure? m r).isSome := by
  unfold failure? procedure?
  cases f.compile m r <;> rfl

theorem name_of_compile {f : Function} {p : Procedure} (h : f.compile m r = .ok p) :
    p.name = f.name := by
  obtain ⟨_, _, _, _, hname, _⟩ := exists_accepted_frame h
  exact hname

section Entries

variable {α : Type} (result : Function → Option α) (functions : List Function)

/-- What there is for functions, under their names. -/
def entries : List (String × α) :=
  functions.filterMap fun f => (result f).map fun value => (f.name, value)

variable {result} in
theorem entries_cons_some {f : Function} {value : α} (h : result f = some value) :
    entries result (f :: functions) = (f.name, value) :: entries result functions :=
  List.filterMap_cons_some (by rw [h]; rfl)

variable {result} in
theorem entries_cons_none {f : Function} (h : result f = none) :
    entries result (f :: functions) = entries result functions :=
  List.filterMap_cons_none (by rw [h]; rfl)

theorem keys_entries :
    (entries result functions).map Prod.fst =
      (functions.filter fun f => (result f).isSome).map Function.name := by
  induction functions with
  | nil => rfl
  | cons f rest ih =>
      cases hresult : result f with
      | none => simp [entries_cons_none rest hresult, hresult, ih]
      | some value => simp [entries_cons_some rest hresult, hresult, ih]

theorem keys_entries_sublist :
    ((entries result functions).map Prod.fst).Sublist (functions.map Function.name) := by
  rw [keys_entries]
  exact List.filter_sublist.map _

variable {functions}

/-- Under the name of a function is what there is for it. -/
theorem lookup_entries (hnames : (functions.map Function.name).Nodup) {f : Function}
    (hf : f ∈ functions) : (entries result functions).lookup f.name = result f := by
  have hdistinct : Table.Distinct (entries result functions) :=
    hnames.sublist (keys_entries_sublist result functions)
  apply Option.ext
  intro value
  rw [Table.lookup_eq_some_iff hdistinct, entries, List.mem_filterMap]
  constructor
  · rintro ⟨g, hg, hentry⟩
    obtain ⟨found, hfound, heq⟩ := Option.map_eq_some_iff.mp hentry
    obtain ⟨hname, rfl⟩ := Prod.mk.inj heq
    rwa [← List.inj_on_of_nodup_map hnames hg hf hname]
  · intro hvalue
    exact ⟨f, hf, by rw [hvalue]; rfl⟩

end Entries

end Function

/-! ## Workers -/

/-- What a worker does. -/
inductive Worker where
  | idle
  | busy (f : Function)
  | gone
  deriving Inhabited

namespace Worker

/-- The function that a worker has in hand. -/
def job? : Worker → Option Function
  | .busy f => some f
  | .idle | .gone => none

def isGone : Worker → Bool
  | .gone => true
  | .idle | .busy _ => false

/-- The functions that workers have in hand. -/
def jobs (workers : List Worker) : List Function := workers.filterMap job?

/-- The number of workers that have not left. -/
def staying (workers : List Worker) : Nat := workers.countP fun worker => !worker.isGone

theorem jobs_middle (before after : List Worker) (worker : Worker) :
    jobs (before ++ worker :: after) = jobs before ++ (worker.job?.toList ++ jobs after) := by
  rw [jobs, List.filterMap_append, List.filterMap_cons]
  cases worker <;> rfl

theorem jobs_replicate (count : Nat) : jobs (List.replicate count .idle) = [] := by
  rw [jobs, List.filterMap_replicate_of_none rfl]

theorem staying_middle (before after : List Worker) (worker : Worker) :
    staying (before ++ worker :: after) =
      staying before + (if worker.isGone then 0 else 1) + staying after := by
  rw [staying, List.countP_append, List.countP_cons]
  cases worker <;> simp only [isGone, staying] <;> grind

end Worker

/-- The state of a compilation in parallel. -/
structure Pool where
  /-- The functions that were not handed out yet. -/
  waiting : List Function
  workers : List Worker
  /-- Whether no more functions will come. -/
  closed : Bool := false
  procedures : List (String × Procedure) := []
  failures : List (String × FunctionError) := []
  /-- The functions that were compiled, the last one first. -/
  compiled : List Function := []
  deriving Inhabited

/-- What can happen next. -/
inductive PoolEvent where
  /-- The next function is handed to a worker. -/
  | hand (worker : Nat)
  /-- A worker stores what came out for its function. -/
  | store (worker : Nat)
  /-- No more functions will come. -/
  | close
  /-- A worker leaves. -/
  | leave (worker : Nat)
  deriving DecidableEq, Inhabited, Repr

namespace Pool

/-- The number of workers: as many as were requested, or as there are processors, but
one for a trace, and no more than there are functions. -/
def size (requested : Int) (processors : Nat) (traced : Bool) (functions : Nat) : Nat :=
  min (if traced then 1 else if requested ≤ 0 then processors else requested.toNat)
    (max 1 functions)

/-- Workers that have not started. -/
def start (functions : List Function) (workers : Nat) : Pool where
  waiting := functions
  workers := List.replicate workers .idle

/-- All workers have left. -/
def isDone (pool : Pool) : Bool := pool.closed && pool.workers.all Worker.isGone

/-- Store what comes out for a function. -/
def record (m : Manifest) (r : Registry) (f : Function) (pool : Pool) : Pool :=
  match f.compile m r with
  | .ok p =>
    { pool with procedures := Table.set f.name p pool.procedures, compiled := f :: pool.compiled }
  | .error failure =>
    { pool with failures := Table.set f.name failure pool.failures, compiled := f :: pool.compiled }

/-- The state after an event, if the event can happen. -/
def step? (m : Manifest) (r : Registry) (pool : Pool) : PoolEvent → Option Pool
  | .hand worker =>
    match pool.waiting, pool.workers[worker]? with
    | f :: waiting, some .idle =>
      some { pool with waiting, workers := pool.workers.set worker (.busy f) }
    | _, _ => none
  | .store worker =>
    match pool.workers[worker]? with
    | some (.busy f) => some { pool.record m r f with workers := pool.workers.set worker .idle }
    | _ => none
  | .close =>
    if pool.waiting.isEmpty && !pool.closed then some { pool with closed := true } else none
  | .leave worker =>
    match pool.closed, pool.workers[worker]? with
    | true, some .idle => some { pool with workers := pool.workers.set worker .gone }
    | _, _ => none

/-- The state after events, if they can happen one after the other. -/
def run? (m : Manifest) (r : Registry) (pool : Pool) (events : List PoolEvent) : Option Pool :=
  events.foldlM (step? m r) pool

/-- The program of what was stored. -/
def program (r : Registry) (pool : Pool) : Program where
  procedures := pool.procedures.map fun entry => (entry.1, entry.2.ops)
  schemas := r.schemas.map Prod.snd
  stores := r.stores.map fun store => (store.1, .object store.2)
  frames := pool.procedures.map fun entry => (entry.1, (entry.2.frameSize : Int))

variable {m : Manifest} {r : Registry} {pool next : Pool} {event : PoolEvent}

/-! ## Steps -/

theorem exists_set_eq {workers : List Worker} {index : Nat} {worker : Worker}
    (h : workers[index]? = some worker) :
    ∃ before after, workers = before ++ worker :: after ∧
      ∀ changed, workers.set index changed = before ++ changed :: after := by
  obtain ⟨hlt, rfl⟩ := List.getElem?_eq_some_iff.mp h
  refine ⟨workers.take index, workers.drop (index + 1), ?_, ?_⟩
  · rw [List.getElem_cons_drop, List.take_append_drop]
  · intro changed
    rw [List.set_eq_take_append_cons_drop, if_pos hlt]

/-- What an event does. -/
theorem step_cases (h : pool.step? m r event = some next) :
    (∃ f waiting before after, pool.waiting = f :: waiting ∧
        pool.workers = before ++ .idle :: after ∧
        next = { pool with waiting, workers := before ++ .busy f :: after }) ∨
      (∃ f before after, pool.workers = before ++ .busy f :: after ∧
        next = { pool.record m r f with workers := before ++ .idle :: after }) ∨
      (pool.waiting = [] ∧ pool.closed = false ∧ next = { pool with closed := true }) ∨
      ∃ before after, pool.closed = true ∧ pool.workers = before ++ .idle :: after ∧
        next = { pool with workers := before ++ .gone :: after } := by
  cases event with
  | hand worker =>
      simp only [step?] at h
      split at h
      next f waiting hwaiting hidle =>
        cases h
        obtain ⟨before, after, hworkers, hset⟩ := exists_set_eq hidle
        exact Or.inl ⟨f, waiting, before, after, hwaiting, hworkers, by rw [hset]⟩
      next => cases h
  | store worker =>
      simp only [step?] at h
      split at h
      next f hbusy =>
        cases h
        obtain ⟨before, after, hworkers, hset⟩ := exists_set_eq hbusy
        exact Or.inr (Or.inl ⟨f, before, after, hworkers, by rw [hset]⟩)
      next => cases h
  | close =>
      simp only [step?] at h
      split at h
      next hclose =>
        cases h
        simp only [Bool.and_eq_true, List.isEmpty_iff, Bool.not_eq_true'] at hclose
        exact Or.inr (Or.inr (Or.inl ⟨hclose.1, hclose.2, rfl⟩))
      next => cases h
  | leave worker =>
      simp only [step?] at h
      split at h
      next hclosed hidle =>
        cases h
        obtain ⟨before, after, hworkers, hset⟩ := exists_set_eq hidle
        exact Or.inr (Or.inr (Or.inr ⟨before, after, hclosed, hworkers, by rw [hset]⟩))
      next => cases h

/-- The events that are left. A function is handed out and stored, and every worker
leaves. -/
def remaining (pool : Pool) : Nat :=
  2 * pool.waiting.length + (Worker.jobs pool.workers).length + (if pool.closed then 0 else 1) +
    Worker.staying pool.workers

theorem record_waiting (m : Manifest) (r : Registry) (f : Function) (pool : Pool) :
    (pool.record m r f).waiting = pool.waiting ∧ (pool.record m r f).closed = pool.closed := by
  unfold record
  split <;> exact ⟨rfl, rfl⟩

/-- Every event leaves one event less. -/
theorem remaining_eq_succ (h : pool.step? m r event = some next) :
    pool.remaining = next.remaining + 1 := by
  rcases step_cases h with ⟨f, waiting, before, after, hwaiting, hworkers, rfl⟩ |
    ⟨f, before, after, hworkers, rfl⟩ | ⟨_, hclosed, rfl⟩ | ⟨before, after, _, hworkers, rfl⟩
  · simp only [remaining, hwaiting, hworkers, Worker.jobs_middle, Worker.staying_middle,
      List.length_append, List.length_cons]
    simp only [Worker.job?, Worker.isGone, Option.toList_none, Option.toList_some,
      List.length_nil, List.length_singleton, Bool.false_eq_true, if_false]
    omega
  · simp only [remaining, record_waiting, hworkers, Worker.jobs_middle, Worker.staying_middle,
      List.length_append]
    simp only [Worker.job?, Worker.isGone, Option.toList_none, Option.toList_some,
      List.length_nil, List.length_singleton, Bool.false_eq_true, if_false]
    omega
  · simp only [remaining, hclosed, Bool.false_eq_true, if_false, if_true]
    omega
  · simp only [remaining, hworkers, Worker.jobs_middle, Worker.staying_middle, Worker.job?,
      Worker.isGone, Bool.false_eq_true, if_false, if_true]
    omega

/-! ## What is stored -/

/-- What holds whenever something has happened. -/
structure Inv (m : Manifest) (r : Registry) (functions : List Function) (workers : Nat)
    (pool : Pool) : Prop where
  perm : (pool.waiting ++ Worker.jobs pool.workers ++ pool.compiled).Perm functions
  procedures_eq : pool.procedures = Function.entries (Function.procedure? m r) pool.compiled
  failures_eq : pool.failures = Function.entries (Function.failure? m r) pool.compiled
  length_eq : pool.workers.length = workers
  waiting_eq : pool.closed = true → pool.waiting = []
  closed_eq : .gone ∈ pool.workers → pool.closed = true

theorem inv_start (functions : List Function) (workers : Nat) :
    (start functions workers).Inv m r functions workers where
  perm := by simp [start, Worker.jobs_replicate]
  procedures_eq := rfl
  failures_eq := rfl
  length_eq := List.length_replicate
  waiting_eq := by simp [start]
  closed_eq := by simp [start, List.mem_replicate]

/-- To store what comes out for a function with a new name adds one entry to one of the maps. -/
theorem record_eq {f : Function} (hname : f.name ∉ pool.compiled.map Function.name)
    (hprocedures : pool.procedures = Function.entries (Function.procedure? m r) pool.compiled)
    (hfailures : pool.failures = Function.entries (Function.failure? m r) pool.compiled) :
    pool.record m r f =
      { pool with
        procedures := Function.entries (Function.procedure? m r) (f :: pool.compiled)
        failures := Function.entries (Function.failure? m r) (f :: pool.compiled)
        compiled := f :: pool.compiled } := by
  have hfresh : f.name ∉ pool.procedures.map Prod.fst := by
    rw [hprocedures]
    exact fun hmem => hname ((Function.keys_entries_sublist _ _).subset hmem)
  have hfresh' : f.name ∉ pool.failures.map Prod.fst := by
    rw [hfailures]
    exact fun hmem => hname ((Function.keys_entries_sublist _ _).subset hmem)
  cases hcompile : f.compile m r with
  | ok p =>
      have hp : f.procedure? m r = some p := by
        simp [Function.procedure?, hcompile, Except.toOption]
      have hf : f.failure? m r = none := by simp [Function.failure?, hcompile]
      rw [Function.entries_cons_some _ hp, Function.entries_cons_none _ hf, ← hprocedures,
        ← hfailures]
      simp only [record, hcompile, Table.set_of_notMem hfresh]
  | error failure =>
      have hp : f.procedure? m r = none := by simp [Function.procedure?, hcompile, Except.toOption]
      have hf : f.failure? m r = some failure := by simp [Function.failure?, hcompile]
      rw [Function.entries_cons_none _ hp, Function.entries_cons_some _ hf, ← hprocedures,
        ← hfailures]
      simp only [record, hcompile, Table.set_of_notMem hfresh']

theorem perm_hand (f : Function) (waiting before after compiled : List Function) :
    (waiting ++ (before ++ f :: after) ++ compiled).Perm
      (f :: waiting ++ (before ++ after) ++ compiled) := by
  simp only [List.append_assoc, List.cons_append]
  rw [← List.append_assoc waiting, ← List.append_assoc waiting]
  exact List.perm_middle

theorem perm_store (f : Function) (waiting before after compiled : List Function) :
    (waiting ++ (before ++ after) ++ f :: compiled).Perm
      (waiting ++ (before ++ f :: after) ++ compiled) :=
  List.perm_middle.trans (perm_hand f waiting before after compiled).symm

namespace Inv

variable {functions : List Function} {workers : Nat}

/-- A function that is in hand was not compiled, and no function of its name was. -/
theorem name_notMem (h : pool.Inv m r functions workers)
    (hnames : (functions.map Function.name).Nodup) {f : Function}
    (hf : f ∈ Worker.jobs pool.workers) :
    f.name ∉ pool.compiled.map Function.name := by
  have hnodup := (h.perm.map Function.name).nodup_iff.mpr hnames
  rw [List.map_append] at hnodup
  intro hmem
  refine (List.nodup_append.mp hnodup).2.2 f.name ?_ f.name hmem rfl
  exact List.mem_map_of_mem (List.mem_append_right _ hf)

/-- Every event keeps the invariant. -/
theorem step (h : pool.Inv m r functions workers) (hnames : (functions.map Function.name).Nodup)
    (hstep : pool.step? m r event = some next) : next.Inv m r functions workers := by
  have hperm := h.perm
  have hlength := h.length_eq
  have hgone := h.closed_eq
  rcases step_cases hstep with ⟨f, waiting, before, after, hwaiting, hworkers, rfl⟩ |
    ⟨f, before, after, hworkers, rfl⟩ | ⟨hwaiting, _, rfl⟩ | ⟨before, after, hclosed, hworkers, rfl⟩
  · rw [hworkers] at hlength hgone
    rw [hwaiting, hworkers, Worker.jobs_middle] at hperm
    refine { h with perm := ?_, length_eq := ?_, waiting_eq := ?_, closed_eq := ?_ }
    · refine List.Perm.trans ?_ hperm
      rw [Worker.jobs_middle]
      exact perm_hand f waiting (Worker.jobs before) (Worker.jobs after) pool.compiled
    · simpa using hlength
    · intro hclosed
      rw [h.waiting_eq hclosed] at hwaiting
      cases hwaiting
    · simpa using hgone
  · have hname : f.name ∉ pool.compiled.map Function.name :=
      h.name_notMem hnames (by simp [hworkers, Worker.jobs_middle, Worker.job?])
    rw [record_eq hname h.procedures_eq h.failures_eq]
    rw [hworkers] at hlength hgone
    rw [hworkers, Worker.jobs_middle] at hperm
    refine { h with
      perm := ?_, procedures_eq := rfl, failures_eq := rfl, length_eq := ?_, closed_eq := ?_ }
    · refine List.Perm.trans ?_ hperm
      rw [Worker.jobs_middle]
      exact perm_store f pool.waiting (Worker.jobs before) (Worker.jobs after) pool.compiled
    · simpa using hlength
    · simpa using hgone
  · exact { h with waiting_eq := fun _ => hwaiting, closed_eq := fun _ => rfl }
  · rw [hworkers] at hlength
    rw [hworkers, Worker.jobs_middle] at hperm
    refine { h with perm := ?_, length_eq := ?_, closed_eq := fun _ => hclosed }
    · rw [Worker.jobs_middle]
      exact hperm
    · simpa using hlength

end Inv

/-! ## Runs -/

theorem run_cons {final : Pool} {events : List PoolEvent} :
    pool.run? m r (event :: events) = some final ↔
      ∃ next, pool.step? m r event = some next ∧ next.run? m r events = some final := by
  rw [run?, List.foldlM_cons]
  exact Option.bind_eq_some_iff

/-- Events keep the invariant, and there are as many left as did not happen. -/
theorem Inv.run {functions : List Function} {workers : Nat} {events : List PoolEvent} {final : Pool}
    (h : pool.Inv m r functions workers) (hnames : (functions.map Function.name).Nodup)
    (hrun : pool.run? m r events = some final) :
    final.Inv m r functions workers ∧ pool.remaining = final.remaining + events.length := by
  induction events generalizing pool with
  | nil =>
      cases hrun
      exact ⟨h, rfl⟩
  | cons event rest ih =>
      obtain ⟨next, hstep, hrest⟩ := run_cons.mp hrun
      obtain ⟨hinv, hremaining⟩ := ih (h.step hnames hstep) hrest
      refine ⟨hinv, ?_⟩
      rw [remaining_eq_succ hstep, hremaining, List.length_cons, Nat.add_assoc]

/-- Something can happen until all workers have left. -/
theorem Inv.exists_step {functions : List Function} {workers : Nat}
    (h : pool.Inv m r functions workers) (hworkers : 0 < workers) (hdone : pool.isDone = false) :
    ∃ event next, pool.step? m r event = some next := by
  by_cases hbusy : ∃ (index : Nat) (f : Function), pool.workers[index]? = some (.busy f)
  · obtain ⟨index, f, hf⟩ := hbusy
    exact ⟨.store index, _, by rw [step?, hf]⟩
  cases hwaiting : pool.waiting with
  | cons f waiting =>
      -- No worker has left while functions are waiting.
      have hlt : 0 < pool.workers.length := by rw [h.length_eq]; exact hworkers
      have hfirst := List.getElem?_eq_getElem hlt
      cases hworker : pool.workers[0] with
      | idle => exact ⟨.hand 0, _, by rw [step?, hwaiting, hfirst, hworker]⟩
      | busy g => exact absurd ⟨0, g, by rw [hfirst, hworker]⟩ hbusy
      | gone =>
          have hclosed := h.closed_eq (hworker ▸ List.getElem_mem hlt)
          rw [h.waiting_eq hclosed] at hwaiting
          cases hwaiting
  | nil =>
      cases hclosed : pool.closed with
      | false => exact ⟨.close, { pool with closed := true }, by simp [step?, hwaiting, hclosed]⟩
      | true =>
          simp only [isDone, hclosed, Bool.true_and, List.all_eq_false] at hdone
          obtain ⟨worker, hmem, hstays⟩ := hdone
          obtain ⟨index, hindex⟩ := List.getElem?_of_mem hmem
          cases worker with
          | idle => exact ⟨.leave index, _, by rw [step?, hclosed, hindex]⟩
          | busy f => exact absurd ⟨index, f, hindex⟩ hbusy
          | gone => exact absurd rfl hstays

/-- In the end every function was compiled once. -/
theorem Inv.compiled_perm {functions : List Function} {workers : Nat}
    (h : pool.Inv m r functions workers) (hdone : pool.isDone = true) :
    pool.compiled.Perm functions := by
  simp only [isDone, Bool.and_eq_true, List.all_eq_true] at hdone
  have hjobs : Worker.jobs pool.workers = [] := by
    refine List.filterMap_eq_nil_iff.mpr fun worker hworker => ?_
    have hgone := hdone.2 worker hworker
    cases worker with
    | gone => rfl
    | idle | busy => cases hgone
  have hperm := h.perm
  rwa [h.waiting_eq hdone.1, hjobs] at hperm

/-- A function takes two events, each worker one, and the end of the input one. -/
theorem remaining_start (functions : List Function) (workers : Nat) :
    (start functions workers).remaining = 2 * functions.length + 1 + workers := by
  have hstaying : Worker.staying (List.replicate workers .idle) = workers := by
    rw [Worker.staying, List.countP_replicate]
    rfl
  simp [remaining, start, Worker.jobs_replicate, hstaying]

/-- Where there is a processor there is a worker. -/
theorem size_pos (requested : Int) {processors : Nat} (h : 0 < processors) (traced : Bool)
    (functions : Nat) : 0 < size requested processors traced functions := by
  unfold size
  split
  · omega
  · split <;> omega

end Pool

/-- Programs that differ at most in the order in which their maps are listed. -/
structure Program.Same (p q : Program) : Prop where
  procedures : p.procedures.Perm q.procedures
  frames : p.frames.Perm q.frames
  schemas : p.schemas = q.schemas
  stores : p.stores = q.stores

/-- The workers have made what comes out when the functions are compiled one after the
other. -/
structure Pool.Delivers (m : Manifest) (r : Registry) (pool : Pool) : Prop where
  /-- Every function was compiled once. -/
  compiled : pool.compiled.Perm m.functions
  build : ∃ build, m.compile = .ok build ∧ (pool.program r).Same build.program ∧
    (pool.failures.map Prod.snd).Perm build.failures
  /-- Every function has a procedure or a failure, and not both. -/
  names : ((pool.program r).procedures.map Prod.fst ++ pool.failures.map Prod.fst).Perm
    (m.functions.map Function.name)
  names_nodup : ((pool.program r).procedures.map Prod.fst ++ pool.failures.map Prod.fst).Nodup
  frames : (pool.program r).frames.map Prod.fst = (pool.program r).procedures.map Prod.fst
  /-- The procedure of a function is what compiling it gives. -/
  lookup_procedures : ∀ f ∈ m.functions,
    (pool.program r).procedures.lookup f.name = (f.compile m r).toOption.map Procedure.ops
  lookup_frames : ∀ f ∈ m.functions,
    (pool.program r).frames.lookup f.name =
      (f.compile m r).toOption.map fun p => (p.frameSize : Int)
  lookup_failures : ∀ f ∈ m.functions, ∀ failure,
    pool.failures.lookup f.name = some failure ↔ f.compile m r = .error failure

namespace Pool

variable {m : Manifest} {r : Registry} {pool : Pool}

/-- The program of entries for the functions of a manifest, in any order. -/
theorem same_program {functions : List Function}
    (hprocedures : pool.procedures = Function.entries (Function.procedure? m r) functions)
    (hperm : functions.Perm m.functions) : (pool.program r).Same (m.program r) := by
  have hentries : ∀ {α : Type} (part : Procedure → α),
      (pool.procedures.map fun entry => (entry.1, part entry.2)).Perm
        ((m.procedures r).map fun p => (p.name, part p)) := by
    intro α part
    rw [hprocedures, Function.entries, Manifest.procedures, List.map_filterMap, List.map_filterMap]
    refine (hperm.filterMap _).trans (List.Perm.of_eq (List.filterMap_congr fun f _ => ?_))
    cases hcompile : f.compile m r with
    | error failure => simp [Function.procedure?, hcompile, Except.toOption]
    | ok p =>
        simp [Function.procedure?, hcompile, Except.toOption, Function.name_of_compile hcompile]
  exact ⟨hentries Procedure.ops, hentries fun p => (p.frameSize : Int), rfl, rfl⟩

theorem failures_perm {functions : List Function}
    (hfailures : pool.failures = Function.entries (Function.failure? m r) functions)
    (hperm : functions.Perm m.functions) : (pool.failures.map Prod.snd).Perm (m.failures r) := by
  rw [hfailures, Function.entries, List.map_filterMap]
  refine (hperm.filterMap _).trans (List.Perm.of_eq (List.filterMap_congr fun f _ => ?_))
  unfold Function.failure?
  cases f.compile m r <;> rfl

/-- When all workers have left, they have made what was to be made. -/
theorem Inv.delivers {workers : Nat} (h : pool.Inv m r m.functions workers) (hm : m.Distinct)
    (hr : Registry.ofManifest m = .ok r) (hdone : pool.isDone = true) : pool.Delivers m r := by
  have hperm := h.compiled_perm hdone
  have hnames := hm.functions
  have hcompiled : (pool.compiled.map Function.name).Nodup :=
    (hperm.map Function.name).nodup_iff.mpr hnames
  have hkeys : (pool.program r).procedures.map Prod.fst = pool.procedures.map Prod.fst := by
    rw [program, List.map_map]
    rfl
  have hpartition : ((pool.program r).procedures.map Prod.fst ++ pool.failures.map Prod.fst).Perm
      (pool.compiled.map Function.name) := by
    rw [hkeys, h.procedures_eq, h.failures_eq, Function.keys_entries, Function.keys_entries,
      ← List.map_append]
    simp only [Function.isSome_failure?]
    exact (List.filter_append_perm _ _).map _
  have hlookup : ∀ f ∈ m.functions, pool.procedures.lookup f.name = f.procedure? m r := by
    intro f hf
    rw [h.procedures_eq]
    exact Function.lookup_entries _ hcompiled (hperm.mem_iff.mpr hf)
  refine
    { compiled := hperm
      build := ?build
      names := hpartition.trans (hperm.map _)
      names_nodup := hpartition.nodup_iff.mpr hcompiled
      frames := ?frames
      lookup_procedures := ?lookup_procedures
      lookup_frames := ?lookup_frames
      lookup_failures := ?lookup_failures }
  case build =>
    refine ⟨{ program := m.program r, failures := FunctionError.sort (m.failures r) }, ?_,
      same_program h.procedures_eq hperm, ?_⟩
    · rw [Manifest.compile, hr]
      rfl
    · exact (failures_perm h.failures_eq hperm).trans (Text.insertionSort_perm _ _).symm
  case frames =>
    rw [program, List.map_map, List.map_map]
    rfl
  case lookup_procedures =>
    intro f hf
    rw [program, Table.lookup_map, hlookup f hf]
    rfl
  case lookup_frames =>
    intro f hf
    have hmap := Table.lookup_map (fun p : Procedure => (p.frameSize : Int)) pool.procedures f.name
    rw [hlookup f hf] at hmap
    exact hmap
  case lookup_failures =>
    intro f hf failure
    rw [h.failures_eq, Function.lookup_entries _ hcompiled (hperm.mem_iff.mpr hf)]
    unfold Function.failure?
    cases f.compile m r <;> simp

end Pool

namespace Manifest

variable {m : Manifest} {r : Registry}

/-- However many workers there are and whatever happens when, the workers do not get stuck,
they come to an end, and in the end they have made what comes out when the functions are
compiled one after the other. -/
theorem delivers_of_run (hm : m.Distinct) (hr : Registry.ofManifest m = .ok r) (requested : Int)
    {processors : Nat} (hprocessors : 0 < processors) (traced : Bool) {events : List PoolEvent}
    {pool : Pool}
    (hrun : (Pool.start m.functions
      (Pool.size requested processors traced m.functions.length)).run? m r events = some pool) :
    (pool.isDone = false → ∃ event next, pool.step? m r event = some next) ∧
      events.length ≤ 2 * m.functions.length + 1 +
        Pool.size requested processors traced m.functions.length ∧
      (pool.isDone = true → pool.Delivers m r) := by
  have hstart := Pool.inv_start (m := m) (r := r) m.functions
    (Pool.size requested processors traced m.functions.length)
  obtain ⟨hinv, hremaining⟩ := hstart.run hm.functions hrun
  refine ⟨hinv.exists_step (Pool.size_pos requested hprocessors traced _), ?_,
    hinv.delivers hm hr⟩
  rw [Pool.remaining_start] at hremaining
  omega

/-- Three functions, of which one refers to nothing that exists. -/
def ofGreetings : Manifest where
  entities :=
    [.function
        { name := "hello", result := some .string, body := [.ret {} (some (.string {} "hello"))] },
      .function { name := "lost", body := [.reference {} "nobody" []] },
      .function
        { name := "bye", result := some .string, body := [.ret {} (some (.string {} "bye"))] }]

/-- Two workers, and the first function is stored last. -/
theorem delivers_of_run_ofGreetings :
    ∃ pool, (Pool.start ofGreetings.functions (Pool.size 2 8 false 3)).run? ofGreetings {}
        [.hand 0, .hand 1, .store 1, .hand 1, .store 1, .store 0, .close, .leave 1, .leave 0] =
          some pool ∧
      pool.isDone = true ∧ pool.compiled.map Function.name = ["hello", "bye", "lost"] ∧
      pool.Delivers ofGreetings {} := by
  have hstate : ((Pool.start ofGreetings.functions (Pool.size 2 8 false 3)).run? ofGreetings {}
      [.hand 0, .hand 1, .store 1, .hand 1, .store 1, .store 0, .close, .leave 1, .leave 0]).map
        (fun pool => (pool.isDone, pool.compiled.map Function.name)) =
          some (true, ["hello", "bye", "lost"]) := by
    decide +kernel
  obtain ⟨pool, hrun, hpool⟩ := Option.map_eq_some_iff.mp hstate
  obtain ⟨hdone, hcompiled⟩ := Prod.mk.inj hpool
  have hentities : ofEntities ofGreetings.entities = .ok ofGreetings := rfl
  have hend := delivers_of_run (distinct_of_ofEntities hentities) rfl 2 (by decide) false hrun
  exact ⟨pool, hrun, hdone, hcompiled, hend.2.2 hdone⟩

end Manifest

end StoredProc
