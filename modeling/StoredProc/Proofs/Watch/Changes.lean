import Mathlib.Data.List.Induction
import StoredProc.Watch.Loop

/-! # No change is lost

Requests for a build are merged twice: a change starts the timer anew, which drops the
request the timer stood for, and a request that finds another one waiting is dropped too.
Both are harmless. From a change on, the timer runs or a request waits until a build is
started, and the loop gets to that build without further news.
-/

namespace StoredProc

/-- Whether the loop takes news that calls for a build of a manifest. -/
def LoopEvent.callsForBuild (manifest : String) : LoopEvent → Bool
  | .file event => event.callsForBuild manifest
  | _ => false

/-- What goes on without news: the timer, and the build that was started. -/
def LoopEvent.GoesOn (event : LoopEvent) : Prop :=
  event = .timeout ∨ event = .request ∨ event = .built

namespace WatchLoop

variable {s next : WatchLoop} {event : LoopEvent} {events : List LoopEvent} {manifest : String}

/-! ## One step -/

/-- What one event does to the loop. -/
inductive Step (s : WatchLoop) : LoopEvent → WatchLoop → Prop
  | change {event : FileEvent} (hwaiting : s.phase = .waiting)
      (hcalls : event.callsForBuild s.manifest = true) : Step s (.file event) s.restart
  | pass {event : FileEvent} (hwaiting : s.phase = .waiting)
      (hcalls : event.callsForBuild s.manifest = false) : Step s (.file event) s
  | failure (hwaiting : s.phase = .waiting) : Step s .failure s
  | timeout (htimer : s.timer = .running) : Step s .timeout { s with timer := .firing }
  | request (htimer : s.timer = .firing) :
      Step s .request { s with timer := .idle, requested := true }
  | lateRequest (hlate : s.late ≠ 0) :
      Step s .lateRequest { s with late := s.late - 1, requested := true }
  | build (hwaiting : s.phase = .waiting) (hrequested : s.requested = true) :
      Step s .build { s with phase := .building, requested := false }
  | built (hbuilding : s.phase = .building) : Step s .built { s with phase := .waiting }
  | cancel (hwaiting : s.phase = .waiting) : Step s .cancel { s with phase := .ended }

/-- What an event does to the loop is one of the cases. -/
theorem step_of_step? (h : s.step? event = some next) : Step s event next := by
  cases event with
  | file event =>
      obtain ⟨hwaiting, h⟩ := Option.ite_none_right_eq_some.mp h
      cases hcalls : event.callsForBuild s.manifest with
      | true =>
          rw [hcalls] at h
          cases h
          exact .change hwaiting hcalls
      | false =>
          rw [hcalls] at h
          cases h
          exact .pass hwaiting hcalls
  | failure =>
      obtain ⟨hwaiting, h⟩ := Option.ite_none_right_eq_some.mp h
      cases h
      exact .failure hwaiting
  | timeout =>
      obtain ⟨htimer, h⟩ := Option.ite_none_right_eq_some.mp h
      cases h
      exact .timeout htimer
  | request =>
      obtain ⟨htimer, h⟩ := Option.ite_none_right_eq_some.mp h
      cases h
      exact .request htimer
  | lateRequest =>
      obtain ⟨hlate, h⟩ := Option.ite_none_left_eq_some.mp h
      cases h
      exact .lateRequest hlate
  | build =>
      obtain ⟨hready, h⟩ := Option.ite_none_right_eq_some.mp h
      cases h
      simp only [Bool.and_eq_true, decide_eq_true_eq] at hready
      exact .build hready.1 hready.2
  | built =>
      obtain ⟨hbuilding, h⟩ := Option.ite_none_right_eq_some.mp h
      cases h
      exact .built hbuilding
  | cancel =>
      obtain ⟨hwaiting, h⟩ := Option.ite_none_right_eq_some.mp h
      cases h
      exact .cancel hwaiting

theorem Step.manifest_eq (h : Step s event next) : next.manifest = s.manifest := by
  cases h <;> rfl

/-- The timer runs or fires, or a request waits. -/
def IsDue (s : WatchLoop) : Prop := s.timer ≠ .idle ∨ s.requested = true

/-- A change of the manifest makes a build due. -/
theorem Step.isDue_of_callsForBuild (h : Step s event next)
    (hcalls : event.callsForBuild s.manifest = true) : next.IsDue := by
  cases h with
  | change => exact .inl (by simp [restart])
  | pass _ hpass =>
      rw [LoopEvent.callsForBuild, hpass] at hcalls
      cases hcalls
  | _ => cases hcalls

/-- A build that is due stays due until one is started. -/
theorem Step.isDue (h : Step s event next) (hdue : s.IsDue) (hbuild : event ≠ .build) :
    next.IsDue := by
  cases h with
  | change => exact .inl (by simp [restart])
  | pass | failure | built | cancel => exact hdue
  | timeout => exact .inl (by simp)
  | request | lateRequest => exact .inr rfl
  | build => exact absurd rfl hbuild

/-! ## Runs -/

theorem run?_append {more : List LoopEvent} :
    s.run? (events ++ more) = (s.run? events).bind (·.run? more) :=
  List.foldlM_append

theorem run?_concat :
    s.run? (events ++ [event]) = some next ↔
      ∃ middle, s.run? events = some middle ∧ middle.step? event = some next := by
  rw [run?_append, Option.bind_eq_some_iff]
  simp [run?]

/-- The loop watches the same manifest throughout. -/
theorem manifest_eq_of_run? (h : s.run? events = some next) : next.manifest = s.manifest := by
  induction events using List.reverseRecOn generalizing next with
  | nil =>
      cases h
      rfl
  | append_singleton events event ih =>
      obtain ⟨middle, hmiddle, hstep⟩ := run?_concat.mp h
      rw [(step_of_step? hstep).manifest_eq, ih hmiddle]

/-- News that calls for a build of the manifest has come, and no build was started since. -/
def Unbuilt (manifest : String) (events : List LoopEvent) : Prop :=
  ∃ before event after, events = before ++ event :: after ∧
    event.callsForBuild manifest = true ∧ .build ∉ after

/-- After one more event a build is missing if the event calls for it, or if it was missing and
the event is no build. -/
theorem unbuilt_concat :
    Unbuilt manifest (events ++ [event]) ↔
      event.callsForBuild manifest = true ∨ event ≠ .build ∧ Unbuilt manifest events := by
  constructor
  · rintro ⟨before, change, after, heq, hcalls, hafter⟩
    cases after using List.reverseRecOn with
    | nil =>
        obtain ⟨-, hlast⟩ := List.append_inj' heq rfl
        cases hlast
        exact .inl hcalls
    | append_singleton after last =>
        rw [← List.cons_append, ← List.append_assoc] at heq
        obtain ⟨rfl, hlast⟩ := List.append_inj' heq rfl
        cases hlast
        simp only [List.mem_append, List.mem_singleton, not_or] at hafter
        exact .inr ⟨Ne.symm hafter.2, before, change, after, rfl, hcalls, hafter.1⟩
  · rintro (hcalls | ⟨hbuild, before, change, after, rfl, hcalls, hafter⟩)
    · exact ⟨events, event, [], rfl, hcalls, by simp⟩
    · exact ⟨before, change, after ++ [event], by simp, hcalls, by simp [hafter, hbuild.symm]⟩

/-- As long as a change is not built, a build is due. -/
theorem isDue_of_unbuilt (h : s.run? events = some next) (hunbuilt : Unbuilt s.manifest events) :
    next.IsDue := by
  induction events using List.reverseRecOn generalizing next with
  | nil =>
      obtain ⟨before, event, after, heq, -⟩ := hunbuilt
      simp at heq
  | append_singleton events event ih =>
      obtain ⟨middle, hmiddle, hstep⟩ := run?_concat.mp h
      have hstep := step_of_step? hstep
      rcases unbuilt_concat.mp hunbuilt with hcalls | ⟨hbuild, hunbuilt⟩
      · rw [← manifest_eq_of_run? hmiddle] at hcalls
        exact hstep.isDue_of_callsForBuild hcalls
      · exact hstep.isDue (ih hmiddle hunbuilt) hbuild

/-! ## Progress -/

/-- Where a build is due, the timer comes to ask for it. -/
theorem exists_requested (hdue : s.IsDue) :
    ∃ events next, (∀ event ∈ events, event.GoesOn) ∧ s.run? events = some next ∧
      next.requested = true ∧ next.phase = s.phase := by
  cases hrequested : s.requested with
  | true => exact ⟨[], s, by simp, rfl, hrequested, rfl⟩
  | false =>
      cases htimer : s.timer with
      | idle => simp [IsDue, hrequested, htimer] at hdue
      | running =>
          exact ⟨[.timeout, .request], { s with timer := .idle, requested := true },
            by simp [LoopEvent.GoesOn], by simp [run?, step?, htimer], rfl, rfl⟩
      | firing =>
          exact ⟨[.request], { s with timer := .idle, requested := true },
            by simp [LoopEvent.GoesOn], by simp [run?, step?, htimer], rfl, rfl⟩

/-- The loop gets to a build that is due, without further news. -/
theorem exists_build_of_isDue (hdue : s.IsDue) (hphase : s.phase ≠ .ended) :
    ∃ events next, (∀ event ∈ events, event.GoesOn) ∧
      s.run? (events ++ [.build]) = some next := by
  obtain ⟨events, middle, hgo, hrun, hrequested, hsame⟩ := exists_requested hdue
  cases hmiddle : middle.phase with
  | waiting =>
      refine ⟨events, { middle with phase := .building, requested := false }, hgo,
        run?_concat.mpr ⟨middle, hrun, ?_⟩⟩
      simp [step?, hmiddle, hrequested]
  | building =>
      refine ⟨events ++ [.built], { middle with phase := .building, requested := false }, ?_,
        run?_concat.mpr ⟨{ middle with phase := .waiting },
          run?_concat.mpr ⟨middle, hrun, ?_⟩, ?_⟩⟩
      · simpa [LoopEvent.GoesOn, or_imp, forall_and] using hgo
      · simp [step?, hmiddle]
      · simp [step?, hrequested]
  | ended => exact absurd (hsame ▸ hmiddle) hphase

/-- The loop loses no change. Whatever happens, from a change on a build is due until one is
started, and without further news the loop gets there; so where no build is due any more, one
was started after the last change. -/
theorem built_or_due {manifest : String} {events : List LoopEvent} {s : WatchLoop}
    (h : run? { manifest } events = some s) :
    (Unbuilt manifest events → s.timer ≠ .idle ∨ s.requested = true) ∧
      (¬s.IsDue → ∀ before event after, events = before ++ event :: after →
        event.callsForBuild manifest = true → .build ∈ after) ∧
      (s.IsDue → s.phase ≠ .ended → ∃ more next, (∀ event ∈ more, event.GoesOn) ∧
        s.run? (more ++ [.build]) = some next) := by
  refine ⟨isDue_of_unbuilt h, ?_, exists_build_of_isDue⟩
  intro hnot before event after heq hcalls
  by_contra hbuild
  exact hnot (isDue_of_unbuilt h ⟨before, event, after, heq, hcalls, hbuild⟩)

/-- A burst of changes. The second one comes when the timer has run down, so a build is asked
for early, and the third one comes after that build. News of another file is in between. -/
def burst (path : String) : List LoopEvent :=
  [.file ⟨path, [.written]⟩, .file ⟨path ++ "~", [.removed]⟩, .timeout,
    .file ⟨path, [.permitted, .renamed]⟩, .lateRequest, .build, .built, .file ⟨path, [.created]⟩]

/-- The news that came after the build is still due, and goes on to a build. -/
theorem built_or_due_burst :
    ∃ s, run? { manifest := Path.clean "/work/./users.json" } (burst "/work/./users.json") =
        some s ∧
      Unbuilt (Path.clean "/work/./users.json") (burst "/work/./users.json") ∧
      (s.timer ≠ .idle ∨ s.requested = true) ∧
      ∃ more next, (∀ event ∈ more, event.GoesOn) ∧ s.run? (more ++ [.build]) = some next := by
  have hrun : run? { manifest := Path.clean "/work/./users.json" } (burst "/work/./users.json") =
      some { manifest := Path.clean "/work/./users.json", timer := .running } := by
    simp [run?, burst, step?, FileEvent.callsForBuild, FileChange.callsForBuild, restart]
  have hunbuilt : Unbuilt (Path.clean "/work/./users.json") (burst "/work/./users.json") :=
    ⟨(burst "/work/./users.json").dropLast, .file ⟨"/work/./users.json", [.created]⟩, [], rfl,
      by simp [LoopEvent.callsForBuild, FileEvent.callsForBuild, FileChange.callsForBuild],
      by simp⟩
  obtain ⟨hdue, -, hgoes⟩ := built_or_due hrun
  exact ⟨_, hrun, hunbuilt, hdue hunbuilt, hgoes (hdue hunbuilt) (by simp)⟩

end WatchLoop

end StoredProc
