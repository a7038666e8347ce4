import StoredProc.Proofs.Cache.Transparency

/-! # Calls at the same time

Callers use a cache at the same time. Each step of a call works on one of the two layers,
and nothing keeps other calls from taking their steps in between. A call that is left
alone does what the operation does.
-/

namespace StoredProc

/-- What callers may ask of an open cache at the same time. -/
inductive CacheCall where
  | get (fingerprint : String)
  | put (fingerprint : String) (entry : CacheEntry)
  | clear

/-- How far a call has come: which step is next and what it needs of the steps before it. -/
inductive CallStage where
  /-- Look an entry up in the memory. -/
  | look (key : String)
  /-- Read an entry from the database. -/
  | fetch (key : String)
  /-- Write an entry to the database. -/
  | store (key content : String) (entry : CacheEntry)
  /-- Keep an entry in the memory, then answer. -/
  | remember (key : String) (entry : CacheEntry) (answer : CacheAnswer)
  /-- Remove all from the database. -/
  | wipe
  /-- Forget the memory. -/
  | forget
  | answered (answer : CacheAnswer)

namespace CacheCall

/-- The request that a call makes. -/
def request : CacheCall → CacheRequest
  | .get fingerprint => .get fingerprint
  | .put fingerprint entry => .put fingerprint entry
  | .clear => .clear

/-- How a call starts. A call that has no key or nothing to write touches no layer. -/
def start : CacheCall → CallStage
  | .get fingerprint =>
    if fingerprint.isEmpty then .answered (.failed .invalidKey) else .look (Cache.keyOf fingerprint)
  | .put fingerprint entry =>
    if fingerprint.isEmpty then .answered (.failed .invalidKey)
    else
      match entry.content? with
      | none => .answered (.failed .unwritable)
      | some content => .store (Cache.keyOf fingerprint) content entry
  | .clear => .wipe

variable {call : CacheCall} {key content : String} {entry : CacheEntry}

/-- Only a put that has a fingerprint and an entry that can be written starts with a write. -/
theorem start_eq_store_iff :
    call.start = .store key content entry ↔
      ∃ fingerprint, call = .put fingerprint entry ∧ fingerprint ≠ "" ∧
        Cache.keyOf fingerprint = key ∧ entry.content? = some content := by
  constructor
  · intro h
    cases call with
    | get fingerprint =>
        dsimp only [start] at h
        split at h <;> cases h
    | put fingerprint new =>
        dsimp only [start] at h
        split at h
        next => cases h
        next hfingerprint =>
          split at h
          next => cases h
          next text hcontent =>
            cases h
            exact ⟨fingerprint, rfl, by simpa using hfingerprint, rfl, hcontent⟩
    | clear => cases h
  · rintro ⟨fingerprint, rfl, hfingerprint, rfl, hcontent⟩
    simp [start, hfingerprint, hcontent]

/-- Only a get that has a fingerprint starts with a look at the memory. -/
theorem start_eq_look_iff :
    call.start = .look key ↔
      ∃ fingerprint, call = .get fingerprint ∧ fingerprint ≠ "" ∧
        Cache.keyOf fingerprint = key := by
  constructor
  · intro h
    cases call with
    | get fingerprint =>
        dsimp only [start] at h
        split at h
        next => cases h
        next hfingerprint =>
          cases h
          exact ⟨fingerprint, rfl, by simpa using hfingerprint, rfl⟩
    | put fingerprint new =>
        dsimp only [start] at h
        split at h
        next => cases h
        next => split at h <;> cases h
    | clear => cases h
  · rintro ⟨fingerprint, rfl, hfingerprint, rfl⟩
    simp [start, hfingerprint]

end CacheCall

namespace CallStage

def isAnswered : CallStage → Bool
  | .answered _ => true
  | _ => false

/-- One step on one layer: how far the call has come then, and the cache after it. -/
def next (c : Cache) : CallStage → CallStage × Cache
  | .look key =>
    match c.remembered? key with
    | some entry => (.answered (.found entry.view), c)
    | none => (.fetch key, c)
  | .fetch key =>
    match c.fetch key with
    | .error cause => (.answered (.failed cause), c)
    | .ok none => (.answered .missing, c)
    | .ok (some entry) => (.remember key entry (.found entry.view), c)
  | .store key content entry =>
    match c.store key content with
    | .error cause => (.answered (.failed cause), c)
    | .ok stored => (.remember key entry .done, stored)
  | .remember key entry answer => (.answered answer, c.remember key entry)
  | .wipe =>
    match c.wipe with
    | .error cause => (.answered (.failed cause), c)
    | .ok wiped => (.forget, wiped)
  | .forget => (.answered .done, c.forget)
  | .answered answer => (.answered answer, c)

end CallStage

/-! ## One call -/

/-- A call that is left alone comes to an answer, with the cache after it. -/
inductive CallStage.Finishes : CallStage → Cache → CacheAnswer → Cache → Prop
  | answered {c : Cache} {answer : CacheAnswer} : Finishes (.answered answer) c answer c
  | step {stage : CallStage} {c after : Cache} {answer : CacheAnswer}
      (hstage : stage.isAnswered = false)
      (hnext : Finishes (stage.next c).1 (stage.next c).2 answer after) :
      Finishes stage c answer after

/-- The steps of a call make up the operation. -/
theorem CacheCall.finishes_start (call : CacheCall) (c : Cache) :
    call.start.Finishes c (c.perform call.request).1 (c.perform call.request).2 := by
  cases call with
  | get fingerprint =>
      dsimp only [start, request, Cache.perform, Cache.get]
      split
      next => exact .answered
      next =>
        refine .step rfl ?_
        dsimp only [CallStage.next]
        cases c.remembered? (Cache.keyOf fingerprint) with
        | some entry => exact .answered
        | none =>
            refine .step rfl ?_
            dsimp only [CallStage.next]
            match c.fetch (Cache.keyOf fingerprint) with
            | .error cause => exact .answered
            | .ok none => exact .answered
            | .ok (some entry) => exact .step rfl .answered
  | put fingerprint entry =>
      dsimp only [start, request, Cache.perform, Cache.put]
      split
      next => exact .answered
      next =>
        cases entry.content? with
        | none => exact .answered
        | some content =>
            refine .step rfl ?_
            dsimp only [CallStage.next]
            cases c.store (Cache.keyOf fingerprint) content with
            | error cause => exact .answered
            | ok stored => exact .step rfl .answered
  | clear =>
      dsimp only [start, request, Cache.perform, Cache.clear]
      refine .step rfl ?_
      dsimp only [CallStage.next]
      cases c.wipe with
      | error cause => exact .answered
      | ok wiped => exact .step rfl .answered

/-- An open cache after a write to the database. -/
def Cache.write (c : Cache) (key content : String) : Cache :=
  { c with database := c.database.put key (.content content) }

/-- What one step of a call does to an open cache. -/
inductive CallStage.Step (c : Cache) : CallStage → CallStage → Cache → Prop
  | hit {key : String} {entry : CacheEntry} (hremembered : c.remembered? key = some entry) :
      Step c (.look key) (.answered (.found entry.view)) c
  | look {key : String} (hremembered : c.remembered? key = none) :
      Step c (.look key) (.fetch key) c
  | failed {key : String} {cause : Cache.Error} (hfetch : c.fetch key = .error cause) :
      Step c (.fetch key) (.answered (.failed cause)) c
  | missing {key : String} (hfetch : c.fetch key = .ok none) :
      Step c (.fetch key) (.answered .missing) c
  | found {key : String} {entry : CacheEntry} (hfetch : c.fetch key = .ok (some entry)) :
      Step c (.fetch key) (.remember key entry (.found entry.view)) c
  | store {key content : String} {entry : CacheEntry} :
      Step c (.store key content entry) (.remember key entry .done) (c.write key content)
  | remember {key : String} {entry : CacheEntry} {answer : CacheAnswer} :
      Step c (.remember key entry answer) (.answered answer) (c.remember key entry)
  | wipe : Step c .wipe .forget { c with database := [] }
  | forget : Step c .forget (.answered .done) c.forget

theorem CallStage.Step.isOpen_eq {c after : Cache} {stage new : CallStage}
    (h : stage.Step c new after) : after.isOpen = c.isOpen := by
  cases h <;> rfl

/-- What a call does next on an open cache is one of the steps. -/
theorem CallStage.step_next {c : Cache} {stage : CallStage} (hopen : c.isOpen = true)
    (hstage : stage.isAnswered = false) : stage.Step c (stage.next c).1 (stage.next c).2 := by
  cases stage with
  | look key =>
      dsimp only [next]
      split
      next entry hremembered => exact .hit hremembered
      next hremembered => exact .look hremembered
  | fetch key =>
      dsimp only [next]
      split
      next cause hfetch => exact .failed hfetch
      next hfetch => exact .missing hfetch
      next entry hfetch => exact .found hfetch
  | store key content entry =>
      rw [next, Cache.store, if_pos hopen]
      exact .store
  | remember key entry answer => exact .remember
  | wipe =>
      rw [next, Cache.wipe, if_pos hopen]
      exact .wipe
  | forget => exact .forget
  | answered answer => cases hstage

/-! ## Many calls -/

/-- A cache and the calls that were made, each with how far it has come. -/
structure CacheSession where
  cache : Cache
  calls : List (CacheCall × CallStage) := []

/-- What happens next: a call is made, or one that was made takes a step. -/
inductive SessionEvent where
  | start (call : CacheCall)
  | step (index : Nat)

namespace CacheSession

/-- The session after an event, if the event can happen. -/
def step? (s : CacheSession) : SessionEvent → Option CacheSession
  | .start call => some { s with calls := s.calls ++ [(call, call.start)] }
  | .step index =>
    match s.calls[index]? with
    | some (call, stage) =>
      if stage.isAnswered then none
      else some ⟨(stage.next s.cache).2, s.calls.set index (call, (stage.next s.cache).1)⟩
    | none => none

/-- The session after events, if they can happen one after the other. -/
def run? (s : CacheSession) (events : List SessionEvent) : Option CacheSession :=
  events.foldlM step? s

/-- No call is in progress. -/
def Idle (s : CacheSession) : Prop := ∀ call ∈ s.calls, call.2.isAnswered = true

variable {s next : CacheSession} {event : SessionEvent} {events : List SessionEvent}
  {call : CacheCall} {stage : CallStage}

/-! ## A call alone -/

theorem run?_cons :
    s.run? (event :: events) = (s.step? event).bind (·.run? events) :=
  rfl

theorem run?_append {more : List SessionEvent} :
    s.run? (events ++ more) = (s.run? events).bind (·.run? more) :=
  List.foldlM_append

/-- The last call takes a step. -/
theorem run?_step_last {c : Cache} {calls : List (CacheCall × CallStage)}
    (h : stage.isAnswered = false) :
    run? ⟨c, calls ++ [(call, stage)]⟩ (.step calls.length :: events) =
      run? ⟨(stage.next c).2, calls ++ [(call, (stage.next c).1)]⟩ events := by
  rw [run?_cons]
  simp [step?, h]

/-- Steps of the call that was made last bring it to its answer, and the other calls stay where
they are. -/
theorem exists_run?_of_finishes {c after : Cache} {answer : CacheAnswer}
    {calls : List (CacheCall × CallStage)} (h : stage.Finishes c answer after) :
    ∃ count, run? ⟨c, calls ++ [(call, stage)]⟩ (List.replicate count (.step calls.length)) =
      some ⟨after, calls ++ [(call, .answered answer)]⟩ := by
  induction h with
  | answered => exact ⟨0, rfl⟩
  | step hstage _ ih =>
      obtain ⟨count, hcount⟩ := ih
      exact ⟨count + 1, (run?_step_last hstage).trans hcount⟩

/-- A call that takes all its steps before any other call takes one does what the operation
does. -/
theorem exists_run?_alone (s : CacheSession) (call : CacheCall) :
    ∃ count, s.run? (.start call :: List.replicate count (.step s.calls.length)) =
      some ⟨(s.cache.perform call.request).2,
        s.calls ++ [(call, .answered (s.cache.perform call.request).1)]⟩ :=
  exists_run?_of_finishes (call.finishes_start s.cache)

/-! ## Sessions that come about -/

/-- One session comes about from another while only such calls are made. -/
def Reaches (calls : Set CacheCall) (s next : CacheSession) : Prop :=
  ∃ events, (∀ call, .start call ∈ events → call ∈ calls) ∧ s.run? events = some next

variable {calls : Set CacheCall}

theorem Reaches.trans {middle : CacheSession} (h : s.Reaches calls middle)
    (hmiddle : middle.Reaches calls next) : s.Reaches calls next := by
  obtain ⟨events, hstarts, hrun⟩ := h
  obtain ⟨more, hmore, hrunMore⟩ := hmiddle
  refine ⟨events ++ more, fun call hcall => ?_, ?_⟩
  · exact (List.mem_append.1 hcall).elim (hstarts call) (hmore call)
  · rw [run?_append, hrun, Option.bind_some, hrunMore]

theorem reaches_start (h : call ∈ calls) :
    s.Reaches calls { s with calls := s.calls ++ [(call, call.start)] } :=
  ⟨[.start call], by simpa using h, rfl⟩

theorem reaches_step (index : Nat) (h : s.calls[index]? = some (call, stage))
    (hstage : stage.isAnswered = false) :
    s.Reaches calls
      ⟨(stage.next s.cache).2, s.calls.set index (call, (stage.next s.cache).1)⟩ :=
  ⟨[.step index], by simp, by simp [run?, step?, h, hstage]⟩

/-- A call that is left alone leaves the session with its answer and with the cache after its
request. -/
theorem reaches_alone (s : CacheSession) (h : call ∈ calls) :
    s.Reaches calls ⟨(s.cache.perform call.request).2,
      s.calls ++ [(call, .answered (s.cache.perform call.request).1)]⟩ := by
  obtain ⟨count, hrun⟩ := s.exists_run?_alone call
  refine ⟨_, ?_, hrun⟩
  simpa using h

/-- What every call keeps when it is made and when it takes a step holds of every session
that comes about. -/
theorem Reaches.invariant {q : CacheSession → Prop}
    (hstart : ∀ s call, q s → call ∈ calls → q { s with calls := s.calls ++ [(call, call.start)] })
    (hstep : ∀ s index call stage, q s → s.calls[index]? = some (call, stage) →
      stage.isAnswered = false →
      q ⟨(stage.next s.cache).2, s.calls.set index (call, (stage.next s.cache).1)⟩)
    (h : s.Reaches calls next) (hs : q s) : q next := by
  obtain ⟨events, hstarts, hrun⟩ := h
  -- The session after the first event takes the place of the one the run began with.
  induction events generalizing s with
  | nil =>
      cases hrun
      exact hs
  | cons event events ih =>
      rw [run?_cons, Option.bind_eq_some_iff] at hrun
      obtain ⟨middle, hmiddle, hrest⟩ := hrun
      refine ih ?_ (fun call hcall => hstarts call (List.mem_cons_of_mem event hcall)) hrest
      cases event with
      | start call =>
          cases hmiddle
          exact hstart s call hs (hstarts call List.mem_cons_self)
      | step index =>
          dsimp only [step?] at hmiddle
          split at hmiddle
          next call stage hcall =>
            split at hmiddle
            next => cases hmiddle
            next hstage =>
              cases hmiddle
              exact hstep s index call stage hs hcall (by simpa using hstage)
          next => cases hmiddle

/-- No call closes the cache. -/
theorem Reaches.isOpen (h : s.Reaches calls next) (hopen : s.cache.isOpen = true) :
    next.cache.isOpen = true := by
  refine h.invariant (q := fun s => s.cache.isOpen = true) (fun _ _ hs _ => hs) ?_ hopen
  intro s index call stage hs _ hstage
  exact (stage.step_next hs hstage).isOpen_eq.trans hs

/-- What holds of all calls holds of them after a step of one, if it holds of that one then. -/
theorem forall_mem_set {p : CacheCall × CallStage → Prop} {index : Nat}
    {new : CacheCall × CallStage} (h : ∀ call ∈ s.calls, p call) (hnew : p new) :
    ∀ call ∈ s.calls.set index new, p call := by
  intro other hother
  rcases List.mem_or_eq_of_mem_set hother with hother | rfl
  · exact h other hother
  · exact hnew

/-- A step of one call leaves the others. -/
theorem mem_set_of_ne {index : Nat} {other new : CacheCall × CallStage}
    (hindex : s.calls[index]? = some (call, stage)) (hother : other ∈ s.calls)
    (hne : other ≠ (call, stage)) : other ∈ s.calls.set index new := by
  obtain ⟨place, hplace⟩ := List.getElem?_of_mem hother
  have hkept : (s.calls.set index new)[place]? = some other := by
    rw [List.getElem?_set_ne, hplace]
    rintro rfl
    exact hne (Option.some.inj (hplace.symm.trans hindex))
  exact List.mem_of_getElem? hkept

end CacheSession

end StoredProc
