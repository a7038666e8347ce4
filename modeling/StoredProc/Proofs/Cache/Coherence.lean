import StoredProc.Proofs.Cache.Clearing

/-! # Coherence of the layers

The memory of a cache should hold what its database holds. A call changes the memory last,
and by then another call may have changed the database. So the layers stay coherent under
calls at the same time exactly if none of the calls can remove or replace an entry that
another one is about to remember.
-/

namespace StoredProc

/-! ## Calls that spare an entry -/

namespace Cache

/-- The database holds an entry that callers cannot tell from this one. -/
def Keeps (c : Cache) (key : String) (entry : CacheEntry) : Prop :=
  ∃ read, c.fetch key = .ok (some read) ∧ read.view = entry.view

/-- What the memory holds, the database holds. -/
def Coherent (c : Cache) : Prop :=
  ∀ key entry, c.remembered? key = some entry → c.Keeps key entry

end Cache

namespace CacheCall

/-- None of the calls removes an entry or writes under its key what callers can tell from it. -/
def Spares (calls : Set CacheCall) (key : String) (entry : CacheEntry) : Prop :=
  .clear ∉ calls ∧ ∀ call ∈ calls, ∀ content other,
    call.start = .store key content other → other.view = entry.view

/-- None of the calls disturbs another: an entry that is written is read back and spared, and
so is one that is found in the database but not in the memory. -/
structure Harmless (c : Cache) (calls : Set CacheCall) : Prop where
  written : ∀ call ∈ calls, ∀ key content entry, call.start = .store key content entry →
    (∃ read, CacheEntry.ofContent content = .ok read ∧ read.view = entry.view) ∧
      Spares calls key entry
  found : ∀ call ∈ calls, ∀ key entry, call.start = .look key → c.remembered? key = none →
    c.fetch key = .ok (some entry) → Spares calls key entry

variable {call : CacheCall} {calls : Set CacheCall} {key content : String}
  {entry other : CacheEntry}

theorem Spares.of_view_eq (h : Spares calls key entry) (hview : entry.view = other.view) :
    Spares calls key other :=
  ⟨h.1, fun call hcall content new hstart => (h.2 call hcall content new hstart).trans hview⟩

end CacheCall

open CacheCall (Spares Harmless)

/-! ## Coherence needs harmless calls -/

namespace Cache

variable {c : Cache} {calls : Set CacheCall} {key name content : String}
  {entry : CacheEntry}

theorem fetch_write_self_eq_ok_iff (hopen : c.isOpen = true) :
    (c.write key content).fetch key = .ok (some entry) ↔
      CacheEntry.ofContent content = .ok entry := by
  simp only [fetch, write, hopen, Database.get?_put_self, if_true]
  cases CacheEntry.ofContent content <;> simp

theorem fetch_write_of_ne (h : name ≠ key) : (c.write key content).fetch name = c.fetch name := by
  simp only [fetch, write, Database.get?_put_of_ne h]

/-- What is found after a write is what was written. -/
theorem ofContent_of_fetch_perform {call : CacheCall} {read : CacheEntry}
    (hopen : c.isOpen = true) (hstart : call.start = .store key content entry)
    (h : (c.perform call.request).2.fetch key = .ok (some read)) :
    CacheEntry.ofContent content = .ok read := by
  obtain ⟨fingerprint, rfl, hfingerprint, rfl, hcontent⟩ := CacheCall.start_eq_store_iff.1 hstart
  rw [CacheCall.request, perform, put_of_open hfingerprint hcontent hopen] at h
  exact (fetch_write_self_eq_ok_iff hopen).1 h

/-- A put leaves a coherent cache only if its entry is read back. -/
theorem exists_read_of_coherent {call : CacheCall} (hopen : c.isOpen = true)
    (hstart : call.start = .store key content entry)
    (h : (c.perform call.request).2.Coherent) :
    ∃ read, CacheEntry.ofContent content = .ok read ∧ read.view = entry.view := by
  have hmemory : (c.perform call.request).2.remembered? key = some entry := by
    obtain ⟨fingerprint, rfl, hfingerprint, rfl, hcontent⟩ :=
      CacheCall.start_eq_store_iff.1 hstart
    rw [CacheCall.request, perform, put_of_open hfingerprint hcontent hopen]
    exact remembered?_remember_self
  obtain ⟨read, hread, hview⟩ := h key entry hmemory
  exact ⟨read, ofContent_of_fetch_perform hopen hstart hread, hview⟩

/-- Every session in which no call is in progress has a coherent cache, whichever of the
calls are made and in whatever order they take their steps. -/
def StaysCoherent (c : Cache) (calls : Set CacheCall) : Prop :=
  ∀ s, CacheSession.Reaches calls { cache := c } s → s.Idle → s.cache.Coherent

namespace StaysCoherent

/-- A call that is about to remember an entry can be overtaken by any other. -/
theorem keeps_overtaken (h : c.StaysCoherent calls) {before : Cache}
    {first second : CacheCall} {answer : CacheAnswer}
    (hfirst : CacheSession.Reaches calls { cache := c }
      ⟨before, [(first, .remember key entry answer)]⟩) (hsecond : second ∈ calls) :
    (before.perform second.request).2.Keeps key entry := by
  -- The second call takes all its steps before the first one takes its last.
  have hpassed := hfirst.trans (CacheSession.reaches_alone _ hsecond)
  have hdone := hpassed.trans (CacheSession.reaches_step 0 rfl rfl)
  refine h _ hdone ?_ key entry remembered?_remember_self
  intro call hcall
  rcases List.mem_pair.1 hcall with rfl | rfl <;> rfl

theorem exists_read (h : c.StaysCoherent calls) (hopen : c.isOpen = true) {call : CacheCall}
    (hcall : call ∈ calls) (hstart : call.start = .store key content entry) :
    ∃ read, CacheEntry.ofContent content = .ok read ∧ read.view = entry.view := by
  have hcoherent := h _ (CacheSession.reaches_alone _ hcall)
    (by simp [CacheSession.Idle, CallStage.isAnswered])
  exact exists_read_of_coherent hopen hstart hcoherent

/-- A call that is about to remember an entry can wait while any other call runs, so none of them
may touch the entry. -/
theorem spares (h : c.StaysCoherent calls) (hopen : c.isOpen = true) {before : Cache}
    {first : CacheCall} {answer : CacheAnswer}
    (hfirst : CacheSession.Reaches calls { cache := c }
      ⟨before, [(first, .remember key entry answer)]⟩) (hbefore : before.isOpen = true) :
    Spares calls key entry := by
  constructor
  · intro hclear
    obtain ⟨read, hread, -⟩ := h.keeps_overtaken hfirst hclear
    have hnone : (before.perform CacheCall.clear.request).2.fetch key = .ok none := by
      rw [CacheCall.request, perform, clear_of_open hbefore]
      exact fetch_of_database_eq_nil hbefore rfl
    cases hnone.symm.trans hread
  · intro call hcall content other hstart
    obtain ⟨read, hread, hview⟩ := h.keeps_overtaken hfirst hcall
    obtain ⟨stored, hstored, hsame⟩ := h.exists_read hopen hcall hstart
    rw [ofContent_of_fetch_perform hbefore hstart hread] at hstored
    cases hstored
    rw [← hsame, hview]

/-- Calls that keep the cache coherent in every order are harmless. -/
theorem harmless (h : c.StaysCoherent calls) (hopen : c.isOpen = true) : Harmless c calls where
  written call hcall key content entry hstart := by
    refine ⟨h.exists_read hopen hcall hstart, ?_⟩
    have hmade : CacheSession.Reaches calls { cache := c }
        ⟨c, [(call, .store key content entry)]⟩ := hstart ▸ CacheSession.reaches_start hcall
    have hstored := hmade.trans (CacheSession.reaches_step 0 rfl rfl)
    simp only [CallStage.next, store, if_pos hopen] at hstored
    exact h.spares hopen hstored hopen
  found call hcall key entry hstart hmemory hfetch := by
    have hmade : CacheSession.Reaches calls { cache := c } ⟨c, [(call, .look key)]⟩ :=
      hstart ▸ CacheSession.reaches_start hcall
    have hlooked := hmade.trans (CacheSession.reaches_step 0 rfl rfl)
    simp only [CallStage.next, hmemory] at hlooked
    have hfetched := hlooked.trans (CacheSession.reaches_step 0 rfl rfl)
    simp only [CallStage.next, hfetch] at hfetched
    exact h.spares hopen hfetched hopen

end StaysCoherent

end Cache

/-! ## Harmless calls keep coherence -/

/-- What a call in progress counts on while the other calls take their steps. -/
def CallStage.Sound (calls : Set CacheCall) (c : Cache) : CallStage → Prop
  | .look key => ∃ call ∈ calls, call.start = .look key
  | .fetch key => ∀ entry, c.fetch key = .ok (some entry) → Spares calls key entry
  | .store key content entry => ∃ call ∈ calls, call.start = .store key content entry
  | .remember key entry _ => c.Keeps key entry ∧ Spares calls key entry
  | .wipe => .clear ∈ calls
  | .forget => .clear ∈ calls ∧ c.database = []
  | .answered _ => True

/-- The next step settles what the memory holds under a key. -/
def CallStage.Settles (key : String) : CallStage → Prop
  | .remember name _ _ => name = key
  | .forget => True
  | _ => False

/-- How the session stands while harmless calls are in progress. -/
structure CacheSession.Sound (calls : Set CacheCall) (s : CacheSession) : Prop where
  isOpen : s.cache.isOpen = true
  harmless : Harmless s.cache calls
  made : ∀ call ∈ s.calls, call.1 ∈ calls
  stages : ∀ call ∈ s.calls, call.2.Sound calls s.cache
  memory : ∀ key entry, s.cache.remembered? key = some entry →
    s.cache.Keeps key entry ∨ ∃ call ∈ s.calls, call.2.Settles key

namespace Cache

variable {c : Cache} {calls : Set CacheCall} {call : CacheCall} {key content : String}
  {entry : CacheEntry} {stage : CallStage}

/-- A change of the cache that calls in progress do not mind. -/
structure Allows (c : Cache) (calls : Set CacheCall) (after : Cache) : Prop where
  isOpen : after.isOpen = true
  harmless : Harmless after calls
  stages : ∀ stage : CallStage, stage.Sound calls c → stage.Sound calls after

theorem allows_self (hopen : c.isOpen = true) (h : Harmless c calls) : c.Allows calls c :=
  ⟨hopen, h, fun _ hstage => hstage⟩

/-- A write of a harmless put is minded by no call in progress. -/
theorem allows_write (hopen : c.isOpen = true) (h : Harmless c calls) (hcall : call ∈ calls)
    (hstart : call.start = .store key content entry) :
    c.Allows calls (c.write key content) := by
  obtain ⟨⟨read, hread, hview⟩, hspares⟩ := h.written call hcall key content entry hstart
  have hself : (c.write key content).fetch key = .ok (some read) :=
    (fetch_write_self_eq_ok_iff hopen).2 hread
  have hfound (other : CacheEntry) (hother : (c.write key content).fetch key = .ok (some other)) :
      Spares calls key other := by
    cases hself.symm.trans hother
    exact hspares.of_view_eq hview.symm
  refine ⟨hopen, ⟨h.written, ?_⟩, ?_⟩
  · intro get hget name other hlook hmemory hfetch
    by_cases hname : name = key
    · subst hname
      exact hfound other hfetch
    · rw [fetch_write_of_ne hname] at hfetch
      exact h.found get hget name other hlook hmemory hfetch
  · intro stage hstage
    cases stage with
    | look name => exact hstage
    | fetch name =>
        intro other hfetch
        by_cases hname : name = key
        · subst hname
          exact hfound other hfetch
        · rw [fetch_write_of_ne hname] at hfetch
          exact hstage other hfetch
    | store name text other => exact hstage
    | remember name other answer =>
        obtain ⟨⟨kept, hkept, hsame⟩, hother⟩ := hstage
        refine ⟨?_, hother⟩
        by_cases hname : name = key
        · subst hname
          -- The entry in hand is spared by this write too, so both look the same.
          exact ⟨read, hself, hview.trans (hother.2 call hcall content entry hstart)⟩
        · exact ⟨kept, (fetch_write_of_ne hname).trans hkept, hsame⟩
    | wipe => exact hstage
    | forget => exact absurd hstage.1 hspares.1
    | answered answer => trivial

/-- What is remembered changes no database, so no call in progress minds it. -/
theorem allows_remember (hopen : c.isOpen = true) (h : Harmless c calls) :
    c.Allows calls (c.remember key entry) := by
  refine ⟨hopen, ⟨h.written, ?_⟩, ?_⟩
  · intro get hget name other hlook hmemory hfetch
    have hname : name ≠ key := by
      rintro rfl
      cases hmemory.symm.trans remembered?_remember_self
    rw [remembered?_remember_of_ne hname] at hmemory
    exact h.found get hget name other hlook hmemory hfetch
  · intro stage hstage
    cases stage <;> exact hstage

/-- Where a clearing is harmless no entry is in any hand, so emptying the database is minded by
no call. -/
theorem allows_wipe (hopen : c.isOpen = true) (h : Harmless c calls) (hclear : .clear ∈ calls) :
    c.Allows calls { c with database := [] } := by
  have hnone (name : String) : { c with database := [] }.fetch name = .ok none :=
    fetch_of_database_eq_nil hopen rfl
  refine ⟨hopen, ⟨h.written, ?_⟩, ?_⟩
  · intro get hget name other hlook hmemory hfetch
    cases (hnone name).symm.trans hfetch
  · intro stage hstage
    cases stage with
    | look name => exact hstage
    | fetch name =>
        intro other hfetch
        cases (hnone name).symm.trans hfetch
    | store name text other => exact hstage
    | remember name other answer => exact absurd hclear hstage.2.1
    | wipe => exact hstage
    | forget => exact ⟨hclear, rfl⟩
    | answered answer => trivial

theorem allows_forget (hopen : c.isOpen = true) (h : Harmless c calls) (hempty : c.database = []) :
    c.Allows calls c.forget := by
  refine ⟨hopen, ⟨h.written, ?_⟩, ?_⟩
  · intro get hget name other hlook hmemory hfetch
    cases (fetch_of_database_eq_nil hopen hempty).symm.trans hfetch
  · intro stage hstage
    cases stage <;> exact hstage

end Cache

/-- A call that was just made counts on nothing but what is harmless about it. -/
theorem CacheCall.sound_start {call : CacheCall} {calls : Set CacheCall} {c : Cache}
    (hcall : call ∈ calls) : call.start.Sound calls c := by
  cases call with
  | get fingerprint =>
      by_cases hfingerprint : fingerprint = ""
      · simp [start, hfingerprint, CallStage.Sound]
      · have hstart := start_eq_look_iff.2 ⟨fingerprint, rfl, hfingerprint, rfl⟩
        rw [hstart]
        exact ⟨_, hcall, hstart⟩
  | put fingerprint entry =>
      by_cases hfingerprint : fingerprint = ""
      · simp [start, hfingerprint, CallStage.Sound]
      · cases hcontent : entry.content? with
        | none => simp [start, hfingerprint, hcontent, CallStage.Sound]
        | some content =>
            have hstart := start_eq_store_iff.2 ⟨fingerprint, rfl, hfingerprint, rfl, hcontent⟩
            rw [hstart]
            exact ⟨_, hcall, hstart⟩
  | clear => exact hcall

namespace CacheSession

variable {s next : CacheSession} {calls : Set CacheCall} {index : Nat} {call : CacheCall}
  {stage new : CallStage} {key : String}

/-- A call that settles a key is in progress until its own next step. -/
theorem exists_settles_set (hcall : s.calls[index]? = some (call, stage))
    (hstage : ¬ stage.Settles key) (h : ∃ other ∈ s.calls, other.2.Settles key) :
    ∃ other ∈ s.calls.set index (call, new), other.2.Settles key := by
  obtain ⟨other, hother, hsettles⟩ := h
  refine ⟨other, mem_set_of_ne hcall hother ?_, hsettles⟩
  rintro rfl
  exact hstage hsettles

namespace Sound

theorem start (h : s.Sound calls) (hcall : call ∈ calls) :
    Sound calls { s with calls := s.calls ++ [(call, call.start)] } where
  isOpen := h.isOpen
  harmless := h.harmless
  made := List.forall_mem_append.2 ⟨h.made, List.forall_mem_singleton.2 hcall⟩
  stages := List.forall_mem_append.2
    ⟨h.stages, List.forall_mem_singleton.2 (CacheCall.sound_start hcall)⟩
  memory key entry hmemory :=
    (h.memory key entry hmemory).imp_right fun ⟨other, hother, hsettles⟩ =>
      ⟨other, List.mem_append_left _ hother, hsettles⟩

/-- A step is sound if the other calls do not mind it. -/
theorem advance (h : s.Sound calls) (hcall : s.calls[index]? = some (call, stage))
    {after : Cache} (hallows : s.cache.Allows calls after) (hnew : new.Sound calls after)
    (hmemory : ∀ key entry, after.remembered? key = some entry →
      after.Keeps key entry ∨ ∃ other ∈ s.calls.set index (call, new), other.2.Settles key) :
    Sound calls ⟨after, s.calls.set index (call, new)⟩ where
  isOpen := hallows.isOpen
  harmless := hallows.harmless
  made := forall_mem_set h.made (h.made (call, stage) (List.mem_of_getElem? hcall))
  stages := forall_mem_set (fun other hother => hallows.stages other.2 (h.stages other hother)) hnew
  memory := hmemory

/-- A step of a call that leaves the cache as it is and settles no key. -/
theorem advance_of_not_settles (h : s.Sound calls)
    (hcall : s.calls[index]? = some (call, stage)) (hstage : ∀ key, ¬ stage.Settles key)
    (hnew : new.Sound calls s.cache) : Sound calls ⟨s.cache, s.calls.set index (call, new)⟩ :=
  h.advance hcall (Cache.allows_self h.isOpen h.harmless) hnew fun key entry hmemory =>
    (h.memory key entry hmemory).imp_right (exists_settles_set hcall (hstage key))

/-- Each step of harmless calls keeps the session sound. -/
theorem step (h : s.Sound calls) (hcall : s.calls[index]? = some (call, stage))
    (hstage : stage.isAnswered = false) :
    Sound calls ⟨(stage.next s.cache).2, s.calls.set index (call, (stage.next s.cache).1)⟩ := by
  have hsound := h.stages _ (List.mem_of_getElem? hcall)
  have hstep := stage.step_next h.isOpen hstage
  generalize (stage.next s.cache).1 = new, (stage.next s.cache).2 = after at hstep ⊢
  cases hstep with
  | hit hmemory => exact h.advance_of_not_settles hcall (fun _ => id) trivial
  | look hmemory =>
      obtain ⟨get, hget, hstart⟩ := hsound
      exact h.advance_of_not_settles hcall (fun _ => id) fun entry =>
        h.harmless.found get hget _ entry hstart hmemory
  | failed hfetch => exact h.advance_of_not_settles hcall (fun _ => id) trivial
  | missing hfetch => exact h.advance_of_not_settles hcall (fun _ => id) trivial
  | found hfetch =>
      exact h.advance_of_not_settles hcall (fun _ => id) ⟨⟨_, hfetch, rfl⟩, hsound _ hfetch⟩
  | @store key content entry =>
      obtain ⟨put, hput, hstart⟩ := hsound
      obtain ⟨⟨read, hread, hview⟩, hspares⟩ := h.harmless.written put hput _ _ _ hstart
      refine h.advance hcall (Cache.allows_write h.isOpen h.harmless hput hstart) ?_ ?_
      · exact ⟨⟨read, (Cache.fetch_write_self_eq_ok_iff h.isOpen).2 hread, hview⟩, hspares⟩
      · intro name other hmemory
        by_cases hname : name = key
        -- What the memory holds under this key may be behind until the call remembers.
        · exact .inr ⟨_, List.mem_set (List.getElem?_eq_some_iff.1 hcall).1 _, hname.symm⟩
        · refine (h.memory name other hmemory).imp ?_ (exists_settles_set hcall id)
          exact fun ⟨kept, hkept, hsame⟩ =>
            ⟨kept, (Cache.fetch_write_of_ne hname).trans hkept, hsame⟩
  | @remember key entry answer =>
      refine h.advance hcall (Cache.allows_remember h.isOpen h.harmless) trivial ?_
      intro name other hmemory
      rcases Cache.remembered?_remember_cases hmemory with ⟨rfl, rfl⟩ | ⟨hname, hmemory⟩
      · exact .inl hsound.1
      · exact (h.memory name other hmemory).imp id
          (exists_settles_set hcall fun heq => hname heq.symm)
  | wipe =>
      refine h.advance hcall (Cache.allows_wipe h.isOpen h.harmless hsound) ⟨hsound, rfl⟩ ?_
      intro name other _
      exact .inr ⟨_, List.mem_set (List.getElem?_eq_some_iff.1 hcall).1 _, trivial⟩
  | forget =>
      refine h.advance hcall (Cache.allows_forget h.isOpen h.harmless hsound.2) trivial ?_
      intro name other hmemory
      cases hmemory

end Sound

theorem Reaches.sound (h : s.Reaches calls next) (hs : s.Sound calls) :
    next.Sound calls :=
  h.invariant (fun _ _ hsound => hsound.start) (fun _ _ _ _ hsound => hsound.step) hs

/-- A sound session in which no call is in progress has a coherent cache. -/
theorem Sound.coherent (h : s.Sound calls) (hidle : s.Idle) : s.cache.Coherent := by
  intro key entry hmemory
  refine (h.memory key entry hmemory).resolve_right ?_
  rintro ⟨⟨call, stage⟩, hcall, hsettles⟩
  have hanswered := hidle _ hcall
  cases stage with
  | remember => cases hanswered
  | forget => cases hanswered
  | _ => exact hsettles

/-! ## Harmless calls and clearings -/

theorem Sound.start_ne_store (h : s.Sound calls) (hclear : .clear ∈ calls) (hcall : call ∈ calls)
    (key content : String) (entry : CacheEntry) : call.start ≠ .store key content entry :=
  fun hstart => (h.harmless.written call hcall key content entry hstart).2.1 hclear

/-- Beside a harmless clearing no call ever has an entry in hand. -/
theorem Sound.not_hasEntry (h : s.Sound calls) (hclear : .clear ∈ calls)
    (hcall : (call, stage) ∈ s.calls) : ¬ stage.HasEntry := by
  intro hentry
  have hstage := h.stages (call, stage) hcall
  cases stage with
  | store key content entry =>
      obtain ⟨put, hput, hstart⟩ := hstage
      exact h.start_ne_store hclear hput key content entry hstart
  | remember key entry answer => exact hstage.2.1 hclear
  | _ => exact hentry

/-- Once a clearing is done, both layers are empty. -/
def Emptied (s : CacheSession) : Prop :=
  (.clear, .answered .done) ∈ s.calls → s.cache.database = [] ∧ s.cache.memory = []

theorem Emptied.start (h : s.Emptied) :
    Emptied { s with calls := s.calls ++ [(call, call.start)] } := by
  intro hdone
  rcases List.mem_append.1 hdone with hdone | hdone
  · exact h hdone
  · cases call <;> simp [CacheCall.start] at hdone

/-- A step keeps what clearings have emptied empty, since no call has an entry to fill it with. -/
theorem Emptied.step (h : s.Emptied) (hs : s.Sound calls)
    (hcall : s.calls[index]? = some (call, stage)) (hstage : stage.isAnswered = false) :
    Emptied ⟨(stage.next s.cache).2, s.calls.set index (call, (stage.next s.cache).1)⟩ := by
  intro hdone
  have hmem : (call, stage) ∈ s.calls := List.mem_of_getElem? hcall
  -- Among harmless calls a clearing leaves no room for puts, so no call has an entry in hand.
  have hempty := hs.not_hasEntry ((hs.step hcall hstage).made _ hdone) hmem
  have hsound := hs.stages _ hmem
  have hstep := stage.step_next hs.isOpen hstage
  generalize (stage.next s.cache).1 = new, (stage.next s.cache).2 = after at hstep hdone ⊢
  rcases List.mem_or_eq_of_mem_set hdone with hbefore | heq
  · obtain ⟨hdatabase, hmemory⟩ := h hbefore
    cases hstep with
    | store => exact absurd trivial hempty
    | remember => exact absurd trivial hempty
    | wipe => exact ⟨rfl, hmemory⟩
    | forget => exact ⟨hdatabase, rfl⟩
    | _ => exact ⟨hdatabase, hmemory⟩
  · cases hstep with
    | remember => exact absurd trivial hempty
    | forget => exact ⟨hsound.2, rfl⟩
    | _ => cases heq

/-- Whatever calls run on, what clearings have emptied stays empty. -/
theorem Reaches.emptied (h : s.Reaches calls next) (hs : s.Sound calls) (hempty : s.Emptied) :
    next.Emptied := by
  refine (h.invariant (q := fun s => s.Sound calls ∧ s.Emptied) ?_ ?_ ⟨hs, hempty⟩).2
  · exact fun s call hs hcall => ⟨hs.1.start hcall, hs.2.start⟩
  · exact fun s index call stage hs hcall hstage =>
      ⟨hs.1.step hcall hstage, hs.2.step hs.1 hcall hstage⟩

theorem sound_of_coherent {c : Cache} (hopen : c.isOpen = true) (hcoherent : c.Coherent)
    (h : Harmless c calls) : Sound calls { cache := c } where
  isOpen := hopen
  harmless := h
  made := by simp
  stages := by simp
  memory key entry hmemory := .inl (hcoherent key entry hmemory)

/-- Beside a harmless clearing that is done, the cache is cleared. -/
theorem Sound.cleared (h : s.Sound calls) (hempty : s.Emptied)
    (hdone : (.clear, .answered .done) ∈ s.calls) : s.Cleared s.calls.length where
  isOpen := h.isOpen
  database := (hempty hdone).1
  memory := (hempty hdone).2
  stages _ hcall := h.not_hasEntry (h.made _ hdone) hcall
  gets place hplace fingerprint stage _ hget := by
    rw [List.getElem?_eq_none hplace] at hget
    cases hget

end CacheSession

/-- Under calls at the same time the layers of an open cache stay coherent exactly if none of
the calls disturbs another, and then every get misses that is made after a clearing is done.
Whatever calls were made, a get also misses after a clearing during which no other call was in
progress, if no put is made in between. -/
theorem Cache.staysCoherent_iff_harmless {c : Cache} {calls : Set CacheCall}
    (hopen : c.isOpen = true) (hcoherent : c.Coherent) :
    (c.StaysCoherent calls ↔ Harmless c calls) ∧
      (Harmless c calls → ∀ s later, CacheSession.Reaches calls { cache := c } s →
        (.clear, .answered .done) ∈ s.calls → s.Reaches calls later →
        later.MissesSince s.calls.length) ∧
      ∀ s later, CacheSession.Reaches Set.univ { cache := c } s → s.Idle →
        CacheSession.Reaches {call | ∀ fingerprint entry, call ≠ .put fingerprint entry}
          ⟨s.cache.clear.2, s.calls ++ [(.clear, .answered .done)]⟩ later →
        later.MissesSince (s.calls.length + 1) := by
  refine ⟨⟨fun h => h.harmless hopen, ?_⟩, ?_, ?_⟩
  · intro h s hreaches hidle
    exact (hreaches.sound (CacheSession.sound_of_coherent hopen hcoherent h)).coherent hidle
  · intro h s later hreaches hdone hlater
    have hinit := CacheSession.sound_of_coherent hopen hcoherent h
    have hs := hreaches.sound hinit
    have hcleared := hs.cleared (hreaches.emptied hinit (by simp [CacheSession.Emptied])) hdone
    exact (hlater.cleared (fun _ => hs.start_ne_store (hs.made _ hdone)) hcleared).missesSince
  · intro s later hreaches hidle hlater
    refine (hlater.cleared ?_ (hidle.cleared (hreaches.isOpen hopen))).missesSince
    intro call hcall key content entry hstart
    obtain ⟨fingerprint, hput, -⟩ := CacheCall.start_eq_store_iff.1 hstart
    exact hcall fingerprint entry hput

/-- An entry whose document is in compact form. -/
def CacheEntry.plain : CacheEntry where
  document := "\x7b\"a\":1\x7d"

/-- The same entry with a space in its document. -/
def CacheEntry.spaced : CacheEntry where
  document := "\x7b\"a\": 1\x7d"

/-- What is written of either. -/
def CacheEntry.plainContent : String :=
  "\x7b\"document\":\x7b\"a\":1\x7d,\"frameSizes\":null,\"compiledAt\":\"0001-01-01T00:00:00Z\"\x7d"

theorem CacheEntry.ofContent_plainContent : ofContent plainContent = .ok plain := by
  decide +kernel

/-- A cache that was opened on a database with one entry. -/
def Cache.ofPlain : Cache := .ofDatabase [(keyOf "f", .content CacheEntry.plainContent)]

theorem Cache.fetch_ofPlain : ofPlain.fetch (keyOf "f") = .ok (some CacheEntry.plain) := by
  simp [fetch, ofPlain, ofDatabase, Database.get?, CacheEntry.ofContent_plainContent]

theorem Cache.coherent_ofPlain : ofPlain.Coherent := by
  intro key entry hmemory
  cases hmemory

/-- Gets and puts of one entry do not disturb each other. -/
theorem Cache.staysCoherent_ofPlain :
    Cache.ofPlain.isOpen = true ∧ Cache.ofPlain.Coherent ∧
      Cache.ofPlain.StaysCoherent {.get "f", .put "f" CacheEntry.plain} := by
  have hstart : (CacheCall.get "f").start = .look (keyOf "f") :=
    CacheCall.start_eq_look_iff.2 ⟨"f", rfl, by simp, rfl⟩
  have hspares : Spares {.get "f", .put "f" CacheEntry.plain} (keyOf "f") CacheEntry.plain := by
    refine ⟨by simp, ?_⟩
    rintro call (rfl | rfl) content entry hstore
    · cases hstart.symm.trans hstore
    · obtain ⟨fingerprint, hput, -⟩ := CacheCall.start_eq_store_iff.1 hstore
      cases hput
      rfl
  refine ⟨rfl, coherent_ofPlain, (Cache.staysCoherent_iff_harmless rfl coherent_ofPlain).1.2 ?_⟩
  constructor
  · rintro call (rfl | rfl) key content entry hstore
    · cases hstart.symm.trans hstore
    · obtain ⟨fingerprint, hput, -, rfl, hcontent⟩ := CacheCall.start_eq_store_iff.1 hstore
      cases hput
      have hplain : CacheEntry.plain.content? = some CacheEntry.plainContent := by decide +kernel
      cases hplain.symm.trans hcontent
      exact ⟨⟨_, CacheEntry.ofContent_plainContent, rfl⟩, hspares⟩
  · rintro call (rfl | rfl) key entry hlook - hfetch
    · cases hstart.symm.trans hlook
      cases fetch_ofPlain.symm.trans hfetch
      exact hspares
    · obtain ⟨fingerprint, hget, -⟩ := CacheCall.start_eq_look_iff.1 hlook
      cases hget

/-- A get reads an entry from the database, the cache is cleared, and only then the get
remembers the entry. -/
theorem CacheSession.run?_overtakenGet {c : Cache} {entry : CacheEntry}
    (hopen : c.isOpen = true) (hmemory : c.memory = [])
    (hfetch : c.fetch (Cache.keyOf "f") = .ok (some entry)) :
    run? { cache := c }
        [.start (.get "f"), .step 0, .step 0, .start .clear, .step 1, .step 1, .step 0,
          .start (.get "f"), .step 2] =
      some ⟨Cache.remember {} (Cache.keyOf "f") entry,
        [(.get "f", .answered (.found entry.view)), (.clear, .answered .done),
          (.get "f", .answered (.found entry.view))]⟩ := by
  have hnone (key : String) : c.remembered? key = none := by
    simp [Cache.remembered?, hmemory]
  simp [run?, step?, CacheCall.start, CallStage.next, CallStage.isAnswered, hfetch, hnone,
    Cache.wipe, Cache.forget, hopen, hmemory, Cache.remembered?_remember_self]

/-- After a get that was overtaken by a clearing, the memory holds what the database has lost,
and a get finds it. Even with no other call in progress, the memory holds a document as it was
put and the database holds its compact form. -/
theorem Cache.not_coherent_overtakenGet :
    (∃ s, CacheSession.run? { cache := Cache.ofPlain }
        [.start (.get "f"), .step 0, .step 0, .start .clear, .step 1, .step 1, .step 0,
          .start (.get "f"), .step 2] = some s ∧ s.Idle ∧ ¬ s.cache.Coherent ∧
      s.calls[1]? = some (.clear, .answered .done) ∧
      s.calls[2]? = some (.get "f", .answered (.found CacheEntry.plain.view))) ∧
      ¬ (Cache.perform {} (.put "f" CacheEntry.spaced)).2.Coherent := by
  constructor
  · refine ⟨_, CacheSession.run?_overtakenGet rfl rfl fetch_ofPlain, ?_, ?_, rfl, rfl⟩
    · simp [CacheSession.Idle, CallStage.isAnswered]
    · intro h
      obtain ⟨read, hread, -⟩ := h _ _ remembered?_remember_self
      cases (fetch_of_database_eq_nil rfl rfl).symm.trans hread
  · intro h
    have hspaced : CacheEntry.spaced.content? = some CacheEntry.plainContent := by decide +kernel
    have hstart : (CacheCall.put "f" CacheEntry.spaced).start = .store (keyOf "f") _ _ :=
      CacheCall.start_eq_store_iff.2 ⟨"f", rfl, by simp, rfl, hspaced⟩
    obtain ⟨read, hread, hview⟩ := exists_read_of_coherent rfl hstart h
    cases CacheEntry.ofContent_plainContent.symm.trans hread
    exact absurd hview (by decide)

end StoredProc
