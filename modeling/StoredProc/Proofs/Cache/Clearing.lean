import StoredProc.Proofs.Cache.Calls

/-! # After a clearing

When a cache was cleared and no call has an entry in hand, the layers stay empty until an
entry is written. Gets that are made meanwhile miss.
-/

namespace StoredProc

theorem Cache.fetch_of_database_eq_nil {c : Cache} {key : String} (hopen : c.isOpen = true)
    (h : c.database = []) : c.fetch key = .ok none := by
  simp [fetch, hopen, h, Database.get?]

namespace CacheSession

/-- Gets that were made after so many calls have found nothing. -/
def MissesSince (count : Nat) (s : CacheSession) : Prop :=
  ∀ index ≥ count, ∀ fingerprint answer, fingerprint ≠ "" →
    s.calls[index]? = some (.get fingerprint, .answered answer) → answer = .missing

end CacheSession

namespace CallStage

/-- The call has an entry in hand. -/
def HasEntry : CallStage → Prop
  | .store .. => True
  | .remember .. => True
  | _ => False

/-- The call has found nothing yet. -/
def Misses : CallStage → Prop
  | .look _ => True
  | .fetch _ => True
  | .answered answer => answer = .missing
  | _ => False

end CallStage

/-- A call that does not start with a write starts with no entry in hand. -/
theorem CacheCall.not_hasEntry_start {call : CacheCall}
    (h : ∀ key content entry, call.start ≠ .store key content entry) :
    ¬ call.start.HasEntry := by
  intro hentry
  cases call with
  | get fingerprint =>
      dsimp only [start] at hentry
      split at hentry <;> exact hentry
  | put fingerprint entry =>
      dsimp only [start] at hentry
      split at hentry
      next => exact hentry
      next hfingerprint =>
        split at hentry
        next => exact hentry
        next content hcontent =>
          exact h _ content entry
            (start_eq_store_iff.2 ⟨fingerprint, rfl, by simpa using hfingerprint, rfl, hcontent⟩)
  | clear => exact hentry

namespace CacheSession

variable {s next : CacheSession} {calls : Set CacheCall} {index count : Nat} {call : CacheCall}
  {stage new : CallStage}

/-- Both layers are empty, no call has an entry in hand to fill them with, and gets made after
so many calls have found nothing. -/
structure Cleared (count : Nat) (s : CacheSession) : Prop where
  isOpen : s.cache.isOpen = true
  database : s.cache.database = []
  memory : s.cache.memory = []
  stages : ∀ call ∈ s.calls, ¬ call.2.HasEntry
  gets : ∀ index ≥ count, ∀ fingerprint stage, fingerprint ≠ "" →
    s.calls[index]? = some (.get fingerprint, stage) → stage.Misses

namespace Cleared

theorem missesSince (h : s.Cleared count) : s.MissesSince count :=
  fun index hindex fingerprint _ hfingerprint hcall =>
    h.gets index hindex fingerprint _ hfingerprint hcall

/-- A call that writes nothing may be made to a cleared cache. -/
theorem start (h : s.Cleared count)
    (hcall : ∀ key content entry, call.start ≠ .store key content entry) :
    Cleared count { s with calls := s.calls ++ [(call, call.start)] } where
  isOpen := h.isOpen
  database := h.database
  memory := h.memory
  stages := List.forall_mem_append.2
    ⟨h.stages, List.forall_mem_singleton.2 (CacheCall.not_hasEntry_start hcall)⟩
  gets := by
    intro place hplace fingerprint stage hfingerprint hget
    by_cases hlt : place < s.calls.length
    · rw [List.getElem?_append_left hlt] at hget
      exact h.gets place hplace fingerprint stage hfingerprint hget
    · rw [List.getElem?_append_right (by omega)] at hget
      cases List.mem_singleton.1 (List.mem_of_getElem? hget)
      rw [CacheCall.start_eq_look_iff.2 ⟨fingerprint, rfl, hfingerprint, rfl⟩]
      trivial

/-- A step keeps the cache cleared if it fills neither layer, takes no entry in hand and finds
nothing. -/
theorem advance (h : s.Cleared count) (hcall : s.calls[index]? = some (call, stage))
    {after : Cache} (hopen : after.isOpen = true) (hdatabase : after.database = [])
    (hmemory : after.memory = []) (hentry : ¬ new.HasEntry)
    (hmisses : stage.Misses → new.Misses) :
    Cleared count ⟨after, s.calls.set index (call, new)⟩ where
  isOpen := hopen
  database := hdatabase
  memory := hmemory
  stages := forall_mem_set h.stages hentry
  gets := by
    intro place hplace fingerprint later hfingerprint hget
    by_cases hsame : index = place
    · subst hsame
      rw [List.getElem?_set_self (List.getElem?_eq_some_iff.1 hcall).1] at hget
      cases hget
      exact hmisses (h.gets index hplace fingerprint stage hfingerprint hcall)
    · rw [List.getElem?_set_ne hsame] at hget
      exact h.gets place hplace fingerprint later hfingerprint hget

/-- Every step of a call on a cleared cache keeps it cleared: there is nothing to find. -/
theorem step (h : s.Cleared count) (hcall : s.calls[index]? = some (call, stage))
    (hstage : stage.isAnswered = false) :
    Cleared count ⟨(stage.next s.cache).2, s.calls.set index (call, (stage.next s.cache).1)⟩ := by
  have hnone (key : String) : s.cache.remembered? key = none := by
    rw [Cache.remembered?, h.memory]
    rfl
  have habsent (key : String) : s.cache.fetch key = .ok none :=
    Cache.fetch_of_database_eq_nil h.isOpen h.database
  have hempty : ¬ stage.HasEntry := h.stages (call, stage) (List.mem_of_getElem? hcall)
  have hstep := stage.step_next h.isOpen hstage
  generalize (stage.next s.cache).1 = new, (stage.next s.cache).2 = after at hstep ⊢
  -- Only lookups that fail and clearings are left.
  cases hstep with
  | hit hmemory => cases (hnone _).symm.trans hmemory
  | look hmemory => exact h.advance hcall h.isOpen h.database h.memory id id
  | failed hfetch => cases (habsent _).symm.trans hfetch
  | missing hfetch => exact h.advance hcall h.isOpen h.database h.memory id fun _ => rfl
  | found hfetch => cases (habsent _).symm.trans hfetch
  | store => exact absurd trivial hempty
  | remember => exact absurd trivial hempty
  | wipe => exact h.advance hcall h.isOpen rfl h.memory id id
  | forget => exact h.advance hcall h.isOpen h.database rfl id False.elim

end Cleared

theorem Reaches.cleared (h : s.Reaches calls next)
    (hcalls : ∀ call ∈ calls, ∀ key content entry, call.start ≠ .store key content entry)
    (hs : s.Cleared count) : next.Cleared count :=
  h.invariant (fun _ call hcleared hcall => hcleared.start (hcalls call hcall))
    (fun _ _ _ _ hcleared => hcleared.step) hs

/-- A clearing that is done while no call is in progress leaves the cache cleared. -/
theorem Idle.cleared (h : s.Idle) (hopen : s.cache.isOpen = true) :
    Cleared (s.calls.length + 1)
      ⟨s.cache.clear.2, s.calls ++ [(.clear, .answered .done)]⟩ := by
  rw [Cache.clear_of_open hopen]
  refine ⟨hopen, rfl, rfl, ?_, ?_⟩
  · rintro ⟨call, stage⟩ hcall hentry
    have hanswered : stage.isAnswered = true := by
      rcases List.mem_append.1 hcall with hcall | hcall
      · exact h _ hcall
      · cases List.mem_singleton.1 hcall
        rfl
    cases stage with
    | answered => exact hentry
    | _ => cases hanswered
  · intro place hplace fingerprint stage _ hget
    rw [List.getElem?_eq_none (by simpa using hplace)] at hget
    cases hget

end CacheSession

end StoredProc
