import Mathlib.Data.Set.Card
import StoredProc.Cache.Basic
import StoredProc.Proofs.Cache.Entries

/-! # The layers of the cache

Callers of a cache cannot tell its two layers from a plain map of fingerprints: whatever
they ask, in whatever order, a cache answers as the map does. The memory holds entries as
they were given and the database holds them as they were written, so the two are linked by
what a caller sees of an entry.
-/

namespace StoredProc

open Table (Distinct)

/-! ## Requests and answers -/

/-- What a cache is asked to do. Opened again, a cache has lost its memory. -/
inductive CacheRequest where
  | reopen
  | close
  | get (fingerprint : String)
  | put (fingerprint : String) (entry : CacheEntry)
  | size
  | clear

/-- What a caller of a cache sees. -/
inductive CacheAnswer where
  | done
  | missing
  | found (view : String × Option (List (String × Int)))
  | count (n : Nat)
  | failed (cause : Cache.Error)

namespace CacheAnswer

def ofDone : Except Cache.Error Unit → CacheAnswer
  | .ok () => .done
  | .error cause => .failed cause

def ofFound : Except Cache.Error (Option CacheEntry) → CacheAnswer
  | .ok (some entry) => .found entry.view
  | .ok none => .missing
  | .error cause => .failed cause

def ofCount : Except Cache.Error Nat → CacheAnswer
  | .ok n => .count n
  | .error cause => .failed cause

end CacheAnswer

/-- The answer of a cache, and the cache after it. -/
def Cache.perform (c : Cache) : CacheRequest → CacheAnswer × Cache
  | .reopen => (.done, ofDatabase c.database)
  | .close => (.done, c.close)
  | .get fingerprint => (.ofFound (c.get fingerprint).1, (c.get fingerprint).2)
  | .put fingerprint entry => (.ofDone (c.put fingerprint entry).1, (c.put fingerprint entry).2)
  | .size => (.ofCount c.size, c)
  | .clear => (.ofDone c.clear.1, c.clear.2)

/-- A plain map of fingerprints to what is seen of their entries. -/
structure Shelf where
  entries : String → Option (String × Option (List (String × Int))) := fun _ => none
  isOpen : Bool := true

namespace Shelf

/-- Set what is seen under a fingerprint. -/
def put (s : Shelf) (fingerprint : String) (view : String × Option (List (String × Int))) : Shelf :=
  { s with entries := Function.update s.entries fingerprint (some view) }

/-- The fingerprints on a shelf. -/
def fingerprints (s : Shelf) : Set String := {fingerprint | (s.entries fingerprint).isSome}

/-- The answer of a map, and the map after it. -/
noncomputable def perform (s : Shelf) : CacheRequest → CacheAnswer × Shelf
  | .reopen => (.done, { s with isOpen := true })
  | .close => (.done, { s with isOpen := false })
  | .get fingerprint =>
    if fingerprint = "" then (.failed .invalidKey, s)
    else if s.isOpen then
      (match s.entries fingerprint with
        | some view => .found view
        | none => .missing, s)
    else (.failed .closed, s)
  | .put fingerprint entry =>
    if fingerprint = "" then (.failed .invalidKey, s)
    else if s.isOpen then (.done, s.put fingerprint entry.view)
    else (.failed .closed, s)
  | .size => if s.isOpen then (.count s.fingerprints.ncard, s) else (.failed .closed, s)
  | .clear =>
    if s.isOpen then (.done, { s with entries := fun _ => none }) else (.failed .closed, s)

variable {s : Shelf} {fingerprint other : String} {view : String × Option (List (String × Int))}

theorem entries_put_self : (s.put fingerprint view).entries fingerprint = some view :=
  Function.update_self ..

theorem entries_put_of_ne (h : other ≠ fingerprint) :
    (s.put fingerprint view).entries other = s.entries other :=
  Function.update_of_ne h ..

theorem mem_fingerprints :
    fingerprint ∈ s.fingerprints ↔ ∃ view, s.entries fingerprint = some view :=
  Option.isSome_iff_exists

theorem mem_fingerprints_put :
    other ∈ (s.put fingerprint view).fingerprints ↔
      other = fingerprint ∨ other ∈ s.fingerprints := by
  by_cases h : other = fingerprint
  · simp [h, mem_fingerprints, entries_put_self]
  · simp [h, mem_fingerprints, entries_put_of_ne]

end Shelf

/-- The answers to requests one after the other. -/
def CacheRequest.answers {σ : Type} (perform : σ → CacheRequest → CacheAnswer × σ) :
    σ → List CacheRequest → List CacheAnswer
  | _, [] => []
  | state, request :: rest =>
    (perform state request).1 :: answers perform (perform state request).2 rest

/-! ## One step -/

namespace Database

variable {d : Database} {key name : String} {value : Packed}

theorem get?_put_self : (d.put key value).get? key = some value := by
  rw [get?, put, List.lookup_append, Table.lookup_filter_self]
  simp

theorem get?_put_of_ne (h : name ≠ key) : (d.put key value).get? name = d.get? name := by
  have hne : (name == key) = false := by simpa using h
  rw [get?, put, List.lookup_append, Table.lookup_filter_of_ne h, List.lookup_cons, hne]
  simp [get?]

theorem mem_keys_put :
    name ∈ (d.put key value).map Prod.fst ↔ name = key ∨ name ∈ d.map Prod.fst := by
  by_cases h : name = key <;> simp [put, h]

theorem distinct_put (h : Distinct d) : Distinct (d.put key value) := by
  refine Table.Distinct.append_singleton ?_ ?_
  · exact List.Nodup.sublist (List.filter_sublist.map _) h
  · simp

end Database

namespace Cache

variable {c : Cache} {fingerprint key : String} {entry : CacheEntry}

theorem remembered?_remember_self : (c.remember key entry).remembered? key = some entry := by
  simp [remember, remembered?]

theorem remembered?_remember_of_ne {name : String} (h : name ≠ key) :
    (c.remember key entry).remembered? name = c.remembered? name := by
  have hne : (name == key) = false := by simpa using h
  rw [remembered?, remember, List.lookup_cons, hne]
  exact Table.lookup_filter_of_ne h

/-- What is remembered is the new entry, or was remembered before. -/
theorem remembered?_remember_cases {name : String} {found : CacheEntry}
    (h : (c.remember key entry).remembered? name = some found) :
    name = key ∧ found = entry ∨ name ≠ key ∧ c.remembered? name = some found := by
  by_cases hname : name = key
  · subst hname
    cases remembered?_remember_self.symm.trans h
    exact .inl ⟨rfl, rfl⟩
  · exact .inr ⟨hname, (remembered?_remember_of_ne hname).symm.trans h⟩

theorem get_of_remembered (hfingerprint : fingerprint ≠ "")
    (h : c.remembered? (keyOf fingerprint) = some entry) :
    c.get fingerprint = (.ok (some entry), c) := by
  rw [get, if_neg (by simpa using hfingerprint)]
  dsimp only
  rw [h]

theorem get_of_closed (hfingerprint : fingerprint ≠ "")
    (h : c.remembered? (keyOf fingerprint) = none) (hopen : c.isOpen = false) :
    c.get fingerprint = (.error .closed, c) := by
  rw [get, if_neg (by simpa using hfingerprint)]
  dsimp only
  rw [h, fetch, hopen]
  rfl

theorem get_of_absent (hfingerprint : fingerprint ≠ "")
    (h : c.remembered? (keyOf fingerprint) = none) (hopen : c.isOpen = true)
    (habsent : c.database.get? (keyOf fingerprint) = none) :
    c.get fingerprint = (.ok none, c) := by
  rw [get, if_neg (by simpa using hfingerprint)]
  dsimp only
  rw [h, fetch, if_pos hopen, habsent]

theorem get_of_stored {content : String} (hfingerprint : fingerprint ≠ "")
    (h : c.remembered? (keyOf fingerprint) = none) (hopen : c.isOpen = true)
    (hstored : c.database.get? (keyOf fingerprint) = some (.content content))
    (hread : CacheEntry.ofContent content = .ok entry) :
    c.get fingerprint = (.ok (some entry), c.remember (keyOf fingerprint) entry) := by
  rw [get, if_neg (by simpa using hfingerprint)]
  dsimp only
  rw [h, fetch, if_pos hopen, hstored]
  dsimp only
  rw [hread]

theorem put_of_closed {content : String} (hfingerprint : fingerprint ≠ "")
    (hcontent : entry.content? = some content) (hopen : c.isOpen = false) :
    c.put fingerprint entry = (.error .closed, c) := by
  rw [put, if_neg (by simpa using hfingerprint), hcontent]
  dsimp only
  rw [store, hopen]
  rfl

theorem put_of_open {content : String} (hfingerprint : fingerprint ≠ "")
    (hcontent : entry.content? = some content) (hopen : c.isOpen = true) :
    c.put fingerprint entry = (.ok (), Cache.remember
      { c with database := c.database.put (keyOf fingerprint) (.content content) }
      (keyOf fingerprint) entry) := by
  rw [put, if_neg (by simpa using hfingerprint), hcontent]
  dsimp only
  rw [store, if_pos hopen]

theorem clear_of_closed (hopen : c.isOpen = false) : c.clear = (.error .closed, c) := by
  rw [clear, wipe, hopen]
  rfl

theorem clear_of_open (hopen : c.isOpen = true) :
    c.clear = (.ok (), { c with database := [], memory := [] }) := by
  rw [clear, wipe, if_pos hopen]
  rfl

/-- An operation that fails leaves the memory and the database as they are. -/
theorem eq_of_failed {request : CacheRequest} {cause : Error}
    (h : (c.perform request).1 = .failed cause) : (c.perform request).2 = c := by
  cases request with
  | reopen | close => cases h
  | size => rfl
  | get fingerprint =>
      dsimp only [perform] at h ⊢
      unfold get at h ⊢
      split
      next => rfl
      next hempty =>
        rw [if_neg hempty] at h
        dsimp only at h ⊢
        split
        next => rfl
        next hremembered =>
          rw [hremembered] at h
          dsimp only at h
          split
          next => rfl
          next => rfl
          next hfetch =>
            rw [hfetch] at h
            cases h
  | put fingerprint entry =>
      dsimp only [perform] at h ⊢
      unfold put at h ⊢
      split
      next => rfl
      next hempty =>
        rw [if_neg hempty] at h
        split
        next => rfl
        next hcontent =>
          rw [hcontent] at h
          dsimp only at h ⊢
          split
          next => rfl
          next hstore =>
            rw [hstore] at h
            cases h
  | clear =>
      dsimp only [perform] at h ⊢
      unfold clear at h ⊢
      split
      next => rfl
      next hwipe =>
        rw [hwipe] at h
        cases h

end Cache

/-- A cache and a map that answer alike: the database holds what is on the shelf, as it was
written, and the memory holds some of it, as it was given. -/
structure Agrees (used : Set String) (c : Cache) (s : Shelf) : Prop where
  isOpen : c.isOpen = s.isOpen
  forgotten : c.isOpen = false → c.memory = []
  distinct : Distinct c.database
  shelved : s.fingerprints ⊆ used
  keys : ∀ key ∈ c.database.map Prod.fst,
    ∃ fingerprint ∈ s.fingerprints, Cache.keyOf fingerprint = key
  stored : ∀ fingerprint view, s.entries fingerprint = some view →
    ∃ content read, c.database.get? (Cache.keyOf fingerprint) = some (.content content) ∧
      CacheEntry.ofContent content = .ok read ∧ read.view = view
  remembered : ∀ fingerprint ∈ used, ∀ entry,
    c.remembered? (Cache.keyOf fingerprint) = some entry →
      s.entries fingerprint = some entry.view

namespace Agrees

variable {used : Set String} {c : Cache} {s : Shelf} {fingerprint : String} {entry : CacheEntry}

theorem empty (used : Set String) : Agrees used (.ofDatabase []) {} where
  isOpen := rfl
  forgotten := by simp [Cache.ofDatabase]
  distinct := List.nodup_nil
  shelved := by simp [Shelf.fingerprints]
  keys := by simp [Cache.ofDatabase]
  stored := by simp
  remembered := by simp [Cache.ofDatabase, Cache.remembered?]

/-- What is not on the shelf is not in the database either. -/
theorem get?_eq_none (h : Agrees used c s) (hkeys : Set.InjOn Cache.keyOf used)
    (hused : fingerprint ∈ used) (habsent : s.entries fingerprint = none) :
    c.database.get? (Cache.keyOf fingerprint) = none := by
  rw [Database.get?, Table.lookup_eq_none_iff]
  intro hmem
  obtain ⟨other, hother, hkey⟩ := h.keys _ hmem
  obtain rfl := hkeys (h.shelved hother) hused hkey
  obtain ⟨view, hview⟩ := Shelf.mem_fingerprints.mp hother
  rw [habsent] at hview
  cases hview

/-- There are as many entries in the database as fingerprints on the shelf. -/
theorem length_database (h : Agrees used c s) (hkeys : Set.InjOn Cache.keyOf used) :
    c.database.length = s.fingerprints.ncard := by
  -- Fingerprints and keys are as many as each other, as no two fingerprints share a key.
  have himage : Cache.keyOf '' s.fingerprints = {key | key ∈ c.database.map Prod.fst} := by
    apply Set.Subset.antisymm
    · rintro _ ⟨fingerprint, hshelved, rfl⟩
      obtain ⟨view, hview⟩ := Shelf.mem_fingerprints.mp hshelved
      obtain ⟨content, -, hcontent, -⟩ := h.stored fingerprint view hview
      by_contra hmem
      rw [Set.mem_ofPred_eq, ← Table.lookup_eq_none_iff] at hmem
      rw [Database.get?, hmem] at hcontent
      cases hcontent
    · intro key hkey
      obtain ⟨fingerprint, hshelved, rfl⟩ := h.keys key hkey
      exact ⟨fingerprint, hshelved, rfl⟩
  rw [← (hkeys.mono h.shelved).ncard_image, himage, ← List.coe_toFinset,
    Set.ncard_coe_finset, List.toFinset_card_of_nodup h.distinct, List.length_map]

/-- To remember what is on the shelf changes nothing. -/
theorem remember (h : Agrees used c s) (hkeys : Set.InjOn Cache.keyOf used)
    (hused : fingerprint ∈ used) (hopen : c.isOpen = true)
    (hentry : s.entries fingerprint = some entry.view) :
    Agrees used (c.remember (Cache.keyOf fingerprint) entry) s where
  isOpen := h.isOpen
  forgotten hclosed := by
    rw [Cache.remember, hopen] at hclosed
    cases hclosed
  distinct := h.distinct
  shelved := h.shelved
  keys := h.keys
  stored := h.stored
  remembered other hother found hfound := by
    rcases Cache.remembered?_remember_cases hfound with ⟨hkey, rfl⟩ | ⟨_, hfound⟩
    · rw [hkeys hother hused hkey]
      exact hentry
    · exact h.remembered other hother found hfound

/-- To set an entry in both layers is to set it on the shelf. -/
theorem shelve (h : Agrees used c s) (hkeys : Set.InjOn Cache.keyOf used)
    (hused : fingerprint ∈ used) (hopen : c.isOpen = true) {content : String} {read : CacheEntry}
    (hread : CacheEntry.ofContent content = .ok read) (hview : read.view = entry.view) :
    Agrees used
      (Cache.remember
        { c with database := c.database.put (Cache.keyOf fingerprint) (.content content) }
        (Cache.keyOf fingerprint) entry)
      (s.put fingerprint entry.view) where
  -- Between the two writes the memory may hold the entry from before, so the layers agree
  -- with the shelf only after both.
  isOpen := h.isOpen
  forgotten hclosed := by
    rw [Cache.remember, hopen] at hclosed
    cases hclosed
  distinct := Database.distinct_put h.distinct
  shelved other hother := by
    rcases Shelf.mem_fingerprints_put.mp hother with rfl | hother
    · exact hused
    · exact h.shelved hother
  keys key hkey := by
    rcases Database.mem_keys_put.mp hkey with rfl | hkey
    · exact ⟨fingerprint, Shelf.mem_fingerprints_put.mpr (.inl rfl), rfl⟩
    · obtain ⟨other, hother, rfl⟩ := h.keys key hkey
      exact ⟨other, Shelf.mem_fingerprints_put.mpr (.inr hother), rfl⟩
  stored other view hother := by
    by_cases heq : other = fingerprint
    · subst heq
      rw [Shelf.entries_put_self] at hother
      cases hother
      exact ⟨content, read, Database.get?_put_self, hread, hview⟩
    · rw [Shelf.entries_put_of_ne heq] at hother
      have hshelved : other ∈ s.fingerprints := Shelf.mem_fingerprints.mpr ⟨view, hother⟩
      have hne : Cache.keyOf other ≠ Cache.keyOf fingerprint := fun hkey =>
        heq (hkeys (h.shelved hshelved) hused hkey)
      obtain ⟨content, read, hcontent, hread, hview⟩ := h.stored other view hother
      exact ⟨content, read, (Database.get?_put_of_ne hne).trans hcontent, hread, hview⟩
  remembered other hother found hfound := by
    rcases Cache.remembered?_remember_cases hfound with ⟨hkey, rfl⟩ | ⟨hne, hfound⟩
    · rw [hkeys hother hused hkey]
      exact Shelf.entries_put_self
    · rw [Shelf.entries_put_of_ne (ne_of_apply_ne Cache.keyOf hne)]
      exact h.remembered other hother found hfound

/-- A get is answered as from the shelf, and what it remembers is on the shelf. -/
theorem get_step (h : Agrees used c s) (hkeys : Set.InjOn Cache.keyOf used)
    (hused : fingerprint ≠ "" → fingerprint ∈ used) :
    (c.perform (.get fingerprint)).1 = (s.perform (.get fingerprint)).1 ∧
      Agrees used (c.perform (.get fingerprint)).2 (s.perform (.get fingerprint)).2 := by
  dsimp only [Cache.perform, Shelf.perform]
  by_cases hempty : fingerprint = ""
  · subst hempty
    exact ⟨rfl, h⟩
  have hused := hused hempty
  rw [if_neg hempty]
  cases hremembered : c.remembered? (Cache.keyOf fingerprint) with
  | some entry =>
      -- A closed cache remembers nothing.
      have hopen : s.isOpen = true := by
        rw [← h.isOpen]
        by_contra hclosed
        rw [Cache.remembered?, h.forgotten (by simpa using hclosed)] at hremembered
        cases hremembered
      rw [Cache.get_of_remembered hempty hremembered, if_pos hopen,
        h.remembered fingerprint hused entry hremembered]
      exact ⟨rfl, h⟩
  | none =>
      cases hopen : c.isOpen with
      | false =>
          rw [Cache.get_of_closed hempty hremembered hopen, if_neg (by simp [← h.isOpen, hopen])]
          exact ⟨rfl, h⟩
      | true =>
          rw [if_pos (h.isOpen ▸ hopen)]
          cases hentry : s.entries fingerprint with
          | none =>
              rw [Cache.get_of_absent hempty hremembered hopen
                (h.get?_eq_none hkeys hused hentry)]
              exact ⟨rfl, h⟩
          | some view =>
              obtain ⟨content, read, hstored, hread, rfl⟩ := h.stored fingerprint view hentry
              rw [Cache.get_of_stored hempty hremembered hopen hstored hread]
              exact ⟨rfl, h.remember hkeys hused hopen hentry⟩

/-- A put of an entry that was made of a program changes the cache and the shelf alike. -/
theorem put_step (h : Agrees used c s) (hkeys : Set.InjOn Cache.keyOf used)
    (hused : fingerprint ≠ "" → fingerprint ∈ used) (hmade : entry.Made) :
    (c.perform (.put fingerprint entry)).1 = (s.perform (.put fingerprint entry)).1 ∧
      Agrees used (c.perform (.put fingerprint entry)).2
        (s.perform (.put fingerprint entry)).2 := by
  dsimp only [Cache.perform, Shelf.perform]
  by_cases hempty : fingerprint = ""
  · subst hempty
    exact ⟨rfl, h⟩
  rw [if_neg hempty]
  obtain ⟨content, read, hcontent, hread, hview⟩ := hmade.exists_content
  cases hopen : c.isOpen with
  | false =>
      rw [Cache.put_of_closed hempty hcontent hopen, if_neg (by simp [← h.isOpen, hopen])]
      exact ⟨rfl, h⟩
  | true =>
      rw [Cache.put_of_open hempty hcontent hopen, if_pos (h.isOpen ▸ hopen)]
      exact ⟨rfl, h.shelve hkeys (hused hempty) hopen hread hview⟩

/-- There are as many keys in the database as fingerprints on the shelf. -/
theorem size_step (h : Agrees used c s) (hkeys : Set.InjOn Cache.keyOf used) :
    (c.perform .size).1 = (s.perform .size).1 ∧
      Agrees used (c.perform .size).2 (s.perform .size).2 := by
  dsimp only [Cache.perform, Shelf.perform]
  rw [Cache.size, h.isOpen, h.length_database hkeys]
  split
  next => exact ⟨rfl, h⟩
  next => exact ⟨rfl, h⟩

/-- A cleared cache is an empty shelf, and a closed one is not cleared. -/
theorem clear_step (h : Agrees used c s) :
    (c.perform .clear).1 = (s.perform .clear).1 ∧
      Agrees used (c.perform .clear).2 (s.perform .clear).2 := by
  dsimp only [Cache.perform, Shelf.perform]
  cases hopen : c.isOpen with
  | false =>
      rw [Cache.clear_of_closed hopen, if_neg (by simp [← h.isOpen, hopen])]
      exact ⟨rfl, h⟩
  | true =>
      rw [Cache.clear_of_open hopen, if_pos (h.isOpen ▸ hopen)]
      refine ⟨rfl, h.isOpen, fun _ => rfl, List.nodup_nil, ?_, ?_, ?_, ?_⟩
      · simp [Shelf.fingerprints]
      · simp
      · simp
      · simp [Cache.remembered?]

/-- The database outlasts the memory. -/
theorem reopen (h : Agrees used c s) :
    Agrees used (.ofDatabase c.database) { s with isOpen := true } :=
  ⟨rfl, fun _ => rfl, h.distinct, h.shelved, h.keys, h.stored, by
    simp [Cache.ofDatabase, Cache.remembered?]⟩

theorem close (h : Agrees used c s) : Agrees used c.close { s with isOpen := false } :=
  ⟨rfl, fun _ => rfl, h.distinct, h.shelved, h.keys, h.stored, by
    simp [Cache.close, Cache.forget, Cache.remembered?]⟩

end Agrees

/-! ## Runs -/

namespace CacheRequest

/-- The fingerprint that a request is about. -/
def fingerprint? : CacheRequest → Option String
  | .get fingerprint | .put fingerprint _ => some fingerprint
  | _ => none

/-- The fingerprints that requests are about, the empty one apart. -/
def fingerprints (requests : List CacheRequest) : Set String :=
  {fingerprint | fingerprint ≠ "" ∧ ∃ request ∈ requests, request.fingerprint? = some fingerprint}

end CacheRequest

namespace Agrees

variable {used : Set String} {c : Cache} {s : Shelf}

/-- One request is answered alike, and the layers still agree with the shelf. -/
theorem step (h : Agrees used c s) (hkeys : Set.InjOn Cache.keyOf used) {request : CacheRequest}
    (hused : ∀ fingerprint ∈ request.fingerprint?, fingerprint ≠ "" → fingerprint ∈ used)
    (hmade : ∀ fingerprint entry, request = .put fingerprint entry → entry.Made) :
    (c.perform request).1 = (s.perform request).1 ∧
      Agrees used (c.perform request).2 (s.perform request).2 := by
  cases request with
  | reopen => exact ⟨rfl, h.reopen⟩
  | close => exact ⟨rfl, h.close⟩
  | get fingerprint => exact h.get_step hkeys (hused fingerprint rfl)
  | put fingerprint entry =>
      exact h.put_step hkeys (hused fingerprint rfl) (hmade fingerprint entry rfl)
  | size => exact h.size_step hkeys
  | clear => exact h.clear_step

/-- From a cache and a shelf that agree on, all requests are answered alike. -/
theorem answers_eq (hkeys : Set.InjOn Cache.keyOf used) {requests : List CacheRequest}
    (hused : ∀ request ∈ requests, ∀ fingerprint ∈ request.fingerprint?,
      fingerprint ≠ "" → fingerprint ∈ used)
    (hmade : ∀ fingerprint entry, .put fingerprint entry ∈ requests → entry.Made)
    (h : Agrees used c s) :
    CacheRequest.answers Cache.perform c requests =
      CacheRequest.answers Shelf.perform s requests := by
  induction requests generalizing c s with
  | nil => rfl
  | cons request rest ih =>
      rw [List.forall_mem_cons] at hused
      have hrequest : ∀ fingerprint entry, request = .put fingerprint entry → entry.Made := by
        rintro fingerprint entry rfl
        exact hmade fingerprint entry List.mem_cons_self
      have hrest : ∀ fingerprint entry, .put fingerprint entry ∈ rest → entry.Made :=
        fun fingerprint entry hput => hmade fingerprint entry (List.mem_cons_of_mem request hput)
      obtain ⟨hanswer, hnext⟩ := h.step hkeys hused.1 hrequest
      rw [CacheRequest.answers, CacheRequest.answers, hanswer, ih hused.2 hrest hnext]

end Agrees

/-- A cache cannot be told from a plain map of fingerprints: requests are answered alike, as
long as no two of their fingerprints have one key, and a request that fails leaves the
database and the memory as they are. -/
theorem Cache.answers_eq_shelf {requests : List CacheRequest}
    (hmade : ∀ fingerprint entry, .put fingerprint entry ∈ requests → entry.Made)
    (hkeys : Set.InjOn keyOf (CacheRequest.fingerprints requests)) :
    CacheRequest.answers Cache.perform (.ofDatabase []) requests =
        CacheRequest.answers Shelf.perform {} requests ∧
      ∀ (c : Cache) (request : CacheRequest) (cause : Error),
        (c.perform request).1 = .failed cause → (c.perform request).2 = c := by
  refine ⟨(Agrees.empty _).answers_eq hkeys ?_ hmade, fun _ _ _ => eq_of_failed⟩
  exact fun request hrequest fingerprint hfingerprint hne => ⟨hne, request, hrequest, hfingerprint⟩

/-- A program with markup in a text, two frames, a schema and a store. -/
def Program.greeting : Program where
  procedures := [("greet", [.instantiateText "<b>hi</b>", .instantiateInt (-7), .returnStackTop]),
    ("bye", [.noop])]
  schemas := [.optional .string]
  stores := [("users", .object [("name", .string)])]
  frames := [("greet", 1), ("bye", 0)]

/-- An entry outlives a closing and is gone with a clearing, and the empty fingerprint is
refused. -/
theorem Cache.answers_eq_shelf_greeting :
    ∃ entry, CacheEntry.ofProgram? Program.greeting "2024-05-06T07:08:09.5+01:00" = some entry ∧
      CacheRequest.answers Cache.perform (.ofDatabase []) [.put "f" entry, .get "f", .close,
          .get "f", .get "", .reopen, .get "f", .size, .clear, .get "f", .size] =
        [.done, .found entry.view, .done, .failed .closed, .failed .invalidKey,
          .done, .found entry.view, .count 1, .done, .missing, .count 0] := by
  have hsound : Program.greeting.Sound := by
    refine ⟨?_, ?_, ?_⟩
    · simpa [Program.greeting] using
        ⟨⟨.text "<b>hi</b>", .int64 ⟨by decide, by decide⟩, .none⟩, .none⟩
    · simp [Program.greeting, Distinct]
    · simp [Program.greeting, IsInt64, int64Limit]
  obtain ⟨document, hdocument, -⟩ := hsound.exists_document
  obtain ⟨entry, hentry⟩ : ∃ entry, CacheEntry.ofProgram? Program.greeting
      "2024-05-06T07:08:09.5+01:00" = some entry := by
    rw [CacheEntry.ofProgram?, Program.text?, hdocument]
    exact ⟨_, rfl⟩
  have hmade : entry.Made := ⟨_, _, hsound, by decide +kernel, hentry⟩
  refine ⟨entry, hentry, ?_⟩
  rw [(Cache.answers_eq_shelf ?_ ?_).1]
  · have hnone : (Shelf.fingerprints {}).ncard = 0 := by
      simp [Shelf.fingerprints]
    have hone : (Shelf.put {} "f" entry.view).fingerprints.ncard = 1 := by
      have hset : (Shelf.put {} "f" entry.view).fingerprints = {"f"} := by
        ext fingerprint
        rw [Shelf.mem_fingerprints_put]
        simp [Shelf.fingerprints]
      rw [hset, Set.ncard_singleton]
    rw [← hone, ← hnone]
    rfl
  · simpa using hmade
  · refine (Set.injOn_singleton Cache.keyOf "f").mono ?_
    rintro fingerprint ⟨hne, request, hrequest, hasked⟩
    simp only [List.mem_cons, List.not_mem_nil, or_false] at hrequest
    rcases hrequest with rfl | rfl | rfl | rfl | rfl | rfl | rfl | rfl | rfl | rfl | rfl <;>
      simp_all [CacheRequest.fingerprint?]

end StoredProc
