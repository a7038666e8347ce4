import Mathlib.Data.List.Induction
import Mathlib.Data.List.Nodup
import StoredProc.Compile.Scope
import StoredProc.Proofs.Table

/-! # The history of a scope

A scope can be asked to add a variable, to find one, and to open and close levels, in any
order. Its history is the list of these requests with their answers. What a scope holds is
read off its history: a name is bound exactly if it was added at a level that has not been
closed since.

Closing a level takes its names out of the bindings. No name outside is lost by this, since a
name that is bound at any open level is not added again. So a closed level leaves no trace
but the slots it has used.
-/

namespace StoredProc

/-! ## Requests and answers -/

/-- What a scope is asked to do. -/
inductive ScopeRequest where
  | add (name : String) (type : DataType)
  | get (name : String)
  | start
  | stop

/-- What a scope answers. A name may be refused, and the outermost level cannot be closed. -/
inductive ScopeAnswer where
  | added (slot : Nat)
  | refused
  | found (held : Option Variable)
  | opened
  | closed (removed : Nat)
  | outermost

/-- A request with its answer. -/
structure ScopeEvent where
  request : ScopeRequest
  answer : ScopeAnswer

namespace ScopeEvent

/-- The slot that is given to a variable. -/
def slot? (event : ScopeEvent) : Option Nat :=
  match event.answer with
  | .added slot => some slot
  | _ => none

/-- The slots that are given, in the order of the history. -/
def slots (events : List ScopeEvent) : List Nat := events.filterMap slot?

/-- How many levels there are above a level after an event. There is no answer if the
event closes the level itself. -/
def above? (event : ScopeEvent) (above : Nat) : Option Nat :=
  match event.answer, above with
  | .opened, above => some (above + 1)
  | .closed _, 0 => none
  | .closed _, above + 1 => some above
  | _, above => some above

end ScopeEvent

/-- A level as its history tells it: the levels that are open above it, and the number of
variables that were added at this level and no other. -/
structure LevelRecord where
  above : Nat := 0
  added : Nat := 0

namespace LevelRecord

/-- The record after one more event, unless it closes the level. -/
def next? (record : LevelRecord) (event : ScopeEvent) : Option LevelRecord :=
  (event.above? record.above).map fun above =>
    { above
      added := if record.above = 0 ∧ event.slot?.isSome then record.added + 1 else record.added }

/-- The record of a level after all events since it was opened, if it is still open. -/
def of? (events : List ScopeEvent) : Option LevelRecord := events.foldlM next? {}

theorem next?_eq_self {record : LevelRecord} {event : ScopeEvent} (hslot : event.slot? = none)
    (habove : event.above? record.above = some record.above) :
    record.next? event = some record := by
  simp [next?, hslot, habove]

theorem of?_concat (events : List ScopeEvent) (event : ScopeEvent) :
    of? (events ++ [event]) = (of? events).bind (next? · event) := by
  simp [of?, List.foldlM_append]

end LevelRecord

namespace Scope

/-- The names of all open levels, the innermost level first. -/
def levels (scope : Scope) : List (List String) := scope.level :: scope.outer

/-- The answer of a scope, and the scope after it. -/
def perform (scope : Scope) : ScopeRequest → ScopeAnswer × Scope
  | .add name type =>
    match scope.add? name type with
    | some (slot, after) => (.added slot, after)
    | none => (.refused, scope)
  | .get name => (.found (scope.get? name), scope)
  | .start => (.opened, scope.start)
  | .stop =>
    match scope.stop? with
    | some (removed, after) => (.closed removed, after)
    | none => (.outermost, scope)

/-- The scope after requests. -/
def after (scope : Scope) (requests : List ScopeRequest) : Scope :=
  requests.foldl (fun scope request => (scope.perform request).2) scope

/-- The history of requests. -/
def events (scope : Scope) : List ScopeRequest → List ScopeEvent
  | [] => []
  | request :: rest =>
    ⟨request, (scope.perform request).1⟩ :: (scope.perform request).2.events rest

theorem after_append (scope : Scope) (first second : List ScopeRequest) :
    scope.after (first ++ second) = (scope.after first).after second :=
  List.foldl_append

theorem events_append (scope : Scope) (first second : List ScopeRequest) :
    scope.events (first ++ second) = scope.events first ++ (scope.after first).events second := by
  induction first generalizing scope with
  | nil => rfl
  | cons request rest ih => exact congrArg _ (ih _)

theorem after_concat (scope : Scope) (requests : List ScopeRequest) (request : ScopeRequest) :
    scope.after (requests ++ [request]) = ((scope.after requests).perform request).2 :=
  scope.after_append requests [request]

theorem after_add {scope next : Scope} {requests : List ScopeRequest} {name : String}
    {type : DataType} {slot : Nat}
    (h : (scope.after requests).add? name type = some (slot, next)) :
    scope.after (requests ++ [.add name type]) = next := by
  rw [after_concat, perform, h]

theorem after_stop (scope : Scope) (requests : List ScopeRequest) :
    scope.after (requests ++ [.stop]) = (scope.after requests).stop.2 := by
  rw [after_concat, perform, stop]
  cases (scope.after requests).stop? with
  | none => rfl
  | some closed => rfl

/-- What a scope does with a request. -/
inductive Performs (scope : Scope) : ScopeRequest → ScopeAnswer → Scope → Prop
  | add {name : String} {type : DataType} (hfree : scope.get? name = none) :
      Performs scope (.add name type) (.added scope.count)
        { scope with
          bindings := (name, ⟨scope.count, type⟩) :: scope.bindings
          level := name :: scope.level
          count := scope.count + 1
          highest := max scope.highest scope.count }
  | refuse {name : String} {type : DataType} {held : Variable}
      (hheld : scope.get? name = some held) : Performs scope (.add name type) .refused scope
  | get {name : String} : Performs scope (.get name) (.found (scope.get? name)) scope
  | start : Performs scope .start .opened scope.start
  | stop {level : List String} {outer : List (List String)}
      (houter : scope.outer = level :: outer) :
      Performs scope .stop (.closed scope.level.length)
        { scope with
          bindings := scope.bindings.filter fun entry => !scope.level.contains entry.1
          level
          outer }
  | outermost (houter : scope.outer = []) : Performs scope .stop .outermost scope

/-- What a scope does is one of the cases. -/
theorem performs (scope : Scope) (request : ScopeRequest) :
    scope.Performs request (scope.perform request).1 (scope.perform request).2 := by
  cases request with
  | add name type =>
      rw [perform, add?]
      cases hget : scope.get? name with
      | none => exact .add hget
      | some held => exact .refuse hget
  | get name => exact .get
  | start => exact .start
  | stop =>
      rw [perform, stop?]
      cases houter : scope.outer with
      | nil => exact .outermost houter
      | cons level outer => exact .stop houter

/-! ## Names and slots -/

/-- The bindings of a scope are the names of its levels. No name and no slot is there twice. -/
structure Consistent (scope : Scope) : Prop where
  names : scope.bindings.map Prod.fst = scope.levels.flatten
  distinct : Table.Distinct scope.bindings
  slots : (scope.bindings.map fun entry => entry.2.slot).Nodup
  slot_lt : ∀ entry ∈ scope.bindings, entry.2.slot < scope.count

namespace Consistent

variable {scope next : Scope} {request : ScopeRequest} {answer : ScopeAnswer} {name : String}

theorem new : ({} : Scope).Consistent where
  names := rfl
  distinct := List.nodup_nil
  slots := List.nodup_nil
  slot_lt := by simp

theorem nodup (h : scope.Consistent) : scope.levels.flatten.Nodup := h.names ▸ h.distinct

theorem get?_eq_none_iff (h : scope.Consistent) :
    scope.get? name = none ↔ name ∉ scope.levels.flatten := by
  rw [get?, Table.lookup_eq_none_iff, h.names]

theorem get?_eq_some_iff (h : scope.Consistent) {held : Variable} :
    scope.get? name = some held ↔ (name, held) ∈ scope.bindings :=
  Table.lookup_eq_some_iff h.distinct

theorem exists_get?_iff (h : scope.Consistent) :
    (∃ held, scope.get? name = some held) ↔ ∃ level ∈ scope.levels, name ∈ level := by
  rw [← Option.ne_none_iff_exists', Ne, h.get?_eq_none_iff, Decidable.not_not, List.mem_flatten]

/-- Two names have different slots. -/
theorem eq_of_slot_eq (h : scope.Consistent) {other : String} {held held' : Variable}
    (hname : scope.get? name = some held) (hother : scope.get? other = some held')
    (hslot : held.slot = held'.slot) : name = other := by
  have hentry := List.inj_on_of_nodup_map h.slots (h.get?_eq_some_iff.mp hname)
    (h.get?_eq_some_iff.mp hother) hslot
  exact (Prod.mk.inj hentry).1

/-- A name of the innermost level is no name of another one. -/
theorem notMem_level (h : scope.Consistent) (hname : name ∈ scope.outer.flatten) :
    name ∉ scope.level := by
  have hnodup := h.nodup
  rw [levels, List.flatten_cons, List.nodup_append] at hnodup
  exact fun hlevel => hnodup.2.2 name hlevel name hname rfl

/-- Closing the innermost level takes out its names and no others. -/
theorem map_filter (h : scope.Consistent) :
    (scope.bindings.filter fun entry => !scope.level.contains entry.1).map Prod.fst =
      scope.outer.flatten := by
  have hfilter := List.filter_map (f := Prod.fst) (l := scope.bindings)
    (p := fun name => !scope.level.contains name)
  rw [h.names, levels, List.flatten_cons, List.filter_append] at hfilter
  have hgone : scope.level.filter (fun name => !scope.level.contains name) = [] := by
    simp
  have hkept : scope.outer.flatten.filter (fun name => !scope.level.contains name) =
      scope.outer.flatten := by
    rw [List.filter_eq_self]
    intro name hname
    simpa using h.notMem_level hname
  rw [hgone, hkept] at hfilter
  exact hfilter.symm

/-- A consistent scope stays so, whatever it is asked. -/
theorem performs (h : scope.Consistent) (hperforms : scope.Performs request answer next) :
    next.Consistent := by
  cases hperforms with
  | @add name type hfree =>
      refine ⟨?_, ?_, ?_, ?_⟩
      · simpa [levels] using h.names
      · exact List.nodup_cons.mpr ⟨Table.lookup_eq_none_iff.mp hfree, h.distinct⟩
      · refine List.nodup_cons.mpr ⟨?_, h.slots⟩
        intro hmem
        obtain ⟨entry, hentry, hslot⟩ := List.mem_map.mp hmem
        exact Nat.ne_of_lt (h.slot_lt entry hentry) hslot
      · intro entry hentry
        rcases List.mem_cons.mp hentry with rfl | hentry
        · exact Nat.lt_succ_self _
        · exact Nat.lt_succ_of_lt (h.slot_lt entry hentry)
  | refuse _ => exact h
  | get => exact h
  | start => exact ⟨h.names, h.distinct, h.slots, h.slot_lt⟩
  | stop houter =>
      refine ⟨?_, ?_, ?_, ?_⟩
      · rw [h.map_filter, houter]
        rfl
      · exact h.distinct.sublist (List.filter_sublist.map _)
      · exact h.slots.sublist (List.filter_sublist.map _)
      · exact fun entry hentry => h.slot_lt entry (List.mem_filter.mp hentry).1
  | outermost _ => exact h

theorem after (h : scope.Consistent) (requests : List ScopeRequest) :
    (scope.after requests).Consistent := by
  induction requests generalizing scope with
  | nil => exact h
  | cons request rest ih => exact ih (h.performs (scope.performs request))

end Consistent

/-- What holds of a scope and is kept by every request holds of its history. -/
theorem history_induction {motive : List ScopeEvent → Scope → Prop} {scope : Scope}
    (hscope : scope.Consistent) (hnew : motive [] scope)
    (hstep : ∀ {events : List ScopeEvent} {now next : Scope} {request : ScopeRequest}
      {answer : ScopeAnswer}, now.Consistent → motive events now →
      now.Performs request answer next → motive (events ++ [⟨request, answer⟩]) next)
    (requests : List ScopeRequest) : motive (scope.events requests) (scope.after requests) := by
  induction requests using List.reverseRecOn with
  | nil => exact hnew
  | append_singleton requests request ih =>
      rw [events_append, after_concat]
      exact hstep (hscope.after requests) ih ((scope.after requests).performs request)

/-! ## Slots -/

/-- The slots are given in order and without a gap, and the highest is the last one given. -/
theorem slots_events (requests : List ScopeRequest) :
    ScopeEvent.slots (({} : Scope).events requests) =
        List.range (({} : Scope).after requests).count ∧
      (({} : Scope).after requests).highest = (({} : Scope).after requests).count - 1 := by
  refine history_induction (motive := fun events now =>
    ScopeEvent.slots events = List.range now.count ∧ now.highest = now.count - 1)
    .new ⟨rfl, rfl⟩ ?_ requests
  rintro events now next request answer _ ⟨hslots, hhighest⟩ hperforms
  rw [ScopeEvent.slots, List.filterMap_append, ← ScopeEvent.slots, hslots]
  cases hperforms with
  | add _ =>
      refine ⟨List.range_succ.symm, ?_⟩
      show max now.highest now.count = now.count + 1 - 1
      omega
  | refuse _ => exact ⟨List.append_nil _, hhighest⟩
  | get => exact ⟨List.append_nil _, hhighest⟩
  | start => exact ⟨List.append_nil _, hhighest⟩
  | stop _ => exact ⟨List.append_nil _, hhighest⟩
  | outermost _ => exact ⟨List.append_nil _, hhighest⟩

end Scope

/-! ## Open levels -/

namespace ScopeEvent

/-- An event is part of a history, and the level that was the innermost one after it is still
open, with some levels above it. -/
def Since (events : List ScopeEvent) (event : ScopeEvent) (above : Nat) : Prop :=
  ∃ earlier later record, events = earlier ++ event :: later ∧
    LevelRecord.of? later = some record ∧ record.above = above

variable {events : List ScopeEvent} {event last : ScopeEvent} {above : Nat}

theorem not_since_nil : ¬ Since [] event above := by
  rintro ⟨earlier, later, _, h, _⟩
  simp at h

theorem map_above_next? (record : LevelRecord) (event : ScopeEvent) :
    (record.next? event).map LevelRecord.above = event.above? record.above := by
  rw [LevelRecord.next?, Option.map_map]
  exact Option.map_id'

/-- One more event either is the one in question or leaves its level open. -/
theorem since_concat :
    Since (events ++ [last]) event above ↔
      last = event ∧ above = 0 ∨
        ∃ before, Since events event before ∧ last.above? before = some above := by
  constructor
  · rintro ⟨earlier, later, record, hevents, hrecord, rfl⟩
    -- The last event is the one in question, or the last one after it.
    rcases List.eq_nil_or_concat later with rfl | ⟨later, final, rfl⟩
    · obtain ⟨-, rfl⟩ := List.append_singleton_inj.mp hevents
      cases hrecord
      exact .inl ⟨rfl, rfl⟩
    · rw [List.concat_eq_append] at hevents hrecord
      rw [← List.cons_append, ← List.append_assoc] at hevents
      obtain ⟨rfl, rfl⟩ := List.append_singleton_inj.mp hevents
      rw [LevelRecord.of?_concat, Option.bind_eq_some_iff] at hrecord
      obtain ⟨before, hbefore, hnext⟩ := hrecord
      refine .inr ⟨before.above, ⟨earlier, later, before, rfl, hbefore, rfl⟩, ?_⟩
      rw [← map_above_next?, hnext]
      rfl
  · rintro (⟨rfl, rfl⟩ | ⟨_, ⟨earlier, later, record, rfl, hrecord, rfl⟩, habove⟩)
    · exact ⟨events, [], {}, rfl, rfl, rfl⟩
    · rw [← map_above_next?, Option.map_eq_some_iff] at habove
      obtain ⟨next, hnext, rfl⟩ := habove
      refine ⟨earlier, later ++ [last], next, by simp, ?_, rfl⟩
      rw [LevelRecord.of?_concat, hrecord]
      exact hnext

theorem above?_opened_eq_some_iff {before : Nat} :
    above? ⟨.start, .opened⟩ before = some above ↔ before + 1 = above :=
  Option.some_inj

theorem above?_closed_eq_some_iff {before removed : Nat} :
    above? ⟨.stop, .closed removed⟩ before = some above ↔ before = above + 1 := by
  cases before with
  | zero => simp [above?]
  | succ before => simp [above?]

end ScopeEvent

namespace Scope

open ScopeEvent (Since since_concat not_since_nil above?_opened_eq_some_iff
  above?_closed_eq_some_iff)

/-- The levels inside of the outermost one are those that were opened and not closed. -/
theorem since_opened_iff (requests : List ScopeRequest) :
    ∀ above, Since (({} : Scope).events requests) ⟨.start, .opened⟩ above ↔
      above < (({} : Scope).after requests).outer.length := by
  refine history_induction (motive := fun events now =>
    ∀ above, Since events ⟨.start, .opened⟩ above ↔ above < now.outer.length) .new ?_ ?_ requests
  · intro above
    simp [not_since_nil]
  · intro events now next request answer _ ih hperforms above
    rw [since_concat]
    simp only [ih]
    cases hperforms with
    | add _ => simp [ScopeEvent.above?]
    | refuse _ => simp [ScopeEvent.above?]
    | get => simp [ScopeEvent.above?]
    | start =>
        simp only [above?_opened_eq_some_iff, start, List.length_cons]
        cases above with
        | zero => simp
        | succ above => simp
    | stop houter =>
        simp [above?_closed_eq_some_iff, houter]
    | outermost _ => simp [ScopeEvent.above?]

/-- A variable is bound at a level that has some levels above it. -/
def HeldAt (scope : Scope) (name : String) (held : Variable) (above : Nat) : Prop :=
  (name, held) ∈ scope.bindings ∧ ∃ level, scope.levels[above]? = some level ∧ name ∈ level

namespace Consistent

variable {scope next : Scope} {request : ScopeRequest} {answer : ScopeAnswer} {name : String}
  {held : Variable} {above : Nat}

/-- A variable is found exactly if it is bound at one of the open levels. -/
theorem get?_eq_some_iff_heldAt (h : scope.Consistent) :
    scope.get? name = some held ↔ ∃ above, scope.HeldAt name held above := by
  rw [h.get?_eq_some_iff]
  constructor
  · intro hmem
    have hname : name ∈ scope.levels.flatten := h.names ▸ List.mem_map_of_mem hmem
    obtain ⟨level, hlevel, hname⟩ := List.mem_flatten.mp hname
    obtain ⟨above, habove⟩ := List.getElem?_of_mem hlevel
    exact ⟨above, hmem, level, habove, hname⟩
  · rintro ⟨above, hmem, _⟩
    exact hmem

/-- A variable that is added is bound at the innermost level, and nothing else changes. -/
theorem heldAt_add (h : scope.Consistent) {added : String} {type : DataType} {slot : Nat}
    (hperforms : scope.Performs (.add added type) (.added slot) next) :
    next.HeldAt name held above ↔
      (name = added ∧ held = ⟨slot, type⟩ ∧ above = 0) ∨ scope.HeldAt name held above := by
  obtain ⟨hfree⟩ := hperforms
  have hnew : ∀ level ∈ scope.levels, added ∉ level := by
    intro level hlevel hadded
    exact h.get?_eq_none_iff.mp hfree (List.mem_flatten.mpr ⟨level, hlevel, hadded⟩)
  constructor
  · rintro ⟨hmem, level, hlevel, hname⟩
    rcases List.mem_cons.mp hmem with heq | hold
    · cases heq
      cases above with
      | zero => exact .inl ⟨rfl, rfl, rfl⟩
      | succ above =>
          exact absurd hname (hnew level (List.mem_cons_of_mem _ (List.mem_of_getElem? hlevel)))
    · have hne : name ≠ added := by
        rintro rfl
        exact Table.lookup_eq_none_iff.mp hfree (List.mem_map_of_mem hold)
      refine .inr ⟨hold, ?_⟩
      cases above with
      | zero =>
          cases hlevel
          exact ⟨scope.level, rfl, List.mem_of_ne_of_mem hne hname⟩
      | succ above => exact ⟨level, hlevel, hname⟩
  · rintro (⟨rfl, rfl, rfl⟩ | ⟨hmem, level, hlevel, hname⟩)
    · exact ⟨List.mem_cons_self, name :: scope.level, rfl, List.mem_cons_self⟩
    · refine ⟨List.mem_cons_of_mem _ hmem, ?_⟩
      cases above with
      | zero =>
          cases hlevel
          exact ⟨added :: scope.level, rfl, List.mem_cons_of_mem _ hname⟩
      | succ above => exact ⟨level, hlevel, hname⟩

/-- Closing a level leaves what is bound at the levels below it. -/
theorem heldAt_stop (h : scope.Consistent) {removed : Nat}
    (hperforms : scope.Performs .stop (.closed removed) next) :
    next.HeldAt name held above ↔ scope.HeldAt name held (above + 1) := by
  cases hperforms with
  | stop houter =>
      simp only [HeldAt, levels, houter, List.getElem?_cons_succ, List.mem_filter]
      constructor
      · rintro ⟨⟨hmem, _⟩, hlevel⟩
        exact ⟨hmem, hlevel⟩
      · rintro ⟨hmem, level, hlevel, hname⟩
        have houter : name ∈ scope.outer.flatten :=
          List.mem_flatten.mpr ⟨level, houter ▸ List.mem_of_getElem? hlevel, hname⟩
        exact ⟨⟨hmem, by simpa using h.notMem_level houter⟩, level, hlevel, hname⟩

end Consistent

/-- A variable is bound at a level exactly if it was added there. -/
theorem since_added_iff (requests : List ScopeRequest) :
    ∀ name held above,
      Since (({} : Scope).events requests) ⟨.add name held.type, .added held.slot⟩ above ↔
        (({} : Scope).after requests).HeldAt name held above := by
  refine history_induction (motive := fun events now => ∀ name held above,
    Since events ⟨.add name held.type, .added held.slot⟩ above ↔ now.HeldAt name held above)
    .new ?_ ?_ requests
  · intro name held above
    simp [not_since_nil, HeldAt]
  · intro events now next request answer hnow ih hperforms name held above
    have hdone := hperforms
    rw [since_concat]
    simp only [ih]
    cases hperforms with
    | add _ =>
        rw [hnow.heldAt_add hdone]
        cases held with
        | mk slot type =>
            simp only [ScopeEvent.mk.injEq, ScopeRequest.add.injEq, ScopeAnswer.added.injEq,
              ScopeEvent.above?, Option.some_inj, exists_eq_right, Variable.mk.injEq]
            grind
    | refuse _ => simp [ScopeEvent.above?]
    | get => simp [ScopeEvent.above?]
    | start =>
        simp only [above?_opened_eq_some_iff]
        cases above with
        | zero => simp [HeldAt, levels, start]
        | succ above => simp [HeldAt, levels, start]
    | stop _ =>
        rw [hnow.heldAt_stop hdone]
        simp [above?_closed_eq_some_iff]
    | outermost _ => simp [ScopeEvent.above?]

/-! ## Closing a level -/

/-- A scope that has come from another one, of which the innermost level is still open. -/
structure StandsOn (base : Scope) (record : LevelRecord) (now : Scope) : Prop where
  stack : ∃ upper names, upper.length = record.above ∧ names.length = record.added ∧
    now.levels = upper ++ (names ++ base.level) :: base.outer
  bindings : base.bindings <:+ now.bindings

namespace StandsOn

variable {base now next : Scope} {record after : LevelRecord} {request : ScopeRequest}
  {answer : ScopeAnswer}

theorem refl (base : Scope) : base.StandsOn {} base :=
  ⟨⟨[], [], rfl, rfl, rfl⟩, List.suffix_refl _⟩

/-- Names of the base are not among those of a level above it. -/
theorem suffix_filter (hbase : base.Consistent) (hnow : now.Consistent)
    (h : base.bindings <:+ now.bindings)
    (hbelow : ∀ name ∈ base.levels.flatten, name ∈ now.outer.flatten) :
    base.bindings <:+ now.bindings.filter fun entry => !now.level.contains entry.1 := by
  obtain ⟨more, hmore⟩ := h
  have hkept : base.bindings.filter (fun entry => !now.level.contains entry.1) = base.bindings := by
    rw [List.filter_eq_self]
    intro entry hentry
    have hname : entry.1 ∈ base.levels.flatten := hbase.names ▸ List.mem_map_of_mem hentry
    simpa using hnow.notMem_level (hbelow _ hname)
  rw [← hmore, List.filter_append, hkept]
  exact List.suffix_append _ _

/-- A scope stands on the one that it came from, with one event more in the record, as long as
that level stays open. -/
theorem performs (hbase : base.Consistent) (hnow : now.Consistent)
    (h : base.StandsOn record now) (hperforms : now.Performs request answer next)
    (hafter : record.next? ⟨request, answer⟩ = some after) : base.StandsOn after next := by
  obtain ⟨upper, names, hupper, hnames, hlevels⟩ := h.stack
  cases hperforms with
  | @add name type hfree =>
      have hsuffix := h.bindings.trans (List.suffix_cons (name, ⟨now.count, type⟩) now.bindings)
      cases hafter
      -- The name goes to the level itself if there is none above it.
      cases upper with
      | nil =>
          obtain ⟨hlevel, houter⟩ := List.cons_eq_cons.mp hlevels
          refine ⟨⟨[], name :: names, hupper, ?_, ?_⟩, hsuffix⟩
          · simp [← hupper, hnames, ScopeEvent.slot?]
          · simp [levels, hlevel, houter]
      | cons top upper =>
          obtain ⟨hlevel, houter⟩ := List.cons_eq_cons.mp hlevels
          refine ⟨⟨(name :: top) :: upper, names, hupper, ?_, ?_⟩, hsuffix⟩
          · simp [← hupper, hnames]
          · simp [levels, hlevel, houter]
  | refuse _ =>
      cases (LevelRecord.next?_eq_self rfl rfl).symm.trans hafter
      exact h
  | get =>
      cases (LevelRecord.next?_eq_self rfl rfl).symm.trans hafter
      exact h
  | start =>
      cases hafter
      refine ⟨⟨[] :: upper, names, congrArg _ hupper, ?_, ?_⟩, h.bindings⟩
      · simp [hnames, ScopeEvent.slot?]
      · exact congrArg _ hlevels
  | stop houter =>
      -- The level itself is not closed, since its record goes on.
      cases upper with
      | nil => simp [LevelRecord.next?, ScopeEvent.above?, ← hupper] at hafter
      | cons top upper =>
          obtain ⟨-, hbelow⟩ := List.cons_eq_cons.mp hlevels
          rw [LevelRecord.next?, ← hupper] at hafter
          cases hafter
          refine ⟨⟨upper, names, rfl, ?_, houter.symm.trans hbelow⟩,
            suffix_filter hbase hnow h.bindings ?_⟩
          · simp [hnames, ScopeEvent.slot?]
          · intro name hname
            rw [hbelow]
            simp only [levels, List.flatten_cons, List.mem_append] at hname
            simp only [List.append_eq, List.flatten_append, List.flatten_cons, List.mem_append]
            tauto
  | outermost _ =>
      cases (LevelRecord.next?_eq_self rfl rfl).symm.trans hafter
      exact h

/-- A scope stands on the one that it came from as the record of its level says. -/
theorem of_record (hbase : base.Consistent) (requests : List ScopeRequest) :
    ∀ record, LevelRecord.of? (base.events requests) = some record →
      base.StandsOn record (base.after requests) := by
  refine history_induction (motive := fun events now => ∀ record,
    LevelRecord.of? events = some record → base.StandsOn record now) hbase ?_ ?_ requests
  · rintro record ⟨⟩
    exact refl base
  · intro events now next request answer hnow ih hperforms record hrecord
    rw [LevelRecord.of?_concat, Option.bind_eq_some_iff] at hrecord
    obtain ⟨before, hbefore, hnext⟩ := hrecord
    exact (ih before hbefore).performs hbase hnow hperforms hnext

/-- Closing a level gives back the bindings from before it was opened. -/
theorem perform_stop {scope : Scope} (hscope : scope.Consistent) (hnow : now.Consistent)
    (h : scope.start.StandsOn record now) (hinnermost : record.above = 0) :
    ∃ closed, now.perform .stop = (.closed record.added, closed) ∧
      closed.bindings = scope.bindings := by
  obtain ⟨upper, names, hupper, hnames, hlevels⟩ := h.stack
  obtain rfl : upper = [] := List.eq_nil_of_length_eq_zero (hupper.trans hinnermost)
  obtain ⟨hlevel, houter⟩ := List.cons_eq_cons.mp hlevels
  have hbelow : now.outer = scope.level :: scope.outer := houter
  have hadded : now.level.length = record.added := by
    rw [hlevel, ← hnames]
    exact congrArg List.length (List.append_nil names)
  have hrestored : scope.bindings =
      now.bindings.filter fun entry => !now.level.contains entry.1 := by
    -- What is left ends with the old bindings, and has as many names.
    apply (suffix_filter hscope hnow h.bindings fun name hname => hbelow ▸ hname).eq_of_length
    have hnames : (now.bindings.filter fun entry => !now.level.contains entry.1).map Prod.fst =
        scope.bindings.map Prod.fst := by
      rw [hnow.map_filter, hscope.names, hbelow]
      rfl
    simpa using (congrArg List.length hnames).symm
  refine ⟨{ now with bindings := _, level := scope.level, outer := scope.outer }, ?_,
    hrestored.symm⟩
  simp only [perform, stop?, hbelow, hadded]

end StandsOn

/-- A level that is closed leaves everything bound as it was. -/
theorem Consistent.perform_stop {scope : Scope} (h : scope.Consistent)
    {body : List ScopeRequest} {added : Nat}
    (hrecord : LevelRecord.of? (scope.start.events body) = some { above := 0, added }) :
    ∃ closed, (scope.start.after body).perform .stop = (.closed added, closed) ∧
      ∀ name, closed.get? name = scope.get? name := by
  have hstart : scope.start.Consistent := h.performs .start
  obtain ⟨closed, hclosed, hbindings⟩ :=
    (StandsOn.of_record hstart body _ hrecord).perform_stop h (hstart.after body) rfl
  exact ⟨closed, hclosed, fun name => congrArg (List.lookup name) hbindings⟩

theorem perform_add_refused_iff {scope : Scope} (h : scope.Consistent) (name : String)
    (type : DataType) :
    (scope.perform (.add name type)).1 = .refused ↔ ∃ level ∈ scope.levels, name ∈ level := by
  rw [← h.exists_get?_iff, perform, add?]
  cases scope.get? name with
  | none => simp
  | some held => simp

theorem perform_add_of_refused {scope : Scope} {name : String} {type : DataType}
    (h : (scope.perform (.add name type)).1 = .refused) :
    (scope.perform (.add name type)).2 = scope := by
  have hperforms := scope.performs (.add name type)
  rw [h] at hperforms
  generalize (scope.perform (.add name type)).2 = next at hperforms
  cases hperforms
  rfl

theorem perform_stop_eq_outermost_iff (scope : Scope) :
    scope.perform .stop = (.outermost, scope) ↔ scope.outer = [] := by
  rw [perform, stop?]
  cases scope.outer with
  | nil => simp
  | cons level outer => simp

theorem getLastD_range (n : Nat) : (List.range n).getLastD 0 = n - 1 := by
  cases n with
  | zero => rfl
  | succ n => rw [List.range_succ, List.getLastD_concat, Nat.add_sub_cancel]

/-- What a scope holds is told by its history. The slots are given in order, and none is given
twice. A name is bound exactly if it was added at a level that is still open, and only then
it is refused. A level that is closed tells how many variables were added at it, and leaves
everything bound as it was before the level was opened. -/
theorem history_exact (requests : List ScopeRequest) :
    let events := ({} : Scope).events requests
    let scope := ({} : Scope).after requests
    let slots := ScopeEvent.slots events
    (slots = List.range slots.length ∧ scope.count = slots.length ∧
      scope.highest = slots.getLastD 0) ∧
    (scope.levels.flatten.Nodup ∧
      ∀ name, (∃ held, scope.get? name = some held) ↔ ∃ level ∈ scope.levels, name ∈ level) ∧
    (∀ name held, scope.get? name = some held ↔
      ∃ above, Since events ⟨.add name held.type, .added held.slot⟩ above) ∧
    (∀ name held, scope.get? name = some held → held.slot < scope.count ∧
      ∀ other held', scope.get? other = some held' → held.slot = held'.slot → name = other) ∧
    (∀ name type,
      ((scope.perform (.add name type)).1 = .refused ↔ ∃ level ∈ scope.levels, name ∈ level) ∧
      ((scope.perform (.add name type)).1 = .refused →
        (scope.perform (.add name type)).2 = scope)) ∧
    (scope.perform .stop = (.outermost, scope) ↔
      ∀ above, ¬ Since events ⟨.start, .opened⟩ above) ∧
    ∀ before body added, requests = before ++ .start :: body →
      LevelRecord.of? ((({} : Scope).after (before ++ [.start])).events body) =
        some { above := 0, added } →
      ∃ closed, scope.perform .stop = (.closed added, closed) ∧
        ∀ name, closed.get? name = (({} : Scope).after before).get? name := by
  intro events scope slots
  have hscope : scope.Consistent := Consistent.new.after requests
  obtain ⟨hslots, hhighest⟩ := slots_events requests
  have hcount : scope.count = slots.length := by
    rw [← List.length_range (n := scope.count)]
    exact congrArg List.length hslots.symm
  refine ⟨⟨?_, hcount, ?_⟩, ⟨hscope.nodup, fun name => hscope.exists_get?_iff⟩, ?_, ?_, ?_, ?_, ?_⟩
  · rw [← hcount]
    exact hslots
  · rw [show slots = _ from hslots, getLastD_range]
    exact hhighest
  · intro name held
    rw [hscope.get?_eq_some_iff_heldAt]
    exact exists_congr fun above => (since_added_iff requests name held above).symm
  · intro name held hname
    refine ⟨hscope.slot_lt _ (hscope.get?_eq_some_iff.mp hname), ?_⟩
    intro other held' hother hslot
    exact hscope.eq_of_slot_eq hname hother hslot
  · intro name type
    exact ⟨perform_add_refused_iff hscope name type, perform_add_of_refused⟩
  · rw [perform_stop_eq_outermost_iff, ← List.length_eq_zero_iff]
    simp only [events, since_opened_iff, Nat.not_lt]
    constructor
    · intro hnone above
      exact Nat.le_trans (Nat.le_of_eq hnone) (Nat.zero_le above)
    · intro hall
      exact Nat.le_zero.mp (hall 0)
  · rintro before body added rfl hrecord
    have hall : scope = (({} : Scope).after before).start.after body := after_append {} before _
    rw [after_concat] at hrecord
    rw [hall]
    exact (Consistent.new.after before).perform_stop hrecord

/-- A level with a name that is refused and a level inside of it. -/
theorem history_exact_nestedLevels :
    LevelRecord.of? ((({} : Scope).after [.add "x" .int, .start]).events
        [.add "x" .string, .add "y" .int, .start, .add "z" .int, .stop, .add "z" .string]) =
      some { above := 0, added := 2 } ∧
    ∃ closed, (({} : Scope).after [.add "x" .int, .start, .add "x" .string, .add "y" .int,
        .start, .add "z" .int, .stop, .add "z" .string]).perform .stop = (.closed 2, closed) ∧
      ∀ name, closed.get? name = (({} : Scope).after [.add "x" .int]).get? name := by
  have hrecord : LevelRecord.of? ((({} : Scope).after [.add "x" .int, .start]).events
      [.add "x" .string, .add "y" .int, .start, .add "z" .int, .stop, .add "z" .string]) =
        some { above := 0, added := 2 } := by
    rfl
  obtain ⟨-, -, -, -, -, -, hclosed⟩ := history_exact [.add "x" .int, .start, .add "x" .string,
    .add "y" .int, .start, .add "z" .int, .stop, .add "z" .string]
  exact ⟨hrecord, hclosed [.add "x" .int] _ 2 rfl hrecord⟩

end Scope

end StoredProc
