import Mathlib.Data.List.Induction
import StoredProc.Proofs.Tree.Places

/-! # Walks and their visitors

Whatever its visitors answer, a walk makes exactly those calls of the uninterrupted walk that
no earlier call rules out: stopping and failing rule out all that follows, pruning at the
opening of a node rules out what is below it and its closing, and pruning at the closing
nothing. So the tree and the visitors determine the calls, and a walk fails exactly if a
visitor does.
-/

namespace StoredProc

variable {σ α : Type}

/-- A call that was made: what the visitor saw, and its answer. -/
structure WalkEvent (α : Type) where
  call : Call
  visit : Visit α
  reply : Reply

namespace WalkEvent

/-- Whether a call that was made rules out a later one. -/
def bars (event : WalkEvent α) (call : Call) : Bool :=
  match event.reply with
  | .next => false
  | .prune => !event.call.after && event.call.place.isPrefixOf call.place
  | .stop | .fail => true

/-- How a walk goes on after calls. -/
def courseOf (log : List (WalkEvent α)) : Course :=
  if log.any (·.reply = .fail) then .failed
  else if log.any (·.reply = .stop) then .stopped
  else .going

/-- Calls that rule out nothing at a place or below. -/
def Clear (log : List (WalkEvent α)) (place : List Nat) : Prop :=
  ∀ event ∈ log, ∀ below after, event.bars ⟨place ++ below, after⟩ = false

/-- A walk goes on exactly if no answer has failed or stopped it. -/
theorem courseOf_eq_going_iff {log : List (WalkEvent α)} :
    courseOf log = .going ↔ ∀ event ∈ log, event.reply ≠ .fail ∧ event.reply ≠ .stop := by
  unfold courseOf
  split
  next h =>
    simp only [List.any_eq_true, decide_eq_true_eq] at h
    obtain ⟨event, hmem, hreply⟩ := h
    simp only [reduceCtorEq, false_iff]
    exact fun hall => (hall event hmem).1 hreply
  next hfail =>
    simp only [List.any_eq_true, decide_eq_true_eq, not_exists, not_and] at hfail
    split
    next h =>
      simp only [List.any_eq_true, decide_eq_true_eq] at h
      obtain ⟨event, hmem, hreply⟩ := h
      simp only [reduceCtorEq, false_iff]
      exact fun hall => (hall event hmem).2 hreply
    next hstop =>
      simp only [List.any_eq_true, decide_eq_true_eq, not_exists, not_and] at hstop
      simp only [true_iff]
      exact fun event hmem => ⟨hfail event hmem, hstop event hmem⟩

/-- After a call that goes on, the walk goes on as the new answer says. -/
theorem courseOf_concat {log : List (WalkEvent α)} (hgoing : courseOf log = .going)
    (event : WalkEvent α) : courseOf (log ++ [event]) = Outline.closing event.reply := by
  rw [courseOf_eq_going_iff] at hgoing
  have hfail : log.any (·.reply = .fail) = false := by
    simpa using fun event hmem => (hgoing event hmem).1
  have hstop : log.any (·.reply = .stop) = false := by
    simpa using fun event hmem => (hgoing event hmem).2
  rw [courseOf, List.any_append, List.any_append, hfail, hstop]
  cases hreply : event.reply <;> simp [hreply, Outline.closing]

/-- Calls that rule out nothing let the walk go on. -/
theorem Clear.courseOf_eq {log : List (WalkEvent α)} {place : List Nat} (h : Clear log place) :
    courseOf log = .going := by
  rw [courseOf_eq_going_iff]
  intro event hmem
  have hbars := h event hmem [] false
  constructor <;> intro hreply <;> simp [bars, hreply] at hbars

/-- A call that lets the walk go on rules out at most what is below its place. -/
theorem bars_eq_false {event : WalkEvent α} (hfail : event.reply ≠ .fail)
    (hstop : event.reply ≠ .stop) {call : Call} (hplace : ¬event.call.place <+: call.place) :
    event.bars call = false := by
  unfold bars
  split
  · rfl
  · rw [Bool.and_eq_false_iff]
    exact .inr (by rwa [← Bool.not_eq_true, List.isPrefixOf_iff_prefix])
  next h => exact absurd h hstop
  next h => exact absurd h hfail

/-- A walk that has ended makes no more calls. -/
theorem any_bars_of_courseOf {log : List (WalkEvent α)} (h : courseOf log ≠ .going) (call : Call) :
    log.any (·.bars call) = true := by
  rw [ne_eq, courseOf_eq_going_iff] at h
  push Not at h
  obtain ⟨event, hmem, hreply⟩ := h
  rw [List.any_eq_true]
  refine ⟨event, hmem, ?_⟩
  unfold bars
  split
  next hnext => simp [hnext] at hreply
  next hprune => simp [hprune] at hreply
  next => rfl
  next => rfl

/-- A call that lets the walk go on without pruning rules out nothing. -/
theorem Clear.concat {log : List (WalkEvent α)} {place : List Nat} (h : Clear log place)
    {event : WalkEvent α} (hreply : event.reply = .next) : Clear (log ++ [event]) place := by
  intro found hfound below after
  rcases List.mem_append.mp hfound with hfound | hfound
  · exact h found hfound below after
  · rw [List.mem_singleton.mp hfound, bars, hreply]

/-- An opening call that prunes or ends the walk rules out all other calls at its place and
below. -/
theorem any_bars_of_opening (log : List (WalkEvent α)) {place : List Nat} (visit : Visit α)
    {reply : Reply} (hreply : reply ≠ .next) {call : Call} (hplace : place <+: call.place) :
    (log ++ [(⟨⟨place, false⟩, visit, reply⟩ : WalkEvent α)]).any (·.bars call) = true := by
  rw [List.any_append, Bool.or_eq_true]
  refine .inr ?_
  cases reply with
  | next => exact absurd rfl hreply
  | prune => simpa [bars] using hplace
  | stop | fail => simp [bars]

end WalkEvent

open WalkEvent

/-! ## The walk as a run over the calls of the tree -/

namespace Outline

/-- Make a call unless there is no visitor for it or an earlier call rules it out. -/
def advance (before after : Option (Visitor σ α)) (reached : σ × List (WalkEvent α))
    (next : Call × Visit α) : σ × List (WalkEvent α) :=
  match next.1.select before after with
  | none => reached
  | some visitor =>
    if reached.2.any (·.bars next.1) then reached
    else
      let (state, reply) := visitor reached.1 next.2
      (state, reached.2 ++ [⟨next.1, next.2, reply⟩])

/-- Make those of some calls that are not ruled out. -/
def follow (before after : Option (Visitor σ α)) (calls : List (Call × Visit α))
    (reached : σ × List (WalkEvent α)) : σ × List (WalkEvent α) :=
  calls.foldl (advance before after) reached

/-- How a walk has ended after calls. -/
def ending (reached : σ × List (WalkEvent α)) : σ × Course := (reached.1, courseOf reached.2)

variable {before after : Option (Visitor σ α)}

theorem follow_cons (next : Call × Visit α) (rest : List (Call × Visit α))
    (reached : σ × List (WalkEvent α)) :
    follow before after (next :: rest) reached =
      follow before after rest (advance before after reached next) :=
  rfl

theorem follow_append (calls rest : List (Call × Visit α)) (reached : σ × List (WalkEvent α)) :
    follow before after (calls ++ rest) reached =
      follow before after rest (follow before after calls reached) :=
  List.foldl_append

/-- A call is left out, or made and added to the log. -/
theorem advance_cases (before after : Option (Visitor σ α)) (reached : σ × List (WalkEvent α))
    (next : Call × Visit α) :
    (advance before after reached next = reached ∧
      (next.1.select before after = none ∨ reached.2.any (·.bars next.1) = true)) ∨
    ∃ visitor, next.1.select before after = some visitor ∧
      reached.2.any (·.bars next.1) = false ∧
      advance before after reached next = ((visitor reached.1 next.2).1,
        reached.2 ++ [⟨next.1, next.2, (visitor reached.1 next.2).2⟩]) := by
  unfold advance
  split
  next hnone => exact .inl ⟨rfl, .inl hnone⟩
  next visitor hsome =>
    split
    next hbars => exact .inl ⟨rfl, .inr hbars⟩
    next hbars => exact .inr ⟨visitor, hsome, by simpa using hbars, rfl⟩

/-- Calls that are all ruled out leave everything as it was. -/
theorem follow_of_bars {reached : σ × List (WalkEvent α)} {calls : List (Call × Visit α)}
    (h : ∀ next ∈ calls, reached.2.any (·.bars next.1) = true) :
    follow before after calls reached = reached := by
  induction calls with
  | nil => rfl
  | cons next rest ih =>
      rw [List.forall_mem_cons] at h
      obtain ⟨hstep, -⟩ | ⟨_, -, hbars, -⟩ := advance_cases before after reached next
      · rw [follow_cons, hstep, ih h.2]
      · rw [h.1] at hbars
        cases hbars

/-- A walk that has ended makes no more calls. -/
theorem follow_of_courseOf {reached : σ × List (WalkEvent α)} (h : courseOf reached.2 ≠ .going)
    (calls : List (Call × Visit α)) : follow before after calls reached = reached :=
  follow_of_bars fun next _ => any_bars_of_courseOf h next.1

/-- A call that is made is the next one, or was made before. -/
theorem mem_advance {reached : σ × List (WalkEvent α)} {next : Call × Visit α}
    {event : WalkEvent α} (h : event ∈ (advance before after reached next).2) :
    event ∈ reached.2 ∨ (event.call, event.visit) = next := by
  obtain ⟨hstep, -⟩ | ⟨visitor, -, -, hstep⟩ := advance_cases before after reached next
  · rw [hstep] at h
    exact .inl h
  · rw [hstep] at h
    rcases List.mem_append.mp h with h | h
    · exact .inl h
    · rw [List.mem_singleton.mp h]
      exact .inr rfl

/-- No call is made but those that were given. -/
theorem mem_follow {reached : σ × List (WalkEvent α)} {calls : List (Call × Visit α)}
    {event : WalkEvent α} (h : event ∈ (follow before after calls reached).2) :
    event ∈ reached.2 ∨ (event.call, event.visit) ∈ calls := by
  induction calls generalizing reached with
  | nil => exact .inl h
  | cons next rest ih =>
      rcases ih h with h | h
      · rcases mem_advance h with h | h
        · exact .inl h
        · exact .inr (h ▸ List.mem_cons_self)
      · exact .inr (List.mem_cons_of_mem _ h)

theorem advance_of_eq_none {reached : σ × List (WalkEvent α)} {next : Call × Visit α}
    (h : next.1.select before after = none) : advance before after reached next = reached := by
  rw [advance, h]

/-- A call that nothing rules out is made. -/
theorem advance_of_eq_some {state : σ} {log : List (WalkEvent α)} {next : Call × Visit α}
    (visitor : Visitor σ α) (h : next.1.select before after = some visitor)
    (hbars : log.any (·.bars next.1) = false) :
    advance before after (state, log) next =
      ((visitor state next.2).1, log ++ [⟨next.1, next.2, (visitor state next.2).2⟩]) := by
  rw [advance, h]
  exact if_neg (by simp [hbars])

/-- The closing call of a node, when its children are done. -/
theorem closing_eq {label : α} {parent : Option α} {chain : List (Option α)} {place : List Nat}
    {state : σ} {log : List (WalkEvent α)} (hcourse : courseOf log = .going)
    (hbars : log.any (·.bars ⟨place, true⟩) = false) :
    ((call after state ⟨label, parent, chain, true⟩).1,
        closing (call after state ⟨label, parent, chain, true⟩).2) =
      ending (follow before after [callAt place label parent chain true] (state, log)) := by
  rw [follow_cons, follow, List.foldl_nil, ending]
  cases after with
  | none =>
      rw [advance_of_eq_none rfl, hcourse]
      rfl
  | some visitor =>
      rw [advance_of_eq_some visitor rfl hbars, courseOf_concat hcourse]
      rfl

/-- The calls below a node that was opened do not rule out its closing, unless they end the
walk. -/
theorem any_bars_closing {label : α} {children : List (Outline α)} {chain : List (Option α)}
    {place : List Nat} {state : σ} {log : List (WalkEvent α)} (hclear : Clear log place)
    (hcourse : courseOf (follow before after (callsFrom place 0 (some label) chain children)
      (state, log)).2 = .going) :
    (follow before after (callsFrom place 0 (some label) chain children) (state, log)).2.any
      (·.bars ⟨place, true⟩) = false := by
  rw [List.any_eq_false]
  intro event hevent
  rw [Bool.not_eq_true]
  rcases mem_follow hevent with hold | hnew
  · simpa using hclear event hold [] true
  · obtain ⟨hfail, hstop⟩ := courseOf_eq_going_iff.mp hcourse event hevent
    obtain ⟨i, below, -, hplace⟩ := exists_place_of_mem_callsFrom hnew
    apply bars_eq_false hfail hstop
    intro hprefix
    have hlength := hprefix.length_le
    rw [hplace, List.length_append, List.length_cons] at hlength
    dsimp only at hlength
    omega

/-- The calls of a child rule out none of those of a later child, unless they end the walk. -/
theorem clear_later {child : Outline α} {parent : Option α} {chain : List (Option α)}
    {place : List Nat} {index : Nat} {state : σ} {log : List (WalkEvent α)}
    (hclear : ∀ i, index ≤ i → Clear log (place ++ [i]))
    (hcourse : courseOf (follow before after (child.calls (place ++ [index]) parent chain)
      (state, log)).2 = .going) {i : Nat} (hi : index + 1 ≤ i) :
    Clear (follow before after (child.calls (place ++ [index]) parent chain) (state, log)).2
      (place ++ [i]) := by
  intro event hevent below after'
  rcases mem_follow hevent with hold | hnew
  · exact hclear i (by omega) event hold below after'
  · obtain ⟨hfail, hstop⟩ := courseOf_eq_going_iff.mp hcourse event hevent
    obtain ⟨rest, hrest⟩ := prefix_of_mem_calls child hnew
    apply bars_eq_false hfail hstop
    dsimp only at hrest ⊢
    rw [← hrest, List.append_assoc, List.append_assoc, List.prefix_append_right_inj]
    intro hprefix
    have hfirst := (List.cons_prefix_cons.mp hprefix).1
    omega

/-- The walk over children makes their calls one after the other, if the walk over each child
does. -/
theorem walkAll_eq_ending {children : List (Outline α)} {parent : Option α}
    {chain : List (Option α)} {place : List Nat} {index : Nat} {state : σ}
    {log : List (WalkEvent α)}
    (hwalk : ∀ child ∈ children, ∀ place state (log : List (WalkEvent α)), Clear log place →
      child.walk before after parent chain state =
        ending (follow before after (child.calls place parent chain) (state, log)))
    (hclear : ∀ i, index ≤ i → Clear log (place ++ [i])) (hgoing : courseOf log = .going) :
    walkAll before after parent chain state children =
      ending (follow before after (callsFrom place index parent chain children) (state, log)) := by
  induction children generalizing index state log with
  | nil =>
      rw [walkAll, callsFrom, follow, List.foldl_nil, ending, hgoing]
  | cons child rest ih =>
      rw [List.forall_mem_cons] at hwalk
      rw [walkAll, callsFrom, follow_append, hwalk.1 _ _ _ (hclear index (Nat.le_refl index))]
      have hlater : ∀ i, courseOf (follow before after (child.calls (place ++ [index]) parent chain)
          (state, log)).2 = .going → index + 1 ≤ i →
          Clear (follow before after (child.calls (place ++ [index]) parent chain) (state, log)).2
            (place ++ [i]) :=
        fun _ hgoing => clear_later hclear hgoing
      generalize follow before after (child.calls (place ++ [index]) parent chain) (state, log) =
        reached at hlater ⊢
      obtain ⟨state', log'⟩ := reached
      cases hcourse : courseOf log' with
      | going =>
          simp only [ending, hcourse]
          exact ih hwalk.2 (fun i => hlater i hcourse) hcourse
      | stopped | failed =>
          rw [follow_of_courseOf (by simp [hcourse])]
          simp only [ending, hcourse]

/-- What follows once a node is opened and the walk goes on. -/
theorem walk_opened_eq {label : α} {children : List (Outline α)} {parent : Option α}
    {chain : List (Option α)} {place : List Nat} {state : σ} {log : List (WalkEvent α)}
    (hwalk : ∀ child ∈ children, ∀ place state (log : List (WalkEvent α)), Clear log place →
      child.walk before after (some label) chain state =
        ending (follow before after (child.calls place (some label) chain) (state, log)))
    (hclear : Clear log place) :
    (match walkAll before after (some label) chain state children with
      | (state, .going) =>
        let (state, reply) := call after state ⟨label, parent, chain, true⟩
        (state, closing reply)
      | ended => ended) =
      ending (follow before after (callsFrom place 0 (some label) chain children ++
        [callAt place label parent chain true]) (state, log)) := by
  have hbelow : ∀ i, 0 ≤ i → Clear log (place ++ [i]) := by
    intro i _ event hevent below after
    rw [List.append_assoc]
    exact hclear event hevent _ after
  rw [walkAll_eq_ending hwalk hbelow hclear.courseOf_eq, follow_append]
  have hbars : courseOf (follow before after (callsFrom place 0 (some label) chain children)
      (state, log)).2 = .going →
      (follow before after (callsFrom place 0 (some label) chain children) (state, log)).2.any
        (·.bars ⟨place, true⟩) = false :=
    any_bars_closing hclear
  generalize follow before after (callsFrom place 0 (some label) chain children) (state, log) =
    reached at hbars ⊢
  obtain ⟨state', log'⟩ := reached
  cases hcourse : courseOf log' with
  | going =>
      rw [← closing_eq hcourse (hbars hcourse)]
      simp only [ending, hcourse]
  | stopped | failed =>
      rw [follow_of_courseOf (by simp [hcourse])]
      simp only [ending, hcourse]

/-- A walk makes the calls of its tree that are not ruled out, in their order. -/
theorem walk_eq_ending (tree : Outline α) {parent : Option α} {chain : List (Option α)}
    {place : List Nat} {state : σ} {log : List (WalkEvent α)} (hclear : Clear log place) :
    tree.walk before after parent chain state =
      ending (follow before after (tree.calls place parent chain) (state, log)) := by
  induction tree using Outline.induction generalizing parent chain place state log with
  | h label children ih =>
      have hwalk : ∀ child ∈ children, ∀ place state (log : List (WalkEvent α)), Clear log place →
          child.walk before after (some label) (chain ++ [parent]) state =
            ending (follow before after (child.calls place (some label) (chain ++ [parent]))
              (state, log)) :=
        fun child hchild _ _ _ => ih child hchild
      have hbars : log.any (·.bars ⟨place, false⟩) = false := by
        rw [List.any_eq_false]
        intro event hevent
        simpa using hclear event hevent [] false
      rw [walk, calls, List.cons_append, follow_cons]
      cases before with
      | none =>
          rw [advance_of_eq_none rfl]
          exact walk_opened_eq hwalk hclear
      | some visitor =>
          rw [advance_of_eq_some visitor rfl hbars]
          have hbelow : ∀ next ∈ callsFrom place 0 (some label) (chain ++ [parent]) children ++
              [callAt place label parent (chain ++ [parent]) true], place <+: next.1.place :=
            fun next hnext => prefix_of_mem_calls (.node label children)
              (List.mem_cons_of_mem (callAt place label parent (chain ++ [parent]) false) hnext)
          have hcall : call (some visitor) state ⟨label, parent, chain ++ [parent], false⟩ =
              visitor state (callAt place label parent (chain ++ [parent]) false).2 := rfl
          rw [hcall]
          obtain ⟨state', reply⟩ :=
            visitor state (callAt place label parent (chain ++ [parent]) false).2
          cases reply with
          | next => exact walk_opened_eq hwalk (hclear.concat rfl)
          | prune | stop | fail =>
              dsimp only
              rw [follow_of_bars fun next hnext =>
                any_bars_of_opening log _ (by simp) (hbelow next hnext), ending,
                courseOf_concat hclear.courseOf_eq]
              rfl

/-- The walk over a tree makes those of its calls that are not ruled out. -/
theorem walk_root (tree : Outline α) (state : σ) :
    tree.walk before after none [] state =
      ending (follow before after (tree.calls [] none []) (state, [])) := by
  apply walk_eq_ending
  intro event hevent
  cases hevent

theorem follow_concat (calls : List (Call × Visit α)) (next : Call × Visit α)
    (reached : σ × List (WalkEvent α)) :
    follow before after (calls ++ [next]) reached =
      advance before after (follow before after calls reached) next :=
  follow_append ..

/-- The calls that are made are some of the calls, in their order. -/
theorem sublist_follow (calls : List (Call × Visit α)) (state : σ) :
    ((follow before after calls (state, [])).2.map fun event => (event.call, event.visit)).Sublist
      calls := by
  induction calls using List.reverseRecOn with
  | nil => exact .slnil
  | append_singleton calls next ih =>
      rw [follow_concat]
      obtain ⟨hstep, -⟩ | ⟨visitor, -, -, hstep⟩ := advance_cases before after
        (follow before after calls (state, [])) next
      · rw [hstep]
        exact ih.trans (List.sublist_append_left ..)
      · rw [hstep, List.map_append]
        exact ih.append_right _

/-- A call is made exactly if no earlier call rules it out. -/
theorem exists_mem_follow_iff {calls : List (Call × Visit α)} (state : σ)
    (hordered : calls.Pairwise fun first second => first.1.Before second.1) :
    ∀ next ∈ calls, (next.1.select before after).isSome →
      ((∃ event ∈ (follow before after calls (state, [])).2, event.call = next.1) ↔
        ∀ event ∈ (follow before after calls (state, [])).2, event.call.Before next.1 →
          event.bars next.1 = false) := by
  induction calls using List.reverseRecOn with
  | nil => simp
  | append_singleton calls last ih =>
      rw [List.pairwise_append] at hordered
      obtain ⟨hcalls, -, hlast⟩ := hordered
      have hlast : ∀ made ∈ calls, made.1.Before last.1 := fun made hmade =>
        hlast made hmade last (List.mem_singleton_self last)
      have hbefore : ∀ event ∈ (follow before after calls (state, [])).2,
          event.call.Before last.1 := by
        intro event hevent
        rcases mem_follow hevent with hnil | hmem
        · cases hnil
        · exact hlast _ hmem
      rw [follow_concat]
      intro next hnext hsome
      obtain ⟨hstep, hcause⟩ | ⟨visitor, -, hbars, hstep⟩ := advance_cases before after
        (follow before after calls (state, [])) last
      · rw [hstep]
        rcases List.mem_append.mp hnext with hnext | hnext
        · exact ih hcalls next hnext hsome
        · obtain rfl := List.mem_singleton.mp hnext
          rcases hcause with hnone | hbars
          · rw [hnone] at hsome
            cases hsome
          · obtain ⟨barring, hbarring, hbars⟩ := List.any_eq_true.mp hbars
            constructor
            · rintro ⟨event, hevent, heq⟩
              exact absurd heq (hbefore event hevent).ne
            · intro hall
              rw [hall barring hbarring (hbefore barring hbarring)] at hbars
              cases hbars
      · rw [hstep]
        rcases List.mem_append.mp hnext with hnext | hnext
        · -- The new call comes later, so nothing changes for this one.
          have hlater := hlast next hnext
          have hih := ih hcalls next hnext hsome
          constructor
          · rintro ⟨event, hevent, heq⟩ other hother hother'
            rcases List.mem_append.mp hevent with hevent | hevent
            · rcases List.mem_append.mp hother with hother | hother
              · exact hih.mp ⟨event, hevent, heq⟩ other hother hother'
              · rw [List.mem_singleton.mp hother] at hother'
                exact absurd hother' hlater.asymm
            · rw [List.mem_singleton.mp hevent] at heq
              exact absurd heq.symm hlater.ne
          · intro hall
            obtain ⟨event, hevent, heq⟩ := hih.mpr fun event hevent =>
              hall event (List.mem_append_left _ hevent)
            exact ⟨event, List.mem_append_left _ hevent, heq⟩
        · obtain rfl := List.mem_singleton.mp hnext
          constructor
          · rintro - event hevent hearlier
            rcases List.mem_append.mp hevent with hevent | hevent
            · simpa using List.any_eq_false.mp hbars event hevent
            · rw [List.mem_singleton.mp hevent] at hearlier
              exact absurd rfl hearlier.ne
          · exact fun _ => ⟨_, List.mem_append_right _ (List.mem_singleton_self _), rfl⟩

end Outline

/-! ## The walk that a tree and handlers determine -/

/-- A handler answers by the calls seen so far and the call that is made. -/
abbrev Handler (α : Type) := List (Visit α) → Visit α → Reply

/-- The visitor that keeps what it has seen and answers as a handler says. -/
def recording (handler : Handler α) : Visitor (List (Visit α)) α :=
  fun seen visit => (seen ++ [visit], handler seen visit)

/-- The calls of a walk with handlers, and their answers. -/
structure Node.Traversal (label : Node → α) (before after : Option (Handler α)) (root : Node)
    (log : List (WalkEvent α)) : Prop where
  /-- The calls are made in the order of the tree. -/
  ordered : log.Pairwise fun first second => first.call.Before second.call
  /-- At each call the handler sees the node at a place of the tree, and the nodes above. -/
  seen : ∀ event ∈ log, root.visit? label event.call = some event.visit
  /-- It answers by what was seen before. -/
  replies : ∀ earlier event later, log = earlier ++ event :: later →
    ∃ handler, event.call.select before after = some handler ∧
      event.reply = handler (earlier.map (·.visit)) event.visit
  /-- A call of the tree is made unless an earlier one rules it out. -/
  made : ∀ call, (root.at? call.place).isSome → (call.select before after).isSome →
    ((∃ event ∈ log, event.call = call) ↔
      ∀ event ∈ log, event.call.Before call → event.bars call = false)

theorem Call.select_map {β γ : Type} (f : β → γ) (before after : Option β) (call : Call) :
    call.select (before.map f) (after.map f) = (call.select before after).map f := by
  unfold select
  split <;> rfl

section Recording

variable (before after : Option (Handler α))

/-- Recording visitors have seen the calls that were made. -/
theorem fst_follow_recording (calls : List (Call × Visit α)) :
    (Outline.follow (before.map recording) (after.map recording) calls ([], [])).1 =
      (Outline.follow (before.map recording) (after.map recording) calls ([], [])).2.map
        (·.visit) := by
  induction calls using List.reverseRecOn with
  | nil => rfl
  | append_singleton calls next ih =>
      rw [Outline.follow_concat]
      obtain ⟨hstep, -⟩ | ⟨visitor, hvisitor, -, hstep⟩ := Outline.advance_cases
        (before.map recording) (after.map recording)
        (Outline.follow (before.map recording) (after.map recording) calls ([], [])) next
      · rw [hstep, ih]
      · rw [Call.select_map, Option.map_eq_some_iff] at hvisitor
        obtain ⟨handler, -, rfl⟩ := hvisitor
        rw [hstep, List.map_append, ← ih]
        rfl

/-- Every answer is that of the handler to what was seen before. -/
theorem replies_follow_recording (calls : List (Call × Visit α)) :
    ∀ earlier event later,
      (Outline.follow (before.map recording) (after.map recording) calls ([], [])).2 =
        earlier ++ event :: later →
      ∃ handler, event.call.select before after = some handler ∧
        event.reply = handler (earlier.map (·.visit)) event.visit := by
  induction calls using List.reverseRecOn with
  | nil =>
      intro earlier event later h
      cases earlier <;> cases h
  | append_singleton calls next ih =>
      rw [Outline.follow_concat]
      have hseen := fst_follow_recording before after calls
      obtain ⟨hstep, -⟩ | ⟨visitor, hvisitor, -, hstep⟩ := Outline.advance_cases
        (before.map recording) (after.map recording)
        (Outline.follow (before.map recording) (after.map recording) calls ([], [])) next
      · rw [hstep]
        exact ih
      · rw [Call.select_map, Option.map_eq_some_iff] at hvisitor
        obtain ⟨handler, hhandler, rfl⟩ := hvisitor
        rw [hstep]
        intro earlier event later h
        rcases List.eq_nil_or_concat' later with rfl | ⟨later, last, rfl⟩
        · obtain ⟨hearlier, hevent⟩ := List.append_inj' h rfl
          cases hevent
          rw [← hearlier, ← hseen]
          exact ⟨handler, hhandler, rfl⟩
        · rw [← List.cons_append, ← List.append_assoc] at h
          exact ih earlier event later (List.append_inj' h rfl).1

/-- A walk with recording visitors makes the calls that its tree and handlers determine. -/
theorem Node.traversal_follow (label : Node → α) (root : Node) :
    root.Traversal label before after (Outline.follow (before.map recording)
      (after.map recording) ((root.outline.map label).calls [] none []) ([], [])).2 := by
  have hordered := (root.outline.map label).pairwise_calls [] none []
  refine ⟨?_, ?_, replies_follow_recording before after _, ?_⟩
  · have hsublist := List.Pairwise.sublist (@Outline.sublist_follow _ _
      (before.map recording) (after.map recording) ((root.outline.map label).calls [] none []) [])
      hordered
    rwa [List.pairwise_map] at hsublist
  · intro event hevent
    rcases Outline.mem_follow hevent with hnil | hmem
    · cases hnil
    · exact mem_calls_root.mp hmem
  · intro call hplace hhandler
    obtain ⟨node, hnode⟩ := Option.isSome_iff_exists.mp hplace
    have hvisit : root.visit? label call =
        some (visitBelow label none [] node (root.above call.place) call.after) := by
      rw [visit?, hnode, Option.map_some]
    refine Outline.exists_mem_follow_iff [] hordered (call, _) (mem_calls_root.mpr hvisit) ?_
    rwa [Call.select_map, Option.isSome_map]

end Recording

namespace Node.Traversal

variable {label : Node → α} {before after : Option (Handler α)} {root : Node}
  {log other : List (WalkEvent α)}

/-- What comes first in one log is not missing in another that agrees with it before. -/
theorem not_missing (h : root.Traversal label before after log)
    (h' : root.Traversal label before after other) {shared rest rest' : List (WalkEvent α)}
    {event : WalkEvent α} (hlog : log = shared ++ event :: rest) (hother : other = shared ++ rest')
    (hfirst : ∀ later ∈ rest', event.call.Before later.call) : False := by
  obtain ⟨handler, hhandler, -⟩ := h.replies shared event rest hlog
  have hmem : event ∈ log := by
    rw [hlog]
    simp
  have hplace : (root.at? event.call.place).isSome := by
    have hseen := h.seen event hmem
    obtain ⟨node, hnode, -⟩ := Option.map_eq_some_iff.mp hseen
    exact Option.isSome_iff_exists.mpr ⟨node, hnode⟩
  have hshared : ∀ earlier ∈ shared, earlier.call.Before event.call := by
    intro earlier hearlier
    have hordered := h.ordered
    rw [hlog, List.pairwise_append] at hordered
    exact hordered.2.2 earlier hearlier event List.mem_cons_self
  obtain ⟨same, hsame, heq⟩ := (h'.made event.call hplace (by rw [hhandler]; rfl)).mpr (by
    intro earlier hearlier hbefore
    rw [hother, List.mem_append] at hearlier
    rcases hearlier with hearlier | hearlier
    · have hmade := (h.made event.call hplace (by rw [hhandler]; rfl)).mp ⟨event, hmem, rfl⟩
      exact hmade earlier (by rw [hlog]; exact List.mem_append_left _ hearlier) hbefore
    · exact absurd hbefore (hfirst earlier hearlier).asymm)
  rw [hother, List.mem_append] at hsame
  rcases hsame with hsame | hsame
  · exact (hshared same hsame).ne heq
  · exact (hfirst same hsame).ne heq.symm

/-- The tree and the handlers determine the calls and the answers. -/
theorem unique (h : root.Traversal label before after log)
    (h' : root.Traversal label before after other) : log = other := by
  have hrest : ∀ rest rest' shared : List (WalkEvent α), log = shared ++ rest →
      other = shared ++ rest' → rest = rest' := by
    intro rest
    induction rest with
    | nil =>
        intro rest' shared hlog hother
        cases rest' with
        | nil => rfl
        | cons event' rest' => exact (h'.not_missing h hother hlog (by simp)).elim
    | cons event rest ih =>
        intro rest' shared hlog hother
        cases rest' with
        | nil => exact (h.not_missing h' hlog hother (by simp)).elim
        | cons event' rest' =>
            have hordered := h.ordered
            have hordered' := h'.ordered
            rw [hlog, List.pairwise_append, List.pairwise_cons] at hordered
            rw [hother, List.pairwise_append, List.pairwise_cons] at hordered'
            obtain hbefore | heq | hbefore := Call.before_trichotomy event.call event'.call
            · refine (h.not_missing h' hlog hother (List.forall_mem_cons.mpr ⟨hbefore, ?_⟩)).elim
              exact fun later hlater => hbefore.trans (hordered'.2.1.1 later hlater)
            · have hsame : event = event' := by
                obtain ⟨handler, hhandler, hreply⟩ := h.replies shared event rest hlog
                obtain ⟨handler', hhandler', hreply'⟩ := h'.replies shared event' rest' hother
                have hvisit := h.seen event (by rw [hlog]; simp)
                have hvisit' := h'.seen event' (by rw [hother]; simp)
                obtain ⟨call, visit, reply⟩ := event
                obtain ⟨call', visit', reply'⟩ := event'
                dsimp only at *
                subst heq
                rw [hhandler'] at hhandler
                rw [hvisit'] at hvisit
                cases hhandler
                cases hvisit
                rw [hreply, hreply']
              subst hsame
              rw [ih rest' (shared ++ [event]) (by simpa using hlog) (by simpa using hother)]
            · refine (h'.not_missing h hother hlog (List.forall_mem_cons.mpr ⟨hbefore, ?_⟩)).elim
              exact fun later hlater => hbefore.trans (hordered.2.1.1 later hlater)
  exact hrest log other [] rfl rfl

end Node.Traversal

/-! ## Counting -/

/-- A visitor that counts its calls is called once for every node. -/
theorem Outline.follow_counter (calls : List (Call × Visit α)) :
    (follow (some counter) none calls (0, [])).1 = (calls.filter (!·.1.after)).length ∧
      ∀ event ∈ (follow (some counter) none calls (0, [])).2, event.reply = .next := by
  induction calls using List.reverseRecOn with
  | nil => exact ⟨rfl, by simp [follow]⟩
  | append_singleton calls next ih =>
      obtain ⟨hcount, hreplies⟩ := ih
      rw [follow_concat, List.filter_append, List.length_append, ← hcount]
      generalize follow (some counter) none calls (0, []) = reached at hreplies ⊢
      have hbars : reached.2.any (·.bars next.1) = false := by
        rw [List.any_eq_false]
        intro event hevent
        simp [bars, hreplies event hevent]
      obtain ⟨⟨place, after⟩, visit⟩ := next
      cases after with
      | false =>
          rw [advance_of_eq_some counter rfl hbars]
          refine ⟨rfl, ?_⟩
          intro event hevent
          rcases List.mem_append.mp hevent with hevent | hevent
          · exact hreplies event hevent
          · rw [List.mem_singleton.mp hevent]
            rfl
      | true =>
          rw [advance_of_eq_none rfl]
          exact ⟨rfl, hreplies⟩

/-- The size of a tree is the number of its places. -/
theorem Node.exists_places (label : Node → α) (root : Node) :
    ∃ places : List (List Nat), places.Nodup ∧
      (∀ place, place ∈ places ↔ (root.at? place).isSome) ∧
      (root.outline.map label).size = places.length := by
  have hordered := (root.outline.map label).pairwise_calls [] none []
  refine ⟨(((root.outline.map label).calls [] none []).filter (!·.1.after)).map (·.1.place),
    ?_, ?_, ?_⟩
  · rw [List.Nodup, List.pairwise_map]
    refine (hordered.filter _).imp_of_mem ?_
    intro first second hfirst hsecond hbefore heq
    have hafter : first.1.after = false := by simpa using (List.mem_filter.mp hfirst).2
    have hafter' : second.1.after = false := by simpa using (List.mem_filter.mp hsecond).2
    exact hbefore.ne (by
      obtain ⟨⟨place, after⟩, _⟩ := first
      obtain ⟨⟨place', after'⟩, _⟩ := second
      simp_all)
  · intro place
    simp only [List.mem_map, List.mem_filter, mem_calls_root, visit?, Option.map_eq_some_iff]
    constructor
    · rintro ⟨made, ⟨⟨node, hnode, -⟩, -⟩, rfl⟩
      exact Option.isSome_iff_exists.mpr ⟨node, hnode⟩
    · intro hplace
      obtain ⟨node, hnode⟩ := Option.isSome_iff_exists.mp hplace
      exact ⟨(⟨place, false⟩, visitBelow label none [] node (root.above place) false),
        ⟨⟨node, hnode, rfl⟩, rfl⟩, rfl⟩
  · rw [List.length_map, Outline.size, Outline.walk_root]
    exact (Outline.follow_counter _).1

/-! ## The calls of a walk -/

/-- A walk has failed exactly if an answer has. -/
theorem WalkEvent.courseOf_eq_failed_iff {log : List (WalkEvent α)} :
    courseOf log = .failed ↔ ∃ event ∈ log, event.reply = .fail := by
  unfold courseOf
  split
  next h => simpa using h
  next h =>
    simp only [List.any_eq_true, decide_eq_true_eq] at h
    simp only [h, iff_false]
    split <;> simp

/-- For every tree and any handlers, which answer by the calls seen so far, a walk makes the
calls that the tree and the handlers determine, and no others: in the order of the tree, each
with the node at its place and the chain of the nodes above, and all of them but those that an
earlier call rules out. The chain starts with the missing parent of the root and ends with the
parent. If nothing stops, fails or is pruned when it is opened, all calls of the tree are made.
The walk fails exactly if a handler does, and a walk that counts finds the number of places of
the tree. -/
theorem Node.walk_determined (label : Node → α) (root : Node) (before after : Option (Handler α)) :
    ∃ log, root.Traversal label before after log ∧
      (∀ other, root.Traversal label before after other → other = log) ∧
      ((root.outline.map label).walk (before.map recording) (after.map recording) none [] []).1 =
        log.map (·.visit) ∧
      (∀ event ∈ log, event.visit.chain.head? = some none ∧
        event.visit.chain.getLast? = some event.visit.parent) ∧
      ((∀ event ∈ log, event.reply = .next ∨ event.reply = .prune ∧ event.call.after = true) →
        ∀ call, (root.at? call.place).isSome → (call.select before after).isSome →
          ∃ event ∈ log, event.call = call) ∧
      (((root.outline.map label).walk (before.map recording) (after.map recording)
        none [] []).2 = .failed ↔ ∃ event ∈ log, event.reply = .fail) ∧
      ∃ places : List (List Nat), places.Nodup ∧
        (∀ place, place ∈ places ↔ (root.at? place).isSome) ∧
        (root.outline.map label).size = places.length := by
  have htraversal := root.traversal_follow before after label
  refine ⟨_, htraversal, fun other hother => hother.unique htraversal, ?_, ?_, ?_, ?_,
    root.exists_places label⟩
  · rw [Outline.walk_root]
    exact fst_follow_recording before after _
  · intro event hevent
    obtain ⟨node, -, hvisit⟩ := Option.map_eq_some_iff.mp (htraversal.seen event hevent)
    rw [← hvisit]
    exact ⟨rfl, getLast?_chain_visitBelow ..⟩
  · intro hreplies call hplace hhandler
    refine (htraversal.made call hplace hhandler).mpr fun event hevent _ => ?_
    rcases hreplies event hevent with hnext | ⟨hprune, hafter⟩
    · rw [bars, hnext]
    · rw [bars, hprune]
      simp [hafter]
  · rw [Outline.walk_root]
    exact courseOf_eq_failed_iff

end StoredProc
