import Mathlib.Data.List.Basic
import StoredProc.Tree.Walk

/-! # Places in a tree

A place is the list of the numbers of children that lead to a node from the root. A walk
that nothing interrupts makes two calls for every place. They are ordered by the tree alone:
a node is opened before and closed after everything below it, and children follow one another
in source order.
-/

namespace StoredProc

variable {α : Type}

/-! ## Children -/

namespace Node

/-- The children of a node in source order. -/
def children : Node → List Node
  | function f => f.body.map statement
  | statement (.reference _ _ dots) => dots.map dot
  | statement (.create _ _ _ value) => [expr value]
  | statement (.ret _ value) => value.toList.map expr
  | statement (.ifThen _ condition body) => expr condition :: body.map statement
  | statement (.forIn _ _ iterable body) => expr iterable :: body.map statement
  | expr (.reference _ _ dots) => dots.map dot
  | expr (.string ..) => []
  | expr (.number ..) => []
  | expr (.array _ elements) => elements.map expr
  | expr (.object _ fields) => fields.map fun field => expr field.2
  | expr (.lambda _ _ body) => body.map statement
  | dot (.field ..) => []
  | dot (.method _ _ args) => args.map expr

/-- The node at a place. -/
def at? (root : Node) : List Nat → Option Node
  | [] => some root
  | i :: rest => root.children[i]?.bind (·.at? rest)

/-- The nodes on the way to a place, from the root to the parent. -/
def above (root : Node) : List Nat → List Node
  | [] => []
  | i :: rest => root :: (root.children[i]?.elim [] (·.above rest))

end Node

theorem Expr.outlines_eq_map (exprs : List Expr) :
    Expr.outlines exprs = exprs.map Expr.outline := by
  induction exprs with
  | nil => rfl
  | cons expr rest ih => rw [Expr.outlines, ih, List.map_cons]

theorem Expr.fieldOutlines_eq_map (fields : List (String × Expr)) :
    Expr.fieldOutlines fields = fields.map fun field => field.2.outline := by
  induction fields with
  | nil => rfl
  | cons field rest ih => rw [Expr.fieldOutlines, ih, List.map_cons]

theorem Dot.outlines_eq_map (dots : List Dot) : Dot.outlines dots = dots.map Dot.outline := by
  induction dots with
  | nil => rfl
  | cons dot rest ih => rw [Dot.outlines, ih, List.map_cons]

theorem Statement.outlines_eq_map (statements : List Statement) :
    Statement.outlines statements = statements.map Statement.outline := by
  induction statements with
  | nil => rfl
  | cons statement rest ih => rw [Statement.outlines, ih, List.map_cons]

/-- The outline of a node has the outlines of its children below it. -/
theorem Node.outline_eq (node : Node) :
    node.outline = .node node (node.children.map Node.outline) := by
  cases node with
  | function f =>
      simp [Node.outline, Node.children, Statement.outlines_eq_map, Function.comp_def]
  | statement s =>
      cases s with
      | ret loc value =>
          cases value <;> simp [Node.outline, Node.children, Statement.outline]
      | reference | create | ifThen | forIn =>
          simp [Node.outline, Node.children, Statement.outline, Dot.outlines_eq_map,
            Statement.outlines_eq_map, Function.comp_def]
  | expr e =>
      cases e <;> simp [Node.outline, Node.children, Expr.outline, Dot.outlines_eq_map,
        Expr.outlines_eq_map, Expr.fieldOutlines_eq_map, Statement.outlines_eq_map,
        Function.comp_def]
  | dot d =>
      cases d <;> simp [Node.outline, Node.children, Dot.outline, Expr.outlines_eq_map,
        Function.comp_def]

theorem Outline.mapAll_eq_map {β : Type} (f : α → β) (trees : List (Outline α)) :
    mapAll f trees = trees.map (map f) := by
  induction trees with
  | nil => rfl
  | cons tree rest ih => rw [mapAll, ih, List.map_cons]

theorem Node.map_outline (label : Node → α) (node : Node) :
    node.outline.map label =
      .node (label node) (node.children.map fun child => child.outline.map label) := by
  rw [outline_eq, Outline.map, Outline.mapAll_eq_map, List.map_map]
  rfl

/-- What holds of a tree if it holds of its children holds of every tree. -/
theorem Outline.induction {P : Outline α → Prop}
    (h : ∀ label children, (∀ child ∈ children, P child) → P (.node label children))
    (tree : Outline α) : P tree := by
  refine @Outline.rec α P (fun children => ∀ child ∈ children, P child) ?_ ?_ ?_ tree
  · exact h
  · simp
  · exact fun _ _ hchild hrest => List.forall_mem_cons.mpr ⟨hchild, hrest⟩

/-- What holds of a node whenever it holds of its children holds of all nodes. -/
theorem Node.induction {P : Node → Prop}
    (h : ∀ node, (∀ child ∈ node.children, P child) → P node) (node : Node) : P node := by
  have hall : ∀ tree : Outline Node, ∀ node : Node, node.outline = tree → P node := by
    apply Outline.induction
    intro label children ih node heq
    rw [outline_eq, Outline.node.injEq] at heq
    obtain ⟨-, rfl⟩ := heq
    exact h node fun child hchild => ih child.outline (List.mem_map_of_mem hchild) child rfl
  exact hall node.outline node rfl

/-! ## Calls and their order -/

/-- A call of a visitor: the place of the node it is about, and whether everything below
that node is done. -/
structure Call where
  place : List Nat
  after : Bool
  deriving DecidableEq, Repr

namespace Call

/-- What belongs to a call, of what is given for opening and for closing calls. -/
def select {β : Type} (before after : β) (call : Call) : β := if call.after then after else before

/-- The order of the calls of a walk that nothing interrupts. -/
inductive Before : Call → Call → Prop
  /-- A node is opened before it is closed. -/
  | same (place : List Nat) : Before ⟨place, false⟩ ⟨place, true⟩
  /-- It is opened before any call below it. -/
  | opens (place : List Nat) (i : Nat) (below : List Nat) (after : Bool) :
      Before ⟨place, false⟩ ⟨place ++ i :: below, after⟩
  /-- It is closed after all calls below it. -/
  | closes (place : List Nat) (i : Nat) (below : List Nat) (after : Bool) :
      Before ⟨place ++ i :: below, after⟩ ⟨place, true⟩
  /-- All calls of a child come before those of a later child. -/
  | siblings (place : List Nat) {i j : Nat} (hlt : i < j) (below below' : List Nat)
      (after after' : Bool) :
      Before ⟨place ++ i :: below, after⟩ ⟨place ++ j :: below', after'⟩

/-- A call, seen from the parent of the node where its place starts. -/
def under (i : Nat) (call : Call) : Call := { call with place := i :: call.place }

/-- The order of calls does not depend on where their places start. -/
theorem Before.under {first second : Call} (h : first.Before second) (i : Nat) :
    (first.under i).Before (second.under i) := by
  cases h with
  | same place => exact .same (i :: place)
  | opens place => exact .opens (i :: place) ..
  | closes place => exact .closes (i :: place) ..
  | siblings place hlt => exact .siblings (i :: place) hlt ..

/-- Whether a call comes before another, from the root of both places on. -/
def precedes (after after' : Bool) : List Nat → List Nat → Bool
  | [], [] => !after && after'
  | [], _ :: _ => !after
  | _ :: _, [] => after'
  | i :: place, j :: place' => i < j || (i = j && precedes after after' place place')

@[simp]
theorem precedes_append (after after' : Bool) (place below below' : List Nat) :
    precedes after after' (place ++ below) (place ++ below') =
      precedes after after' below below' := by
  induction place with
  | nil => rfl
  | cons i place ih => simp [precedes, ih]

/-- The order of two calls is decided by their places. -/
theorem before_iff {first second : Call} :
    first.Before second ↔ precedes first.after second.after first.place second.place = true := by
  constructor
  · intro h
    cases h with
    | same place => simpa [precedes] using precedes_append false true place [] []
    | opens place i below after =>
        simpa [precedes] using precedes_append false after place [] (i :: below)
    | closes place i below after =>
        simpa [precedes] using precedes_append after true place (i :: below) []
    | siblings place hlt below below' after after' =>
        rw [precedes_append]
        simp [precedes, hlt]
  · obtain ⟨place, after⟩ := first
    obtain ⟨place', after'⟩ := second
    intro h
    dsimp only at h
    fun_induction precedes after after' place place' with
    | case1 =>
        obtain ⟨rfl, rfl⟩ : after = false ∧ after' = true := by simpa using h
        exact .same []
    | case2 j place' =>
        obtain rfl : after = false := by simpa using h
        exact .opens [] j place' after'
    | case3 i place =>
        obtain rfl : after' = true := h
        exact .closes [] i place after
    | case4 i place j place' ih =>
        simp only [Bool.or_eq_true, decide_eq_true_eq, Bool.and_eq_true] at h
        rcases h with hlt | ⟨rfl, h⟩
        · exact .siblings [] hlt place place' after after'
        · exact (ih h).under i

instance : DecidableRel Before := fun _ _ => decidable_of_iff _ before_iff.symm

/-- Of two calls one at most comes before the other. -/
theorem Before.asymm {first second : Call} (h : first.Before second) : ¬second.Before first := by
  rw [before_iff] at h ⊢
  generalize first.after = after, second.after = after', first.place = place,
    second.place = place' at h
  fun_induction precedes after after' place place' with
  | case1 => simp_all [precedes]
  | case2 => simp_all [precedes]
  | case3 => simp_all [precedes]
  | case4 i place j place' ih =>
      simp only [precedes, Bool.or_eq_true, decide_eq_true_eq, Bool.and_eq_true, not_or,
        not_and] at h ⊢
      rcases h with hlt | ⟨rfl, h⟩
      · exact ⟨by omega, by omega⟩
      · exact ⟨by omega, fun _ => ih h⟩

theorem Before.ne {first second : Call} (h : first.Before second) : first ≠ second := by
  rintro rfl
  exact h.asymm h

/-- The order of calls is transitive. -/
theorem precedes_trans {after after' after'' : Bool} {place place' place'' : List Nat}
    (h : precedes after after' place place' = true)
    (h' : precedes after' after'' place' place'' = true) :
    precedes after after'' place place'' = true := by
  induction place generalizing place' place'' with
  | nil => cases place' <;> cases place'' <;> simp_all [precedes]
  | cons i place ih =>
      cases place' with
      | nil => cases place'' <;> simp_all [precedes]
      | cons j place' =>
          cases place'' with
          | nil => simp_all [precedes]
          | cons k place'' =>
              simp only [precedes, Bool.or_eq_true, decide_eq_true_eq, Bool.and_eq_true] at h h' ⊢
              rcases h with hlt | ⟨rfl, h⟩
              · exact .inl (by omega)
              · rcases h' with hlt | ⟨rfl, h'⟩
                · exact .inl hlt
                · exact .inr ⟨rfl, ih h h'⟩

theorem Before.trans {first second third : Call} (h : first.Before second)
    (h' : second.Before third) : first.Before third :=
  before_iff.mpr (precedes_trans (before_iff.mp h) (before_iff.mp h'))

/-- Of two different calls one comes first. -/
theorem before_trichotomy (first second : Call) :
    first.Before second ∨ first = second ∨ second.Before first := by
  obtain ⟨place, after⟩ := first
  obtain ⟨place', after'⟩ := second
  simp only [before_iff, mk.injEq]
  fun_induction precedes after after' place place' with
  | case1 => cases after <;> cases after' <;> simp [precedes]
  | case2 => cases after <;> simp [precedes]
  | case3 => cases after' <;> simp [precedes]
  | case4 i place j place' ih =>
      simp only [precedes, Bool.or_eq_true, decide_eq_true_eq, Bool.and_eq_true, List.cons.injEq]
      rcases Nat.lt_trichotomy i j with hlt | rfl | hlt
      · exact .inl (.inl hlt)
      · simpa using ih
      · exact .inr (.inr (.inl hlt))

end Call

/-! ## The calls of a tree -/

namespace Outline

/-- A call with what the visitor sees at it. -/
def callAt (place : List Nat) (label : α) (parent : Option α) (chain : List (Option α))
    (after : Bool) : Call × Visit α :=
  (⟨place, after⟩, ⟨label, parent, chain, after⟩)

mutual

/-- The calls of a walk that nothing interrupts, with what the visitor sees at each: the tree
is at a place, below a parent and the nodes of a chain. -/
def calls (place : List Nat) (parent : Option α) (chain : List (Option α)) :
    Outline α → List (Call × Visit α)
  | .node label children =>
    let chain := chain ++ [parent]
    callAt place label parent chain false :: callsFrom place 0 (some label) chain children
      ++ [callAt place label parent chain true]

/-- The calls of the children from one on. -/
def callsFrom (place : List Nat) (index : Nat) (parent : Option α) (chain : List (Option α)) :
    List (Outline α) → List (Call × Visit α)
  | [] => []
  | child :: rest =>
    child.calls (place ++ [index]) parent chain ++ callsFrom place (index + 1) parent chain rest

end

/-- A call among those of the children is a call of one of them, at its place. -/
theorem mem_callsFrom {place : List Nat} {index : Nat} {parent : Option α}
    {chain : List (Option α)} {children : List (Outline α)} {made : Call × Visit α} :
    made ∈ callsFrom place index parent chain children ↔
      ∃ (i : Nat) (child : Outline α), children[i]? = some child ∧
        made ∈ child.calls (place ++ [index + i]) parent chain := by
  induction children generalizing index with
  | nil => simp [callsFrom]
  | cons child rest ih =>
      rw [callsFrom, List.mem_append, ih]
      constructor
      · rintro (h | ⟨i, later, hlater, h⟩)
        · exact ⟨0, child, rfl, h⟩
        · exact ⟨i + 1, later, hlater, by rwa [Nat.add_right_comm] at h⟩
      · rintro ⟨i, found, hfound, h⟩
        cases i with
        | zero =>
            cases hfound
            exact .inl h
        | succ i => exact .inr ⟨i, found, hfound, by rwa [Nat.add_right_comm]⟩

/-- All calls of a tree are at its place or below. -/
theorem prefix_of_mem_calls (tree : Outline α) {place : List Nat} {parent : Option α}
    {chain : List (Option α)} {made : Call × Visit α} (h : made ∈ tree.calls place parent chain) :
    place <+: made.1.place := by
  induction tree using Outline.induction generalizing place parent chain with
  | h label children ih =>
      rw [calls, List.mem_append, List.mem_cons, List.mem_singleton] at h
      rcases h with (rfl | h) | rfl
      · exact List.prefix_rfl
      · obtain ⟨i, child, hchild, h⟩ := mem_callsFrom.mp h
        exact (List.prefix_append ..).trans (ih child (List.mem_of_getElem? hchild) h)
      · exact List.prefix_rfl

/-- A call of the children of a node from one on is below one of them. -/
theorem exists_place_of_mem_callsFrom {place : List Nat} {index : Nat} {parent : Option α}
    {chain : List (Option α)} {children : List (Outline α)} {made : Call × Visit α}
    (h : made ∈ callsFrom place index parent chain children) :
    ∃ i below, index ≤ i ∧ made.1.place = place ++ i :: below := by
  obtain ⟨i, child, -, h⟩ := mem_callsFrom.mp h
  obtain ⟨below, hbelow⟩ := prefix_of_mem_calls child h
  exact ⟨index + i, below, Nat.le_add_right .., by simp [← hbelow]⟩

/-- The calls of one child come before those of the next. -/
theorem pairwise_callsFrom {place : List Nat} {index : Nat} {parent : Option α}
    {chain : List (Option α)} {children : List (Outline α)}
    (h : ∀ child ∈ children, ∀ place parent chain,
      (child.calls place parent chain).Pairwise fun first second => first.1.Before second.1) :
    (callsFrom place index parent chain children).Pairwise
      fun first second => first.1.Before second.1 := by
  induction children generalizing index with
  | nil => exact .nil
  | cons child rest ih =>
      rw [List.forall_mem_cons] at h
      rw [callsFrom, List.pairwise_append]
      refine ⟨h.1 _ _ _, ih h.2, ?_⟩
      rintro ⟨⟨first, after⟩, _⟩ hfirst ⟨⟨second, after'⟩, _⟩ hsecond
      obtain ⟨below, rfl⟩ := prefix_of_mem_calls child hfirst
      obtain ⟨i, below', hle, rfl⟩ := exists_place_of_mem_callsFrom hsecond
      rw [List.append_assoc]
      exact .siblings place (Nat.lt_of_succ_le hle) below below' after after'

/-- The calls of a tree are listed in their order. -/
theorem pairwise_calls (tree : Outline α) (place : List Nat) (parent : Option α)
    (chain : List (Option α)) :
    (tree.calls place parent chain).Pairwise fun first second => first.1.Before second.1 := by
  induction tree using Outline.induction generalizing place parent chain with
  | h label children ih =>
      rw [calls, List.pairwise_append, List.pairwise_cons]
      refine ⟨⟨?_, pairwise_callsFrom fun child hchild => ih child hchild⟩,
        List.pairwise_singleton .., ?_⟩
      · rintro ⟨⟨second, after⟩, _⟩ hsecond
        obtain ⟨i, below, -, rfl⟩ := exists_place_of_mem_callsFrom hsecond
        exact .opens place i below after
      · rintro ⟨⟨first, after⟩, _⟩ hfirst made hmade
        rw [List.mem_singleton] at hmade
        subst made
        rcases List.mem_cons.mp hfirst with heq | hfirst
        · cases heq
          exact .same place
        · obtain ⟨i, below, -, rfl⟩ := exists_place_of_mem_callsFrom hfirst
          exact .closes place i below after

end Outline

/-! ## What a visitor sees -/

namespace Node

/-- What a visitor is told about a node and the nodes above it, when these are below a parent
and the nodes of a chain. -/
def visitBelow (label : Node → α) (parent : Option α) (chain : List (Option α))
    (node : Node) (above : List Node) (after : Bool) : Visit α :=
  { node := label node
    parent := (above.map label).getLast?.or parent
    chain := chain ++ parent :: above.map fun node => some (label node)
    after }

/-- What a visitor is told at a call: the node, and the chain of the nodes above it behind the
missing parent of the root. The last of the chain is the parent. -/
def visit? (label : Node → α) (root : Node) (call : Call) : Option (Visit α) :=
  (root.at? call.place).map fun node =>
    visitBelow label none [] node (root.above call.place) call.after

theorem getLast?_chain_visitBelow (label : Node → α) (parent : Option α)
    (chain : List (Option α)) (node : Node) (above : List Node) (after : Bool) :
    (visitBelow label parent chain node above after).chain.getLast? =
      some (visitBelow label parent chain node above after).parent := by
  rw [visitBelow, List.getLast?_append, List.getLast?_cons]
  cases hlast : above.getLast? <;> simp [hlast]

/-- What is seen from the parent of a node, of a place below the node. -/
theorem visitBelow_cons (label : Node → α) (parent : Option α) (chain : List (Option α))
    (node top : Node) (above : List Node) (after : Bool) :
    visitBelow label parent chain node (top :: above) after =
      visitBelow label (some (label top)) (chain ++ [parent]) node above after := by
  cases hlast : above.getLast? <;> simp [visitBelow, List.getLast?_cons, hlast]

/-- The calls of a tree are two for each of its places. -/
theorem mem_calls {label : Node → α} (node : Node) {place : List Nat} {parent : Option α}
    {chain : List (Option α)} {made : Call × Visit α} :
    made ∈ (node.outline.map label).calls place parent chain ↔
      ∃ below found, node.at? below = some found ∧ made.1.place = place ++ below ∧
        made.2 = visitBelow label parent chain found (node.above below) made.1.after := by
  induction node using Node.induction generalizing place parent chain with
  | h node ih =>
      obtain ⟨⟨at', after⟩, visit⟩ := made
      rw [map_outline, Outline.calls, List.mem_append, List.mem_cons, List.mem_singleton]
      simp only [Outline.mem_callsFrom, List.getElem?_map, Option.map_eq_some_iff, Nat.zero_add]
      constructor
      · rintro ((h | ⟨i, _, ⟨child, hchild, rfl⟩, h⟩) | h)
        · cases h
          exact ⟨[], node, rfl, (List.append_nil _).symm, rfl⟩
        · obtain ⟨below, found, hfound, hplace, hvisit⟩ :=
            (ih child (List.mem_of_getElem? hchild)).mp h
          refine ⟨i :: below, found, ?_, ?_, ?_⟩
          · rw [at?, hchild, Option.bind_some, hfound]
          · exact hplace.trans (List.append_assoc ..)
          · rw [above, hchild, visitBelow_cons]
            exact hvisit
        · cases h
          exact ⟨[], node, rfl, (List.append_nil _).symm, rfl⟩
      · rintro ⟨below, found, hfound, hplace, hvisit⟩
        subst hplace hvisit
        cases below with
        | nil =>
            cases hfound
            rw [List.append_nil]
            cases after
            · exact .inl (.inl rfl)
            · exact .inr rfl
        | cons i below =>
            obtain ⟨child, hchild, hfound⟩ := Option.bind_eq_some_iff.mp hfound
            refine .inl (.inr ⟨i, _, ⟨child, hchild, rfl⟩, ?_⟩)
            refine (ih child (List.mem_of_getElem? hchild)).mpr ⟨below, found, hfound, ?_, ?_⟩
            · rw [List.append_assoc]
              rfl
            · rw [above, hchild, visitBelow_cons]
              rfl

/-- From the root, the calls of a tree are those at its places. -/
theorem mem_calls_root {label : Node → α} {root : Node} {made : Call × Visit α} :
    made ∈ (root.outline.map label).calls [] none [] ↔
      root.visit? label made.1 = some made.2 := by
  rw [mem_calls, visit?, Option.map_eq_some_iff]
  constructor
  · rintro ⟨below, found, hfound, hplace, hvisit⟩
    rw [List.nil_append] at hplace
    subst hplace
    exact ⟨found, hfound, hvisit.symm⟩
  · rintro ⟨found, hfound, hvisit⟩
    exact ⟨made.1.place, found, hfound, rfl, hvisit.symm⟩

end Node

end StoredProc
