import CharacterSheet.Proofs.Invalidation.Fading
import Mathlib.Logic.Function.Iterate

/-!
Contract: the loop that marks what depends on a node, step by step.

Owns:
- the loop as a machine with a stack: each step takes one node off, drops its cached value unless
  the node was visited before, and puts its consumers on;
- that the stack is empty after as many steps as there are edges and one more, and that the graph is
  then the invalidated, or silently marked, graph;
- what one such marking does to each part of a graph, with nothing said about the graph before.

A node stands on the stack once for every edge that led to it. What pays for the steps is therefore
the edges that were not followed yet, not the nodes that were not visited.
-/

namespace CharacterSheet

theorem Cache.invalidate_invalidate (cache : Cache) :
    cache.invalidate.invalidate = cache.invalidate := by
  cases cache <;> rfl

/-- A cache that holds a value loses it; any other stays. -/
theorem Cache.invalidate_of_not_ready {cache : Cache} (empty : ∀ value, cache ≠ .ready value) :
    cache.invalidate = cache := by
  cases cache with
  | stale => rfl
  | computing => rfl
  | ready value => exact absurd rfl (empty value)

/-- To change some values and then others is to change both, for a change that settles at once. -/
theorem Table.modifyWhere_modifyWhere {κ α : Type} (table : Table κ α) (first second : κ → Bool)
    {change : α → α} (settled : ∀ value, change (change value) = change value) :
    (table.modifyWhere first change).modifyWhere second change =
      table.modifyWhere (fun key => first key || second key) change := by
  simp only [modifyWhere, Table.mk.injEq, changeIn, List.map_map]
  apply List.map_congr_left
  intro entry _
  by_cases early : first entry.1 <;> by_cases late : second entry.1 <;>
    simp [early, late, settled]

namespace Graph

/-! ### The loop -/

/-- Drop the cached values of a node and of everything that depends on it, with or without a record
of the change. -/
def propagate (graph : Graph) (start : NodeId) (notify : Bool) : Graph :=
  if notify then graph.invalidate start else graph.markStale [start]

/-- Drop the cached value of one node, with or without a record of the change. -/
def markNode (graph : Graph) (notify : Bool) (node : NodeId) : Graph :=
  let dropped := graph.modifyNode node fun present =>
    { present with cache := present.cache.invalidate }
  if notify then dropped.modifyPending (·.submitNode node) else dropped

/-- Drop the cached values of some nodes, with or without a record of the change. -/
def markNodes (graph : Graph) (notify : Bool) (nodes : List NodeId) : Graph :=
  let dropped := graph.dropCaches nodes
  if notify then dropped.modifyPending (nodes.foldl Pending.submitNode) else dropped

theorem markNodes_nil (graph : Graph) (notify : Bool) : graph.markNodes notify [] = graph := by
  have nothing : graph.dropCaches [] = graph := by
    simp [dropCaches, NodeSet.ofList, Table.modifyWhere, Table.changeIn]
  unfold markNodes
  rw [nothing]
  split <;> rfl

theorem markNodes_markNode (graph : Graph) (notify : Bool) (node : NodeId) (rest : List NodeId) :
    (graph.markNode notify node).markNodes notify rest = graph.markNodes notify (node :: rest) := by
  have selected (key : NodeId) : (decide (key = node) || (NodeSet.ofList rest).contains key) =
      (NodeSet.ofList (node :: rest)).contains key := by
    rw [NodeSet.contains_ofList, NodeSet.contains_ofList, List.contains_cons, Bool.beq_eq_decide_eq]
  have nodes : (graph.nodes.modify node fun present =>
        { present with cache := present.cache.invalidate }).modifyWhere
          (NodeSet.ofList rest).contains (fun present =>
            { present with cache := present.cache.invalidate }) =
      graph.nodes.modifyWhere (NodeSet.ofList (node :: rest)).contains fun present =>
        { present with cache := present.cache.invalidate } := by
    rw [Table.modify, Table.modifyWhere_modifyWhere _ _ _
      (fun present => by simp only [Cache.invalidate_invalidate])]
    simp only [selected]
  cases notify with
  | false =>
      simp only [markNode, markNodes, dropCaches, modifyNode, Bool.false_eq_true, ↓reduceIte]
      rw [nodes]
  | true =>
      simp only [markNode, markNodes, dropCaches, modifyNode, modifyPending, ↓reduceIte,
        List.foldl_cons]
      rw [nodes]

/-- Whoever propagates notes first what may be outdated, and then marks the dependents. -/
theorem propagate_eq (graph : Graph) (start : NodeId) (notify : Bool) :
    graph.propagate start notify =
      graph.noteOutdated.markNodes notify (graph.dependents [start]) := by
  cases notify with
  | false => rfl
  | true =>
      rw [propagate, if_pos rfl, invalidate_eq]
      rfl

/-- A graph some of whose nodes are marked: those that were visited, and the stack of those that
were led to. -/
structure Marking where
  graph : Graph
  visited : NodeSet := {}
  waiting : List NodeId

namespace Marking

/-- Before the first step the start is on the stack, if it exists; whatever an edge leads to exists
anyway. -/
def begin (graph : Graph) (start : NodeId) : Marking :=
  { graph := graph.noteOutdated, waiting := [start].filter graph.nodes.contains }

/-- Take one node off the stack. -/
def step (notify : Bool) (marking : Marking) : Marking :=
  match marking.waiting with
  | [] => marking
  | node :: rest =>
      if marking.visited.contains node then { marking with waiting := rest }
      else
        { graph := marking.graph.markNode notify node
          visited := marking.visited.insert node
          waiting := marking.graph.consumers node ++ rest }

/-- What the loop has yet to pay for: the nodes on its stack and the edges that it did not follow. -/
def owed (marking : Marking) : Nat :=
  marking.waiting.length + unfollowed
    (marking.graph.edges.map fun edge => (edge.producer, edge.consumer)) marking.visited

variable (notify : Bool) {marking : Marking}

theorem edges_markNode (graph : Graph) (node : NodeId) :
    (graph.markNode notify node).edges = graph.edges := by
  unfold markNode
  split <;> rfl

theorem consumers_markNode (graph : Graph) (node : NodeId) :
    (graph.markNode notify node).consumers = graph.consumers := by
  unfold consumers
  rw [edges_markNode]

/-- Each step pays with the node that it takes off, or with the edges that it follows. -/
theorem owed_step {node : NodeId} {rest : List NodeId} (next : marking.waiting = node :: rest) :
    (marking.step notify).owed + 1 = marking.owed := by
  simp only [step, owed, next, List.length_cons]
  by_cases before : marking.visited.contains node
  · rw [if_pos before]
    simp only
    omega
  · rw [if_neg before]
    have followed := unfollowed_insert
      (marking.graph.edges.map fun edge => (edge.producer, edge.consumer))
      (Bool.eq_false_iff.mpr before)
    simp only [List.length_append, edges_markNode, consumers, List.length_map, List.filter_map,
      Function.comp_def] at followed ⊢
    omega

/-- With enough steps the stack is empty, and what is marked is what a walk from it lists. -/
theorem iterate_step {count : Nat} (enough : marking.owed ≤ count) :
    ((step notify)^[count] marking).waiting = [] ∧
      ((step notify)^[count] marking).graph = marking.graph.markNodes notify
        (walk marking.graph.consumers count marking.visited marking.waiting) := by
  induction count generalizing marking with
  | zero =>
      have empty : marking.waiting = [] := List.eq_nil_of_length_eq_zero (by
        unfold owed at enough
        omega)
      exact ⟨empty, (markNodes_nil _ _).symm⟩
  | succ count inductionHypothesis =>
      rw [Function.iterate_succ_apply]
      cases next : marking.waiting with
      | nil =>
          have stays : marking.step notify = marking := by
            unfold step
            rw [next]
          rw [stays, Function.iterate_fixed stays]
          exact ⟨next, (markNodes_nil _ _).symm⟩
      | cons node rest =>
          have paid := owed_step notify next
          have fewer : (marking.step notify).owed ≤ count := by omega
          obtain ⟨empty, marked⟩ := inductionHypothesis fewer
          refine ⟨empty, ?_⟩
          rw [marked]
          by_cases before : marking.visited.contains node
          · simp only [step, next, if_pos before, walk]
          · simp only [step, next, if_neg before, walk]
            rw [← markNodes_markNode, consumers_markNode]

/-- The loop ends within one step for each edge and one more, in what `propagate` gives. -/
theorem iterate_begin (graph : Graph) (start : NodeId) :
    ((step notify)^[graph.edges.length + 1] (begin graph start)).waiting = [] ∧
      ((step notify)^[graph.edges.length + 1] (begin graph start)).graph =
        graph.propagate start notify := by
  have unvisited : unfollowed (graph.edges.map fun edge => (edge.producer, edge.consumer)) {} =
      graph.edges.length := by
    simp [unfollowed]
  have enough : (begin graph start).owed ≤ graph.edges.length + 1 := by
    have stack := List.length_filter_le graph.nodes.contains [start]
    simp only [owed, begin, noteOutdated, unvisited, List.length_singleton] at stack ⊢
    omega
  obtain ⟨empty, marked⟩ := iterate_step notify enough
  refine ⟨empty, ?_⟩
  have next : graph.consumption.next = graph.consumers := funext graph.next_consumption
  rw [marked, propagate_eq, dependents, next]
  rfl

end Marking

/-! ### What is marked -/

/-- A node depends on a start that exists, or is that start; what the caches on the way hold does not
matter. -/
def Downstream (graph : Graph) (start node : NodeId) : Prop :=
  graph.nodes.contains start ∧ graph.Reaches start node

theorem mem_dependents_one {graph : Graph} {start node : NodeId} :
    node ∈ graph.dependents [start] ↔ graph.Downstream start node := by
  rw [mem_dependents_iff]
  simp only [List.mem_singleton, exists_eq_left, Downstream]

/-- What it is to mark what depends on a start, part by part: `after` is `graph` but for caches, for
records of changed nodes and for notes of what is outdated. -/
structure Marks (graph : Graph) (start : NodeId) (notify : Bool) (after : Graph) : Prop where
  rest : after = { graph with
    nodes := after.nodes
    pending := { graph.pending with nodes := after.pending.nodes }
    outdated := after.outdated }
  keys : after.nodes.keys = graph.nodes.keys
  faded : ∀ node present value, graph.nodes.get? node = some present →
    present.cache = .ready value → graph.Downstream start node →
      after.nodes.get? node = some { present with cache := .stale }
  untouched : ∀ node present, graph.nodes.get? node = some present →
    (∀ value, present.cache ≠ .ready value) ∨ ¬ graph.Downstream start node →
      after.nodes.get? node = some present
  recorded : ∃ added, after.pending.nodes = graph.pending.nodes ++ added ∧ added.Nodup ∧
    ∀ node, node ∈ added ↔
      notify = true ∧ graph.Downstream start node ∧ node ∉ graph.pending.nodes
  noted : ∃ added, after.outdated = graph.outdated ++ added ∧ added.Nodup ∧
    ∀ node, node ∈ added ↔ node ∈ graph.evaluating ∧ node ∉ graph.outdated

theorem nodes_propagate (graph : Graph) (start : NodeId) (notify : Bool) :
    (graph.propagate start notify).nodes =
      (graph.noteOutdated.dropCaches (graph.dependents [start])).nodes := by
  rw [propagate_eq, markNodes]
  split <;> rfl

theorem marks_propagate (graph : Graph) (start : NodeId) (notify : Bool) :
    graph.Marks start notify (graph.propagate start notify) where
  rest := by
    cases notify with
    | false => rfl
    | true =>
        obtain ⟨depth, slots⟩ :=
          Pending.foldl_submitNode_rest (graph.dependents [start]) graph.pending
        rw [propagate, if_pos rfl, invalidate_eq, markStale, noteOutdated, dropCaches]
        simp only [Graph.mk.injEq, true_and, and_true]
        rw [← depth, ← slots]
  keys := by
    rw [nodes_propagate]
    exact Table.keys_modifyWhere _ _ _
  faded := by
    intro node present value found ready below
    rw [nodes_propagate, get?_dropCaches, if_pos (mem_dependents_one.mpr below)]
    show (graph.nodes.get? node).map _ = _
    rw [found, Option.map_some, ready]
    rfl
  untouched := by
    intro node present found spared
    rw [nodes_propagate, get?_dropCaches]
    show (if _ then (graph.nodes.get? node).map _ else graph.nodes.get? node) = _
    rw [found]
    split
    · next below =>
      have empty := spared.resolve_right (not_not_intro (mem_dependents_one.mp below))
      rw [Option.map_some, Cache.invalidate_of_not_ready empty]
    · rfl
  recorded := by
    cases notify with
    | false => exact ⟨[], by simp [propagate, markStale, dropCaches, noteOutdated]⟩
    | true =>
        obtain ⟨added, taken, once, members⟩ :=
          exists_taken_in (graph.dependents [start]) graph.pending.nodes
        refine ⟨added, ?_, once, ?_⟩
        · rw [propagate, if_pos rfl, invalidate_eq, Pending.nodes_foldl_submitNode]
          exact taken
        · intro node
          rw [members, mem_dependents_one]
          simp only [true_and]
  noted := by
    obtain ⟨added, taken, once, members⟩ := exists_taken_in graph.evaluating graph.outdated
    refine ⟨added, ?_, once, members⟩
    rw [← taken, propagate_eq, markNodes]
    split <;> rfl

/-- The loop ends, after at most one step for each edge and one more, in the graph that `propagate`
gives; and that graph differs from the one before exactly in what depends on the start. -/
theorem marking_exact (graph : Graph) (start : NodeId) (notify : Bool) :
    let marked := (Marking.step notify)^[graph.edges.length + 1] (Marking.begin graph start)
    marked.waiting = [] ∧ marked.graph = graph.propagate start notify ∧
      graph.Marks start notify marked.graph := by
  obtain ⟨empty, marked⟩ := Marking.iterate_begin notify graph start
  refine ⟨empty, marked, ?_⟩
  rw [marked]
  exact graph.marks_propagate start notify

end Graph
end CharacterSheet
