import CharacterSheet.Graph.NodeSet

/-!
Contract: what can be reached in a relation between nodes, and in which order its
members can be listed.

Owns:
- relations between nodes in a form that is quick to follow;
- the list of nodes reachable from a stack of starting nodes, in the order of a
  depth-first walk;
- the listing of all nodes in which every producer stands before its consumers, where
  one exists; the places of the nodes decide among those that do not depend on each
  other.
-/

namespace CharacterSheet

/-- A relation between nodes: for each number, the nodes that its node is related to. -/
structure Adjacency where
  rows : Array (List NodeId)

namespace Adjacency

/-- A number above the numbers of the first members of some pairs. -/
def width (pairs : List (NodeId × NodeId)) : Nat :=
  pairs.foldr (fun pair bound => Nat.max bound (pair.1.number + 1)) 0

/-- The relation that holds of some pairs. -/
def ofPairs (pairs : List (NodeId × NodeId)) : Adjacency :=
  ⟨pairs.foldr (fun pair rows => rows.modify pair.1.number (pair.2 :: ·))
    (Array.replicate (width pairs) [])⟩

/-- The nodes that a node is related to, in the order of the pairs. -/
def next (adjacency : Adjacency) (node : NodeId) : List NodeId :=
  adjacency.rows.getD node.number []

private theorem size_rows (pairs : List (NodeId × NodeId)) (rows : Array (List NodeId)) :
    (pairs.foldr (fun pair rows => rows.modify pair.1.number (pair.2 :: ·)) rows).size =
      rows.size := by
  induction pairs with
  | nil => rfl
  | cons pair rest inductionHypothesis =>
      rw [List.foldr_cons, Array.size_modify, inductionHypothesis]

private theorem getD_rows (pairs : List (NodeId × NodeId)) (node : NodeId) (size : Nat)
    (covers : width pairs ≤ size) :
    (pairs.foldr (fun pair rows => rows.modify pair.1.number (pair.2 :: ·))
        (Array.replicate size [])).getD node.number [] =
      (pairs.filter (·.1 = node)).map (·.2) := by
  induction pairs with
  | nil =>
      by_cases inside : node.number < size <;>
        simp [Array.getD_eq_getD_getElem?, inside]
  | cons pair rest inductionHypothesis =>
      obtain ⟨⟨number⟩, second⟩ := pair
      obtain ⟨target⟩ := node
      simp only [width, List.foldr_cons] at covers
      have restCovers : width rest ≤ size :=
        Nat.le_trans (Nat.le_max_left _ _) covers
      have inside : number < size :=
        Nat.lt_of_lt_of_le (Nat.lt_succ_self number)
          (Nat.le_trans (Nat.le_max_right _ _) covers)
      have earlier := inductionHypothesis restCovers
      rw [Array.getD_eq_getD_getElem?] at earlier
      rw [List.foldr_cons, Array.getD_eq_getD_getElem?, Array.getElem?_modify]
      by_cases same : number = target
      · subst same
        rw [if_pos rfl]
        rw [Array.getElem?_eq_getElem (by rw [size_rows, Array.size_replicate]; exact inside)] at earlier ⊢
        simpa using earlier
      · rw [if_neg same, earlier]
        simp [same]

/-- The relation relates exactly what the pairs relate. -/
theorem next_ofPairs (pairs : List (NodeId × NodeId)) (node : NodeId) :
    (ofPairs pairs).next node = (pairs.filter (·.1 = node)).map (·.2) :=
  getD_rows pairs node (width pairs) (Nat.le_refl _)

end Adjacency

/-- Walk depth-first along `next` and list the nodes that were not seen before. Each
step takes one node off the stack; the walk is complete if `fuel` is at least the
height of the stack plus the number of pairs in the relation. -/
def walk (next : NodeId → List NodeId) : Nat → NodeSet → List NodeId → List NodeId
  | 0, _, _ => []
  | _ + 1, _, [] => []
  | fuel + 1, seen, node :: stack =>
      if seen.contains node then walk next fuel seen stack
      else node :: walk next fuel (seen.insert node) (next node ++ stack)

namespace Graph

/-- From each node to the nodes that read it. -/
def consumption (graph : Graph) : Adjacency :=
  .ofPairs (graph.edges.map fun edge => (edge.producer, edge.consumer))

/-- From each node to the nodes that it read. -/
def production (graph : Graph) : Adjacency :=
  .ofPairs (graph.edges.map fun edge => (edge.consumer, edge.producer))

theorem next_consumption (graph : Graph) (node : NodeId) :
    graph.consumption.next node = graph.consumers node := by
  simp [consumption, Adjacency.next_ofPairs, consumers, List.filter_map, Function.comp_def]

theorem next_production (graph : Graph) (node : NodeId) :
    graph.production.next node = graph.producers node := by
  simp [production, Adjacency.next_ofPairs, producers, List.filter_map, Function.comp_def]

/-- Those of some nodes that exist, and all nodes that depend on them. -/
def dependents (graph : Graph) (starts : List NodeId) : List NodeId :=
  walk graph.consumption.next (graph.edges.length + starts.length) {}
    (starts.filter graph.nodes.contains)

/-- Some nodes and all nodes that they depend on. -/
def dependencies (graph : Graph) (starts : List NodeId) : List NodeId :=
  walk graph.production.next (graph.edges.length + starts.length) {} starts

end Graph

/-- What is left to do for a node on a walk that goes down to everything below a node
before it comes back to it. -/
inductive Visit where
  /-- To be walked through, unless it was seen before. -/
  | enter (node : NodeId)
  /-- All below it has been walked through. -/
  | leave (node : NodeId)
deriving DecidableEq, Repr

/-- Walk depth-first along `next` and add each node to `finished` when the walk leaves
it, so that the node that was left last stands first. Each step takes one visit off
the stack; the walk is complete if `fuel` is at least the height of the stack, plus
the number of pairs in the relation, plus the number of nodes. -/
def finish (next : NodeId → List NodeId) :
    Nat → NodeSet → List NodeId → List Visit → List NodeId
  | 0, _, finished, _ => finished
  | _ + 1, _, finished, [] => finished
  | fuel + 1, seen, finished, .leave node :: stack => finish next fuel seen (node :: finished) stack
  | fuel + 1, seen, finished, .enter node :: stack =>
      if seen.contains node then finish next fuel seen finished stack
      else
        finish next fuel (seen.insert node) finished
          ((next node).map .enter ++ .leave node :: stack)

/-- Whether each node of a list stands behind all of its producers. -/
def producersFirst (producers : NodeId → List NodeId) : NodeSet → List NodeId → Bool
  | _, [] => true
  | listed, node :: rest =>
      (producers node).all listed.contains && producersFirst producers (listed.insert node) rest

namespace Graph

/-- All nodes by their places. -/
def nodesByPlace (graph : Graph) : List NodeId :=
  (graph.nodes.entries.mergeSort fun left right =>
    decide (left.2.place ≤ right.2.place)).map (·.1)

/-- All nodes, each producer before its consumers; nothing if there is a circle. A walk
leaves a node when it has left all of its consumers, so the node left last comes first. -/
def dependencyOrder? (graph : Graph) : Option (List NodeId) :=
  let order :=
    finish graph.consumption.next (2 * graph.nodes.size + graph.edges.length) {} []
      (graph.nodesByPlace.map .enter)
  if producersFirst graph.production.next {} order then some order else none

end Graph
end CharacterSheet
