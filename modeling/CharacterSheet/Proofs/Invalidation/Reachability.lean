import CharacterSheet.Graph.Reach
import Mathlib.Logic.Relation

/-!
Contract: the walks over a graph find exactly what can be reached.

Owns:
- the reading relation along edges and its reflexive transitive closure;
- soundness and completeness of the depth-first walk, whose fuel suffices;
- membership in the dependents and in the dependencies of some nodes.
-/

namespace CharacterSheet

/-! ### The walk -/

section Walk

variable {next : NodeId → List NodeId}

/-- Whatever a walk lists can be reached from its stack. -/
theorem reachable_of_mem_walk {fuel : Nat} {seen : NodeSet} {stack : List NodeId} {node : NodeId}
    (member : node ∈ walk next fuel seen stack) :
    ∃ start ∈ stack, Relation.ReflTransGen (fun first second => second ∈ next first) start node := by
  induction fuel generalizing seen stack with
  | zero => simp [walk] at member
  | succ fuel inductionHypothesis =>
      cases stack with
      | nil => simp [walk] at member
      | cons top rest =>
          rw [walk] at member
          split at member
          · obtain ⟨start, inRest, path⟩ := inductionHypothesis member
            exact ⟨start, List.mem_cons_of_mem _ inRest, path⟩
          · rcases List.mem_cons.mp member with rfl | later
            · exact ⟨node, List.mem_cons_self, .refl⟩
            · obtain ⟨start, inStack, path⟩ := inductionHypothesis later
              rcases List.mem_append.mp inStack with inNext | inRest
              · exact ⟨top, List.mem_cons_self, .head inNext path⟩
              · exact ⟨start, List.mem_cons_of_mem _ inRest, path⟩

variable (pairs : List (NodeId × NodeId))

/-- The number of pairs that a walk has not followed yet. -/
def unfollowed (seen : NodeSet) : Nat := pairs.countP fun pair => !seen.contains pair.1

theorem unfollowed_insert {seen : NodeSet} {node : NodeId} (unseen : seen.contains node = false) :
    unfollowed pairs (seen.insert node) + ((pairs.filter (·.1 = node)).map (·.2)).length =
      unfollowed pairs seen := by
  induction pairs with
  | nil => simp [unfollowed]
  | cons pair rest inductionHypothesis =>
      simp only [unfollowed, List.countP_cons, NodeSet.contains_insert] at inductionHypothesis ⊢
      by_cases same : pair.1 = node
      · simp [same, unseen] at inductionHypothesis ⊢
        omega
      · have other : ¬ node = pair.1 := Ne.symm same
        simp [same, other] at inductionHypothesis ⊢
        omega

/-- With enough fuel a walk lists its whole stack and all that follows what it lists. -/
theorem walk_complete {fuel : Nat} {seen : NodeSet} {stack : List NodeId}
    (follows : ∀ node, next node = (pairs.filter (·.1 = node)).map (·.2))
    (enough : stack.length + unfollowed pairs seen ≤ fuel) :
    (∀ node ∈ stack, seen.contains node ∨ node ∈ walk next fuel seen stack) ∧
      ∀ node ∈ walk next fuel seen stack, ∀ after ∈ next node,
        seen.contains after ∨ after ∈ walk next fuel seen stack := by
  induction fuel generalizing seen stack with
  | zero =>
      have empty : stack = [] := List.eq_nil_of_length_eq_zero (by omega)
      subst empty
      simp [walk]
  | succ fuel inductionHypothesis =>
      cases stack with
      | nil => simp [walk]
      | cons top rest =>
          rw [walk]
          simp only [List.length_cons] at enough
          by_cases found : seen.contains top
          · rw [if_pos found]
            have shorter : rest.length + unfollowed pairs seen ≤ fuel := by omega
            obtain ⟨listed, closed⟩ := inductionHypothesis shorter
            refine ⟨?_, closed⟩
            intro node member
            rcases List.mem_cons.mp member with rfl | inRest
            · exact Or.inl found
            · exact listed node inRest
          · rw [if_neg found]
            have unseen : seen.contains top = false := by simpa using found
            have fewer := unfollowed_insert pairs unseen
            have shorter :
                (next top ++ rest).length + unfollowed pairs (seen.insert top) ≤ fuel := by
              rw [List.length_append, follows top]
              omega
            obtain ⟨listed, closed⟩ := inductionHypothesis shorter
            have weaken {node : NodeId} {visits : List NodeId}
                (known : (seen.insert top).contains node ∨ node ∈ visits) :
                seen.contains node ∨ node ∈ top :: visits := by
              rw [NodeSet.contains_insert] at known
              simp only [Bool.or_eq_true, decide_eq_true_eq] at known
              rcases known with (before | rfl) | later
              · exact Or.inl before
              · exact Or.inr List.mem_cons_self
              · exact Or.inr (List.mem_cons_of_mem _ later)
            constructor
            · intro node member
              rcases List.mem_cons.mp member with rfl | inRest
              · exact Or.inr List.mem_cons_self
              · exact weaken (listed node (List.mem_append_right _ inRest))
            · intro node member after follow
              rcases List.mem_cons.mp member with rfl | later
              · exact weaken (listed after (List.mem_append_left _ follow))
              · exact weaken (closed node later after follow)

/-- A walk that starts afresh with enough fuel lists exactly what its stack reaches. -/
theorem mem_walk_iff {fuel : Nat} {stack : List NodeId} {node : NodeId}
    (follows : ∀ node, next node = (pairs.filter (·.1 = node)).map (·.2))
    (enough : stack.length + pairs.length ≤ fuel) :
    node ∈ walk next fuel {} stack ↔
      ∃ start ∈ stack,
        Relation.ReflTransGen (fun first second => second ∈ next first) start node := by
  constructor
  · exact reachable_of_mem_walk
  · rintro ⟨start, inStack, path⟩
    have all : unfollowed pairs {} = pairs.length := by simp [unfollowed]
    have fits : stack.length + unfollowed pairs {} ≤ fuel := by omega
    obtain ⟨listed, closed⟩ := walk_complete pairs follows fits
    induction path with
    | refl => simpa using listed start inStack
    | tail _ step inductionHypothesis => simpa using closed _ inductionHypothesis _ step

end Walk

/-! ### Reading along edges -/

namespace Graph

/-- `consumer` read `producer` when it was last calculated. -/
def Feeds (graph : Graph) (producer consumer : NodeId) : Prop := ⟨producer, consumer⟩ ∈ graph.edges

/-- `consumer` depends on `producer` along recorded reads, in any number of steps. -/
def Reaches (graph : Graph) : NodeId → NodeId → Prop := Relation.ReflTransGen graph.Feeds

theorem mem_consumers_iff (graph : Graph) (producer consumer : NodeId) :
    consumer ∈ graph.consumers producer ↔ graph.Feeds producer consumer := by
  simp only [consumers, Feeds, List.mem_map, List.mem_filter, decide_eq_true_eq]
  constructor
  · rintro ⟨⟨_, _⟩, ⟨member, rfl⟩, rfl⟩
    exact member
  · intro member
    exact ⟨_, ⟨member, rfl⟩, rfl⟩

theorem mem_producers_iff (graph : Graph) (producer consumer : NodeId) :
    producer ∈ graph.producers consumer ↔ graph.Feeds producer consumer := by
  simp only [producers, Feeds, List.mem_map, List.mem_filter, decide_eq_true_eq]
  constructor
  · rintro ⟨⟨_, _⟩, ⟨member, rfl⟩, rfl⟩
    exact member
  · intro member
    exact ⟨_, ⟨member, rfl⟩, rfl⟩

/-- The dependents of some nodes are what those of them that exist reach. -/
theorem mem_dependents_iff (graph : Graph) (starts : List NodeId) (node : NodeId) :
    node ∈ graph.dependents starts ↔
      ∃ start ∈ starts, graph.nodes.contains start ∧ graph.Reaches start node := by
  have related : (fun first second => second ∈ graph.consumption.next first) = graph.Feeds := by
    funext first second
    rw [next_consumption, mem_consumers_iff]
  rw [dependents, mem_walk_iff (graph.edges.map fun edge => (edge.producer, edge.consumer))
    (fun start => by simp [consumption, Adjacency.next_ofPairs]) (by
      have shorter := List.length_filter_le graph.nodes.contains starts
      simp only [List.length_map]
      omega), related]
  simp only [List.mem_filter, Reaches, and_assoc]

/-- The dependencies of some nodes are all that reaches them. -/
theorem mem_dependencies_iff (graph : Graph) (starts : List NodeId) (node : NodeId) :
    node ∈ graph.dependencies starts ↔ ∃ start ∈ starts, graph.Reaches node start := by
  have related : (fun first second => second ∈ graph.production.next first) =
      Function.swap graph.Feeds := by
    funext first second
    rw [next_production, mem_producers_iff]
  rw [dependencies, mem_walk_iff (graph.edges.map fun edge => (edge.consumer, edge.producer))
    (fun start => by simp [production, Adjacency.next_ofPairs]) (by
      simp only [List.length_map]
      omega), related]
  simp only [Reaches, Relation.reflTransGen_swap]

end Graph
end CharacterSheet
