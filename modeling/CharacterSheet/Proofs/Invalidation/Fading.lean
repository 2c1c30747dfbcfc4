import CharacterSheet.Proofs.Invalidation.Reachability
import CharacterSheet.Proofs.Calculation.Shape

/-!
Contract: what dropping cached values does to a graph.

Owns:
- what a list that takes in nodes once holds in the end;
- the fading of some nodes, closed under what depends on them, with all else unchanged;
- every invalidation and every silent marking as such a fading;
- which nodes wait to be announced after it, and which calculations are outdated.
-/

namespace CharacterSheet

/-- A list that takes in each of some nodes unless it has it keeps what it had in place, and then
has each of the others once. -/
theorem exists_taken_in (nodes earlier : List NodeId) :
    ∃ added, nodes.foldl (fun list node => if node ∈ list then list else list ++ [node]) earlier =
        earlier ++ added ∧ added.Nodup ∧
      ∀ node, node ∈ added ↔ node ∈ nodes ∧ node ∉ earlier := by
  induction nodes generalizing earlier with
  | nil => exact ⟨[], by simp⟩
  | cons head rest inductionHypothesis =>
      rw [List.foldl_cons]
      by_cases present : head ∈ earlier
      · rw [if_pos present]
        obtain ⟨added, taken, once, members⟩ := inductionHypothesis earlier
        refine ⟨added, taken, once, ?_⟩
        intro node
        rw [members, List.mem_cons]
        constructor
        · rintro ⟨later, fresh⟩
          exact ⟨Or.inr later, fresh⟩
        · rintro ⟨rfl | later, fresh⟩
          · exact absurd present fresh
          · exact ⟨later, fresh⟩
      · rw [if_neg present]
        obtain ⟨added, taken, once, members⟩ := inductionHypothesis (earlier ++ [head])
        have apart : head ∉ added := by
          intro member
          exact ((members head).mp member).2 (List.mem_append_right _ List.mem_cons_self)
        refine ⟨head :: added, by rw [taken, List.append_assoc]; rfl, List.nodup_cons.mpr ⟨apart, once⟩, ?_⟩
        intro node
        rw [List.mem_cons, List.mem_cons, members]
        by_cases same : node = head
        · simp [same, present]
        · simp [same]

/-- Such a list has what it had and what it took in. -/
theorem mem_taken_in {nodes earlier : List NodeId} {node : NodeId} :
    node ∈ nodes.foldl (fun list node => if node ∈ list then list else list ++ [node]) earlier ↔
      node ∈ earlier ∨ node ∈ nodes := by
  obtain ⟨added, taken, _, members⟩ := exists_taken_in nodes earlier
  rw [taken, List.mem_append, members]
  by_cases before : node ∈ earlier <;> simp [before]

theorem Pending.nodes_foldl_submitNode (nodes : List NodeId) (pending : Pending) :
    (nodes.foldl submitNode pending).nodes =
      nodes.foldl (fun list node => if node ∈ list then list else list ++ [node]) pending.nodes := by
  induction nodes generalizing pending with
  | nil => rfl
  | cons head rest inductionHypothesis =>
      rw [List.foldl_cons, List.foldl_cons, inductionHypothesis]
      congr 1
      unfold submitNode
      split <;> rfl

theorem Pending.mem_foldl_submitNode (nodes : List NodeId) (pending : Pending) (node : NodeId) :
    node ∈ (nodes.foldl submitNode pending).nodes ↔ node ∈ pending.nodes ∨ node ∈ nodes := by
  rw [nodes_foldl_submitNode, mem_taken_in]

theorem Pending.foldl_submitNode_rest (nodes : List NodeId) (pending : Pending) :
    (nodes.foldl submitNode pending).depth = pending.depth ∧
      (nodes.foldl submitNode pending).slots = pending.slots := by
  induction nodes generalizing pending with
  | nil => simp
  | cons head rest inductionHypothesis =>
      rw [List.foldl_cons, (inductionHypothesis _).1, (inductionHypothesis _).2]
      unfold submitNode
      split <;> exact ⟨rfl, rfl⟩

theorem Pending.nodup_foldl_submitNode (nodes : List NodeId) (pending : Pending)
    (distinct : pending.nodes.Nodup) : (nodes.foldl submitNode pending).nodes.Nodup := by
  obtain ⟨added, taken, once, members⟩ := exists_taken_in nodes pending.nodes
  rw [nodes_foldl_submitNode, taken]
  refine List.nodup_append.mpr ⟨distinct, once, ?_⟩
  rintro node before other later rfl
  exact ((members node).mp later).2 before

namespace Graph

theorem known_eq_some_iff {graph : Graph} {node : NodeId} {value : Option Value} :
    graph.known node = some value ↔
      ∃ present, graph.nodes.get? node = some present ∧ present.cache = .ready value := by
  rw [known, Option.bind_eq_some_iff]
  constructor
  · rintro ⟨present, found, ready⟩
    refine ⟨present, found, ?_⟩
    cases cached : present.cache with
    | ready other =>
        rw [cached] at ready
        cases ready
        rfl
    | stale => simp [cached, Cache.value?] at ready
    | computing => simp [cached, Cache.value?] at ready
  · rintro ⟨present, found, cached⟩
    exact ⟨present, found, by rw [cached]; rfl⟩

/-- A node that is to be calculated on the next read. -/
def Stale (graph : Graph) (node : NodeId) : Prop :=
  ∃ present, graph.nodes.get? node = some present ∧ present.cache = .stale

/-- The cached values of the `affected` nodes are dropped and nothing else happens, apart
from records of changes and notes of outdated calculations. -/
structure Fades (graph other : Graph) (affected : NodeId → Prop) : Prop where
  shape : other.shape = graph.shape
  edges : other.edges = graph.edges
  closed : ∀ producer consumer, graph.Feeds producer consumer → affected producer →
    affected consumer
  kept : ∀ node, ¬ affected node → other.nodes.get? node = graph.nodes.get? node
  dropped : ∀ node, affected node → other.nodes.get? node =
    (graph.nodes.get? node).map fun present =>
      { present with cache := present.cache.invalidate }
  evaluating : other.evaluating = graph.evaluating
  outdated : ∀ node, node ∈ other.outdated → node ∈ graph.outdated ∨ node ∈ graph.evaluating
  subscriptions : other.subscriptions = graph.subscriptions
  lastSubscription : other.lastSubscription = graph.lastSubscription
  registered : other.registered = graph.registered
  journal : other.journal = graph.journal
  depth : other.pending.depth = graph.pending.depth
  slots : other.pending.slots = graph.pending.slots
  pending : ∀ node ∈ graph.pending.nodes, node ∈ other.pending.nodes
  once : graph.pending.nodes.Nodup → other.pending.nodes.Nodup
  noted : ∀ node ∈ graph.outdated, node ∈ other.outdated

namespace Fades

variable {graph middle other : Graph} {affected more : NodeId → Prop}

theorem refl (graph : Graph) : graph.Fades graph fun _ => False where
  shape := rfl
  edges := rfl
  closed := fun _ _ _ none => none
  kept := fun _ _ => rfl
  dropped := fun _ none => none.elim
  evaluating := rfl
  outdated := fun _ => Or.inl
  subscriptions := rfl
  lastSubscription := rfl
  registered := rfl
  journal := rfl
  depth := rfl
  slots := rfl
  pending := fun _ member => member
  once := fun distinct => distinct
  noted := fun _ member => member

theorem trans (first : graph.Fades middle affected) (second : middle.Fades other more) :
    graph.Fades other fun node => affected node ∨ more node where
  shape := by rw [second.shape, first.shape]
  edges := by rw [second.edges, first.edges]
  closed := by
    intro producer consumer feeds reached
    rcases reached with early | late
    · exact Or.inl (first.closed _ _ feeds early)
    · right
      apply second.closed _ _ _ late
      rw [Feeds, first.edges]
      exact feeds
  kept := by
    intro node spared
    rw [not_or] at spared
    rw [second.kept node spared.2, first.kept node spared.1]
  dropped := by
    intro node reached
    by_cases early : affected node
    · by_cases late : more node
      · rw [second.dropped node late, first.dropped node early, Option.map_map]
        congr 1
        funext present
        cases cached : present.cache <;> simp [Cache.invalidate, cached]
      · rw [second.kept node late, first.dropped node early]
    · have late : more node := reached.resolve_left early
      rw [second.dropped node late, first.kept node early]
  evaluating := by rw [second.evaluating, first.evaluating]
  outdated := by
    intro node member
    rcases second.outdated node member with before | running
    · exact first.outdated node before
    · exact Or.inr (first.evaluating ▸ running)
  subscriptions := by rw [second.subscriptions, first.subscriptions]
  lastSubscription := by rw [second.lastSubscription, first.lastSubscription]
  registered := by rw [second.registered, first.registered]
  journal := by rw [second.journal, first.journal]
  depth := by rw [second.depth, first.depth]
  slots := by rw [second.slots, first.slots]
  pending := fun node member => second.pending node (first.pending node member)
  once := fun distinct => second.once (first.once distinct)
  noted := fun node member => second.noted node (first.noted node member)

theorem congr (fades : graph.Fades other affected) (same : ∀ node, affected node ↔ more node) :
    graph.Fades other more := by
  have equal : affected = more := funext fun node => propext (same node)
  rw [← equal]
  exact fades

theorem contains (fades : graph.Fades other affected) (node : NodeId) :
    other.nodes.contains node = graph.nodes.contains node := by
  unfold Table.contains
  by_cases reached : affected node
  · rw [fades.dropped node reached, Option.isSome_map]
  · rw [fades.kept node reached]

theorem reaches (fades : graph.Fades other affected) : other.Reaches = graph.Reaches := by
  unfold Reaches Feeds
  rw [fades.edges]

theorem known_kept (fades : graph.Fades other affected) {node : NodeId}
    (spared : ¬ affected node) : other.known node = graph.known node := by
  rw [known, known, fades.kept node spared]

theorem known_dropped (fades : graph.Fades other affected) {node : NodeId}
    (reached : affected node) : other.known node = none := by
  rw [known, fades.dropped node reached]
  cases graph.nodes.get? node <;> simp

theorem stale (fades : graph.Fades other affected) {node : NodeId} (stale : graph.Stale node) :
    other.Stale node := by
  obtain ⟨present, found, cached⟩ := stale
  by_cases reached : affected node
  · refine ⟨{ present with cache := present.cache.invalidate }, ?_, by rw [cached]; rfl⟩
    rw [fades.dropped node reached, found]
    rfl
  · exact ⟨present, (fades.kept node reached).trans found, cached⟩

theorem dependents (fades : graph.Fades other affected) (starts : List NodeId) (node : NodeId) :
    node ∈ other.dependents starts ↔ node ∈ graph.dependents starts := by
  rw [mem_dependents_iff, mem_dependents_iff, fades.reaches]
  simp only [fades.contains]

end Fades

theorem dependents_closed (graph : Graph) {starts : List NodeId} {producer consumer : NodeId}
    (feeds : graph.Feeds producer consumer) (reached : producer ∈ graph.dependents starts) :
    consumer ∈ graph.dependents starts := by
  rw [mem_dependents_iff] at reached ⊢
  obtain ⟨start, member, exists', path⟩ := reached
  exact ⟨start, member, exists', path.tail feeds⟩

theorem mem_noteOutdated (graph : Graph) (node : NodeId) :
    node ∈ graph.noteOutdated.outdated ↔ node ∈ graph.outdated ∨ node ∈ graph.evaluating :=
  mem_taken_in

theorem get?_dropCaches (graph : Graph) (nodes : List NodeId) (node : NodeId) :
    (graph.dropCaches nodes).nodes.get? node =
      if node ∈ nodes then
        (graph.nodes.get? node).map fun present =>
          { present with cache := present.cache.invalidate }
      else graph.nodes.get? node := by
  simp only [dropCaches, Table.get?_modifyWhere, NodeSet.contains_ofList, List.contains_iff_mem]

/-- Marking as stale fades all that depends on the starts. -/
theorem fades_markStale (graph : Graph) (starts : List NodeId) :
    graph.Fades (graph.markStale starts) fun node => node ∈ graph.dependents starts where
  shape := graph.shape_markStale starts
  edges := rfl
  closed := fun _ _ feeds reached => graph.dependents_closed feeds reached
  kept := by
    intro node spared
    rw [markStale, get?_dropCaches, if_neg spared]
    rfl
  dropped := by
    intro node reached
    rw [markStale, get?_dropCaches, if_pos reached]
    rfl
  evaluating := rfl
  outdated := fun node member => (graph.mem_noteOutdated node).mp member
  subscriptions := rfl
  lastSubscription := rfl
  registered := rfl
  journal := rfl
  depth := rfl
  slots := rfl
  pending := fun _ member => member
  once := fun distinct => distinct
  noted := fun node member => (graph.mem_noteOutdated node).mpr (Or.inl member)

theorem invalidate_eq (graph : Graph) (start : NodeId) :
    graph.invalidate start =
      { graph.markStale [start] with
        pending := (graph.dependents [start]).foldl Pending.submitNode graph.pending } := by
  rw [invalidate, foldl_submitNode]
  rfl

/-- Invalidation fades all that depends on its start. -/
theorem fades_invalidate (graph : Graph) (start : NodeId) :
    graph.Fades (graph.invalidate start) fun node => node ∈ graph.dependents [start] := by
  have marked := graph.fades_markStale [start]
  have buffer := Pending.foldl_submitNode_rest (graph.dependents [start]) graph.pending
  rw [invalidate_eq]
  exact
    { shape := marked.shape
      edges := marked.edges
      closed := marked.closed
      kept := marked.kept
      dropped := marked.dropped
      evaluating := rfl
      outdated := marked.outdated
      subscriptions := rfl
      lastSubscription := rfl
      registered := rfl
      journal := rfl
      depth := buffer.1
      slots := buffer.2
      pending := fun node member => (Pending.mem_foldl_submitNode _ _ node).mpr (Or.inl member)
      once := Pending.nodup_foldl_submitNode _ _
      noted := marked.noted }

theorem pending_invalidate (graph : Graph) (start node : NodeId) :
    node ∈ (graph.invalidate start).pending.nodes ↔
      node ∈ graph.pending.nodes ∨ node ∈ graph.dependents [start] := by
  rw [invalidate_eq]
  exact Pending.mem_foldl_submitNode _ _ node

theorem outdated_invalidate (graph : Graph) (start node : NodeId) :
    node ∈ (graph.invalidate start).outdated ↔
      node ∈ graph.outdated ∨ node ∈ graph.evaluating := by
  rw [invalidate_eq]
  exact graph.mem_noteOutdated node

/-- Invalidate several nodes. -/
def invalidateAll (graph : Graph) (starts : List NodeId) : Graph := starts.foldl invalidate graph

theorem fades_invalidateAll (graph : Graph) (starts : List NodeId) :
    graph.Fades (graph.invalidateAll starts) fun node => node ∈ graph.dependents starts := by
  induction starts generalizing graph with
  | nil =>
      apply (Fades.refl graph).congr
      simp [mem_dependents_iff]
  | cons start rest inductionHypothesis =>
      have first := graph.fades_invalidate start
      apply (first.trans (inductionHypothesis (graph.invalidate start))).congr
      intro node
      rw [first.dependents]
      simp [mem_dependents_iff]

theorem pending_invalidateAll (graph : Graph) (starts : List NodeId) (node : NodeId) :
    node ∈ (graph.invalidateAll starts).pending.nodes ↔
      node ∈ graph.pending.nodes ∨ node ∈ graph.dependents starts := by
  induction starts generalizing graph with
  | nil => simp [invalidateAll, mem_dependents_iff]
  | cons start rest inductionHypothesis =>
      have first := graph.fades_invalidate start
      have step := inductionHypothesis (graph.invalidate start)
      rw [invalidateAll] at step
      rw [invalidateAll, List.foldl_cons, step, pending_invalidate, first.dependents, or_assoc]
      simp [mem_dependents_iff]

/-- Unless there is nothing to invalidate, all calculations that are going on are noted. -/
theorem outdated_invalidateAll {graph : Graph} {starts : List NodeId} (some : starts ≠ [])
    {node : NodeId} (running : node ∈ graph.evaluating) :
    node ∈ (graph.invalidateAll starts).outdated := by
  cases starts with
  | nil => contradiction
  | cons start rest =>
      have noted := (graph.outdated_invalidate start node).mpr (Or.inr running)
      exact ((graph.invalidate start).fades_invalidateAll rest).noted node noted

theorem invalidateStage_eq (graph : Graph) (stat : StatId) (stage : Stage) (path : PathId) :
    graph.invalidateStage stat stage path =
      graph.invalidateAll (graph.node? stat stage path).toList := by
  unfold invalidateStage
  cases graph.node? stat stage path <;> rfl

theorem invalidateTargets_eq (graph : Graph) (behaviors : List Behavior) :
    graph.invalidateTargets behaviors =
      graph.invalidateAll (behaviors.flatMap graph.behaviorTargets) := rfl

theorem invalidateAll_append (graph : Graph) (starts more : List NodeId) :
    graph.invalidateAll (starts ++ more) = (graph.invalidateAll starts).invalidateAll more :=
  List.foldl_append

theorem node?_invalidateAll (graph : Graph) (starts : List NodeId) :
    (graph.invalidateAll starts).node? = graph.node? :=
  node?_of_shape (graph.fades_invalidateAll starts).shape

/-- The nodes that a change of the links between a source and a target bears on. -/
def linkTargets (graph : Graph) (source target : StatId) : List NodeId :=
  let linked := graph.links.targets source
  let targets := if target ∈ linked then linked else linked ++ [target]
  (graph.node? source .pathTotal .main).toList ++ targets.flatMap fun stat =>
    (graph.node? stat .uncappedSubtotal .main).toList ++
      (graph.node? stat .base (.convertedFrom source)).toList

theorem linkChanged_eq (graph : Graph) (source target : StatId) :
    graph.linkChanged source target = graph.invalidateAll (graph.linkTargets source target) := by
  have general (targets : List StatId) (starts : List NodeId) :
      targets.foldl
        (fun changed stat =>
          (changed.invalidateStage stat .uncappedSubtotal .main).invalidateStage stat .base
            (.convertedFrom source)) (graph.invalidateAll starts) =
        graph.invalidateAll (starts ++ targets.flatMap fun stat =>
          (graph.node? stat .uncappedSubtotal .main).toList ++
            (graph.node? stat .base (.convertedFrom source)).toList) := by
    induction targets generalizing starts with
    | nil => simp
    | cons stat rest inductionHypothesis =>
        rw [List.foldl_cons, invalidateStage_eq, invalidateStage_eq, node?_invalidateAll,
          node?_invalidateAll, ← invalidateAll_append, ← invalidateAll_append,
          inductionHypothesis, List.flatMap_cons, List.append_assoc, List.append_assoc,
          List.append_assoc, node?_invalidateAll]
  rw [linkChanged, linkTargets, invalidateStage_eq]
  exact general _ _

end Graph
end CharacterSheet
