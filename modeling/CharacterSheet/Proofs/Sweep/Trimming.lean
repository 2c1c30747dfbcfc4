import CharacterSheet.Proofs.Sweep.Collecting
import CharacterSheet.Proofs.Subscription.Registries

/-!
Contract: a sweep leaves nothing for a second sweep by the same rules.

Owns:
- trimmed graphs, of which a sweep takes nothing and which it leaves exactly as they are;
- what is needed before a sweep is needed after it, although pipelines and edges have gone;
- a swept graph is trimmed, whatever the rules keep, and so a sweep is idempotent.

Rules only look at the stat, the stage or form and the path of what they are asked about, and these
are the same for what a sweep has left. So whatever a second sweep could take, the first one would
have taken already.
-/

namespace CharacterSheet
namespace Graph

variable {vocabulary : Vocabulary} {graph : Graph}

/-- There is nothing that a sweep could take: no stage, no roster and no pipeline, and neither a
value nor, of a contribution node, an edge that is not needed. -/
structure Trimmed (rules : Retention) (graph : Graph) : Prop where
  nodes : graph.sweptNodes rules = []
  slots : graph.sweptSlots rules = []
  pipelines : graph.removablePipelines rules = []
  stale : ∀ node address, graph.addressOf? node = some address → ¬ graph.Needed node →
    graph.Stale node
  aside : ∀ node modifier, graph.addressOf? node = some (.contribution modifier) →
    ¬ graph.Needed node → graph.producers node = []

/-! ### Trimmed graphs stay as they are -/

/-- To take the value from a node that has none changes nothing. -/
theorem dropCache_stale {node : NodeId} (stale : graph.Stale node) :
    (graph.modifyNode node fun old => { old with cache := old.cache.invalidate }) = graph := by
  obtain ⟨present, found, cached⟩ := stale
  have same : graph.nodes.modify node (fun old => { old with cache := old.cache.invalidate }) =
      graph.nodes := by
    refine Table.modifyWhere_unchanged fun key value selected here => ?_
    rw [of_decide_eq_true selected, found] at here
    cases here
    have kept : present.cache.invalidate = present.cache := by
      rw [cached]
      rfl
    rw [kept]
  rw [modifyNode, same]

theorem relax_stale {node : NodeId} (stale : graph.Stale node)
    (aside : ∀ modifier, graph.addressOf? node = some (.contribution modifier) →
      graph.producers node = []) : graph.relax node = graph := by
  obtain ⟨present, found, _⟩ := id stale
  unfold relax
  rw [found]
  dsimp only
  cases address : present.address with
  | pipeline stat stage path => exact dropCache_stale stale
  | contribution modifier =>
      have unread := aside modifier (by rw [addressOf?_of_get? found, address])
      have edges : graph.edges.filter (·.consumer ≠ node) = graph.edges := by
        refine List.filter_eq_self.mpr fun edge member => decide_eq_true fun reads => ?_
        have producer : edge.producer ∈ graph.producers node :=
          (mem_producers_iff _ _ _).mpr (by rw [Feeds, ← reads]; exact member)
        rw [unread] at producer
        contradiction
      show (resetNode graph node) = graph
      rw [resetNode, edges]
      exact dropCache_stale stale

theorem Trimmed.relaxed_eq {rules : Retention} (trimmed : graph.Trimmed rules) :
    graph.relaxed rules = graph := by
  have thinned : graph.thinned rules = graph := by
    rw [thinned, trimmed.nodes, trimmed.slots]
    rfl
  have relaxes : ∀ nodes : List NodeId, (∀ node ∈ nodes, graph.relax node = graph) →
      nodes.foldl relax graph = graph := by
    intro nodes same
    induction nodes with
    | nil => rfl
    | cons node rest inductionHypothesis =>
        rw [List.foldl_cons, same node List.mem_cons_self]
        exact inductionHypothesis fun other member => same other (List.mem_cons_of_mem node member)
  rw [relaxed, thinned]
  refine relaxes _ fun node member => ?_
  obtain ⟨listed, unneeded⟩ := List.mem_filter.mp member
  rw [Bool.not_eq_true', ← Bool.not_eq_true] at unneeded
  obtain ⟨present, found⟩ := Option.isSome_iff_exists.mp ((Table.mem_keys_iff _ _).mp listed)
  exact relax_stale (trimmed.stale node _ (addressOf?_of_get? found) unneeded)
    fun modifier address => trimmed.aside node modifier address unneeded

/-- A sweep takes nothing from a trimmed graph, says so, and leaves it exactly as it is. -/
theorem Trimmed.sweep_eq {rules : Retention} (trimmed : graph.Trimmed rules)
    (idle : graph.pending.depth = 0) : graph.sweep rules = (.ok {}, graph) := by
  have swept : graph.swept rules = graph := by
    rw [Graph.swept, trimmed.relaxed_eq, trimmed.pipelines]
    rfl
  rw [Graph.sweep_eq, if_neg (by rw [idle]; exact Nat.lt_irrefl 0), trimmed.nodes, trimmed.slots,
    trimmed.relaxed_eq, trimmed.pipelines, swept]
  rfl

theorem Trimmed.record {rules : Retention} (trimmed : graph.Trimmed rules) (entry : Record) :
    (graph.record entry).Trimmed rules :=
  ⟨trimmed.nodes, trimmed.slots, trimmed.pipelines, trimmed.stale, trimmed.aside⟩

/-! ### What a sweep leaves is trimmed -/

section Sweep

variable (rules : Retention) (intact : graph.Intact vocabulary)
include intact

/-- What was needed before a sweep is needed after it: the roots are left, and so are the edges along
which they depend on it. -/
theorem Needed.swept {node : NodeId} (needed : graph.Needed node) :
    (graph.swept rules).Needed node := by
  have feeds (producer consumer : NodeId) (needed : graph.Needed consumer)
      (reads : graph.Feeds producer consumer) : (graph.swept rules).Feeds producer consumer := by
    have edges := ((graph.relaxed rules).left_removePipelines
      ((graph.relaxed rules).removablePipelines rules)).1
    rw [Feeds, show (graph.swept rules).edges = (graph.relaxed rules).edges from edges]
    exact ((retains_relaxed rules intact needed).feeds producer).mpr reads
  have rooted (root : NodeId) (rooted : graph.Rooted root) : (graph.swept rules).Rooted root := by
    have needed := rooted.needed
    obtain ⟨present, found, watched⟩ | ⟨stat, registered, listed⟩ := rooted
    · obtain ⟨cache, kept⟩ := (sameSeats_swept rules intact).kept root present found watched
      exact .inl ⟨_, kept, watched⟩
    · obtain ⟨full, address, same⟩ := intact.formed.address_of_node? listed
      have stays : root ∉ graph.sweptNodes rules := fun leaves => (mem_sweptNodes leaves).1 needed
      have kept : (graph.swept rules).addressOf? root = some (.pipeline stat .total full) := by
        rw [addressOf?_swept rules intact, if_neg stays, address]
      have later := ((intact_swept rules intact).formed.node?_of_address kept).1
      rw [same, show (PathOf.main : PathId).at .total = .main from rfl] at later
      rw [← (sameBooks_swept rules intact).registered] at registered
      exact .inr ⟨stat, registered, later⟩
  obtain ⟨root, here, reaches⟩ := (graph.needed_iff node).mp needed
  refine (needed_iff _ node).mpr ⟨root, rooted root here, ?_⟩
  -- every node on the way to the root is needed, so its edges are left
  induction reaches using Relation.ReflTransGen.head_induction_on with
  | refl => exact .refl
  | head reads further inductionHypothesis =>
      have consumer := here.needed.reaches further
      exact .head (feeds _ _ consumer reads) (inductionHypothesis consumer)

omit intact in
/-- A pipeline that is left was not among those that go in the last phase. -/
theorem pipeline_of_swept {stat : StatId} {pipeline : Pipeline}
    (here : (graph.swept rules).pipelines.get? stat = some pipeline) :
    (graph.relaxed rules).pipelines.get? stat = some pipeline ∧
      stat ∉ (graph.relaxed rules).removablePipelines rules := by
  rw [get?_swept] at here
  split at here
  · cases here
  · next stays => exact ⟨here, stays⟩

/-- What a sweep leaves is trimmed, whatever the rules keep. -/
theorem trimmed_swept : (graph.swept rules).Trimmed rules where
  nodes := by
    refine List.eq_nil_iff_forall_not_mem.mpr fun node member => ?_
    obtain ⟨stat, pipeline, key, here, listed, unneeded, considered, removes⟩ :=
      (sweeps_node_iff _ _ _).mp member
    obtain ⟨relaxed, -⟩ := pipeline_of_swept rules here
    obtain ⟨before, early, same, stages, -⟩ := pipeline_of_relaxed rules intact relaxed
    obtain ⟨inside, stays⟩ := stages key node listed
    rw [← same] at considered removes
    exact stays ((sweeps_node_iff _ _ _).mpr ⟨stat, before, key, early, inside,
      fun needed => unneeded (needed.swept rules intact), considered, removes⟩)
  slots := by
    refine List.eq_nil_iff_forall_not_mem.mpr fun slot member => ?_
    obtain ⟨pipeline, filled, here, inside, empty, considered, removes⟩ :=
      (sweeps_slot_iff rules (intact_swept rules intact).formed slot).mp member
    obtain ⟨relaxed, -⟩ := pipeline_of_swept rules here
    obtain ⟨before, early, same, -, rosters⟩ := pipeline_of_relaxed rules intact relaxed
    obtain ⟨found, stays⟩ := rosters slot.form slot.path filled inside
    rw [← same] at considered removes
    exact stays ((sweeps_slot_iff rules intact.formed slot).mpr
      ⟨before, filled, early, found, empty, considered, removes⟩)
  pipelines := by
    refine List.eq_nil_iff_forall_not_mem.mpr fun stat member => ?_
    obtain ⟨⟨own, pipeline⟩, inside, rfl⟩ := List.mem_map.mp member
    obtain ⟨listed, removable⟩ := List.mem_filter.mp inside
    obtain ⟨relaxed, stays⟩ := pipeline_of_swept rules ((Table.get?_eq_some_iff _ _ _).mpr listed)
    refine stays (List.mem_map.mpr ⟨(own, pipeline), List.mem_filter.mpr
      ⟨(Table.get?_eq_some_iff _ _ _).mp relaxed, ?_⟩, rfl⟩)
    rw [(sameBooks_swept rules intact).registered,
      ← (sameBooks_relaxed rules intact).registered] at removable
    exact removable
  stale := fun _ _ found unneeded =>
    stale_swept rules intact found fun needed => unneeded (needed.swept rules intact)
  aside := fun _ _ found unneeded =>
    producers_swept rules found fun needed => unneeded (needed.swept rules intact)

/-- A second sweep by the same rules finds nothing to take. -/
theorem trimmed_sweep (idle : graph.pending.depth = 0) :
    (graph.sweep rules).2.Trimmed rules := by
  rw [Graph.sweep_eq, if_neg (by rw [idle]; exact Nat.lt_irrefl 0)]
  dsimp only
  split
  · exact trimmed_swept rules intact
  · exact (trimmed_swept rules intact).record _

end Sweep

end Graph

open CharacterSheet.Graph

/-- Whatever happened before, and whatever the rules keep, a sweep right after a sweep by the same
rules is not refused, reports nothing and leaves the whole graph as it is. -/
theorem sweep_idempotent (settings : Settings) (retention rules : Retention)
    (operations : List Operation) :
    let graph := (Sheet.run { settings, retention } operations).graph
    graph.pending.depth = 0 →
      (graph.sweep rules).2.sweep rules = (.ok {}, (graph.sweep rules).2) := by
  intro graph idle
  have intact : graph.Intact .everything := Sheet.intact_everything settings retention operations
  exact (trimmed_sweep rules intact idle).sweep_eq ((sameBooks_sweep rules intact).depth.trans idle)

/-- Rules that keep what rests on totals that are not needed any more. -/
def keepingTotals : Retention := { removesNode := fun _ stage _ => stage ≠ .total }

/-- The first sweep takes stages, a roster and a pipeline and leaves an unneeded total; the second
one does nothing. -/
theorem sweep_leftovers_twice :
    let graph := (Sheet.run { settings := { sweepAfterBatch := false } } leftovers).graph
    let swept := graph.sweep keepingTotals
    (graph.pending.depth = 0 ∧ swept.1 = .ok { nodes := 9, rosters := 1, pipelines := 1 }) ∧
      swept.2.sweep keepingTotals = (.ok {}, swept.2) := by
  have facts :
      (Sheet.run { settings := { sweepAfterBatch := false } } leftovers).graph.pending.depth = 0 ∧
        ((Sheet.run { settings := { sweepAfterBatch := false } } leftovers).graph.sweep
          keepingTotals).1 = .ok { nodes := 9, rosters := 1, pipelines := 1 } := by
    decide +kernel
  exact ⟨facts, sweep_idempotent { sweepAfterBatch := false } {} keepingTotals leftovers facts.1⟩

end CharacterSheet
