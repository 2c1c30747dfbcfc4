import CharacterSheet.Proofs.Change.Exploring
import CharacterSheet.Proofs.Change.Removing
import Mathlib.Algebra.Order.Ring.Nat

/-!
Contract: what holds of the graph behind a sheet at all times.

Owns:
- the agreement between subscribers and the table of subscriptions;
- intact graphs: sound, wired, and with subscribers that agree with the table;
- the changes that cannot harm a graph: explorations, turns, and whatever touches neither its
  nodes nor its shape;
- other rosters for a pipeline, with the same members.
-/

namespace CharacterSheet
namespace Graph

variable {vocabulary : Vocabulary} {graph other : Graph}

/-! ### Subscribers and subscriptions -/

/-- Only stages are watched; each subscriber stands once in the table, under the node that it
watches, and no number is handed out twice. -/
structure Watched (vocabulary : Vocabulary) (graph : Graph) : Prop where
  attended : graph.Attended
  enlisted : ∀ node present, graph.nodes.get? node = some present →
    ∀ subscriber ∈ present.subscribers,
      graph.subscriptions.get? subscriber.id = some (.node node) ∧
        ∀ reading ∈ subscriber.reads, reading.Within vocabulary
  distinct : ∀ node present, graph.nodes.get? node = some present →
    (present.subscribers.map (·.id)).Nodup
  numbered : ∀ id target, graph.subscriptions.get? id = some target →
    id.number ≤ graph.lastSubscription
  once : graph.pending.nodes.Nodup

/-- Only watched nodes, the table and the waiting changes matter. -/
theorem Watched.keep (watched : graph.Watched vocabulary)
    (nodes : ∀ node present, other.nodes.get? node = some present → present.subscribers ≠ [] →
      ∃ cache, graph.nodes.get? node = some { present with cache })
    (subscriptions : other.subscriptions = graph.subscriptions)
    (lastSubscription : other.lastSubscription = graph.lastSubscription)
    (once : other.pending.nodes.Nodup) : other.Watched vocabulary where
  attended := by
    intro node present found some
    obtain ⟨cache, before⟩ := nodes node present found some
    obtain ⟨stat, stage, path, address⟩ := watched.attended node _ before some
    rw [addressOf?, before] at address
    exact ⟨stat, stage, path, by rw [addressOf?, found]; exact address⟩
  enlisted := by
    intro node present found subscriber member
    obtain ⟨cache, before⟩ := nodes node present found (List.ne_nil_of_mem member)
    rw [subscriptions]
    exact watched.enlisted node _ before subscriber member
  distinct := by
    intro node present found
    by_cases none : present.subscribers = []
    · rw [none]
      exact List.nodup_nil
    · obtain ⟨cache, before⟩ := nodes node present found none
      have earlier := watched.distinct node _ before
      exact earlier
  numbered := by
    rw [subscriptions, lastSubscription]
    exact watched.numbered
  once := once

theorem Watched.listen (watched : graph.Watched vocabulary) (audience : graph.Audience other) :
    other.Watched vocabulary :=
  watched.keep audience.watched audience.subscriptions audience.lastSubscription
    (audience.once watched.once)

/-- Without subscriptions no node has subscribers. -/
theorem Watched.unwatched (watched : graph.Watched vocabulary)
    (none : graph.subscriptions = .empty) {node : NodeId} {present : Node}
    (found : graph.nodes.get? node = some present) : present.subscribers = [] := by
  apply List.eq_nil_iff_forall_not_mem.mpr
  intro subscriber member
  have listed := (watched.enlisted node present found subscriber member).1
  rw [none, Table.get?_empty] at listed
  contradiction

/-! ### Intact graphs -/

/-- What holds of a graph between any two operations. -/
structure Intact (vocabulary : Vocabulary) (graph : Graph) : Prop extends
    graph.Sound vocabulary where
  wired : graph.Wired
  watched : graph.Watched vocabulary

theorem Intact.initial : ({} : Graph).Intact vocabulary where
  formed := .initial
  stacked := by
    refine ⟨fun node => ?_, List.nodup_nil, fun _ none => absurd none List.not_mem_nil⟩
    simp only [Table.get?_empty, reduceCtorEq, false_and, exists_false, List.not_mem_nil]
  idle := rfl
  coherent := by
    have unknown (node : NodeId) : ({} : Graph).known node = none := rfl
    refine fun _ => ⟨fun node value found => ?_, fun node value found => ?_⟩ <;>
      simp [unknown] at found
  wired := by
    refine ⟨fun _ _ feeds => ?_, fun _ _ feeds => ?_⟩ <;> exact absurd feeds List.not_mem_nil
  watched := by
    refine ⟨fun _ _ found => ?_, fun _ _ found => ?_, fun _ _ found => ?_, fun _ _ found => ?_,
      List.nodup_nil⟩ <;> simp at found

theorem Intact.turn (intact : graph.Intact vocabulary) (turns : Turns vocabulary graph other)
    (wired : other.Wired) : other.Intact vocabulary :=
  ⟨turns.sound, wired, intact.watched.listen turns.audience⟩

theorem Intact.explore (intact : graph.Intact vocabulary)
    (explores : Explores vocabulary graph other) : other.Intact vocabulary :=
  ⟨explores.sound intact.toSound, explores.wired intact.toResting intact.wired,
    intact.watched.listen (.of_grows (explores.advances intact.toResting).grows)⟩

theorem Sound.of_view (sound : graph.Sound vocabulary) (shape : other.shape = graph.shape)
    (edges : other.edges = graph.edges)
    (caches : ∀ node, (other.nodes.get? node).map (·.cache) =
      (graph.nodes.get? node).map (·.cache))
    (evaluating : other.evaluating = graph.evaluating)
    (outdated : other.outdated = graph.outdated) : other.Sound vocabulary where
  formed := sound.formed.of_shape shape
  stacked := by
    constructor
    · intro node
      rw [evaluating, ← sound.stacked.computing]
      have same := caches node
      cases found : other.nodes.get? node <;> cases before : graph.nodes.get? node <;>
        simp_all
    · rw [evaluating]
      exact sound.stacked.distinct
    · rw [evaluating, outdated]
      exact sound.stacked.outdated
  idle := evaluating.trans sound.idle
  coherent := by
    intro faithful
    refine Alters.clean (.of_shape shape edges ?_) sound.formed (sound.coherent faithful)
    funext node
    have same := caches node
    cases found : other.nodes.get? node <;> cases before : graph.nodes.get? node <;>
      simp_all [known]

/-- A change that touches neither the nodes of a graph nor its shape. -/
theorem Intact.aside (intact : graph.Intact vocabulary) (nodes : other.nodes = graph.nodes)
    (shape : other.shape = graph.shape) (edges : other.edges = graph.edges)
    (evaluating : other.evaluating = graph.evaluating)
    (outdated : other.outdated = graph.outdated)
    (subscriptions : other.subscriptions = graph.subscriptions)
    (lastSubscription : other.lastSubscription = graph.lastSubscription)
    (once : other.pending.nodes.Nodup) : other.Intact vocabulary where
  toSound := intact.toSound.of_view shape edges (fun _ => by rw [nodes]) evaluating outdated
  wired := by
    refine intact.wired.keep (fun _ _ feeds => ?_) (fun _ _ _ => ?_) fun _ _ _ _ _ _ =>
      (enrolls_of_shape shape).mpr
    · rw [Feeds, edges] at feeds
      exact feeds
    · rw [addressOf?_of_shape shape]
      exact ⟨rfl, rfl⟩
  watched := intact.watched.keep (fun _ present found _ => ⟨present.cache, nodes ▸ found⟩)
    subscriptions lastSubscription once

theorem Intact.record (intact : graph.Intact vocabulary) (entry : Record) :
    (graph.record entry).Intact vocabulary :=
  intact.aside rfl rfl rfl rfl rfl rfl rfl intact.watched.once

/-- Opening and closing batches. -/
theorem Intact.deepen (intact : graph.Intact vocabulary) (depth : Nat) :
    (graph.modifyPending fun pending => { pending with depth }).Intact vocabulary :=
  intact.aside rfl rfl rfl rfl rfl rfl rfl intact.watched.once

theorem Intact.register (intact : graph.Intact vocabulary) (registered : List StatId) :
    ({ graph with registered } : Graph).Intact vocabulary :=
  intact.aside rfl rfl rfl rfl rfl rfl rfl intact.watched.once

theorem intact_ensurePipeline (intact : graph.Intact vocabulary) {stat : Stat}
    (resolved : stat.isResolved) (within : stat.HeadWithin vocabulary) :
    (graph.ensurePipeline stat).Intact vocabulary :=
  intact.turn (turns_ensurePipeline intact.toSound resolved within)
    (intact.wired.grow (advances_ensurePipeline intact.formed intact.stacked resolved within).grows
      (edges_ensurePipeline graph stat))

/-! ### Other rosters for a pipeline -/

end Graph

namespace Pipeline

/-- The rosters that have members: their paths and these members. -/
def filled (pipeline : Pipeline) : List (Path × List ModifierId) :=
  pipeline.slots.entries.filterMap fun entry =>
    if entry.2.roster.members.isEmpty then none else some (entry.2.path, entry.2.roster.members)

/-- The number of members of all rosters together. -/
def enrollment (pipeline : Pipeline) : Nat :=
  (pipeline.slots.values.map fun slot => slot.roster.members.length).sum

theorem occupied_filled (pipeline : Pipeline) :
    pipeline.occupied = pipeline.filled.map Prod.fst := by
  rw [occupied_eq, filled]
  induction pipeline.slots.entries with
  | nil => rfl
  | cons entry rest inductionHypothesis =>
      rw [List.filterMap_cons]
      by_cases empty : entry.2.roster.members.isEmpty = true
      · rw [if_pos empty, List.filter_cons_of_neg (by simp [empty])]
        exact inductionHypothesis
      · rw [if_neg empty, List.filter_cons_of_pos (by simp [empty]), List.map_cons, List.map_cons,
          inductionHypothesis]

/-- Rosters without members do not count. -/
theorem enrollment_filled (pipeline : Pipeline) :
    pipeline.enrollment = (pipeline.filled.map fun roster => roster.2.length).sum := by
  rw [enrollment, filled, Table.values]
  induction pipeline.slots.entries with
  | nil => rfl
  | cons entry rest inductionHypothesis =>
      rw [List.filterMap_cons, List.map_cons, List.map_cons, List.sum_cons, inductionHypothesis]
      by_cases empty : entry.2.roster.members.isEmpty = true
      · rw [if_pos empty, List.isEmpty_iff.mp empty]
        exact Nat.zero_add _
      · rw [if_neg empty, List.map_cons, List.sum_cons]

end Pipeline

namespace Graph

variable {vocabulary : Vocabulary} {graph other : Graph}

/-- The rosters of a stat that have members: their paths and these members. -/
def filled (graph : Graph) (stat : StatId) : List (Path × List ModifierId) :=
  (graph.pipelines.get? stat).elim [] (·.filled)

/-- The paths of a stat are those of its rosters with members and those that links open. -/
theorem paths_of_filled {stat : StatId} (filled : other.filled stat = graph.filled stat)
    (links : other.links = graph.links) : other.paths stat = graph.paths stat := by
  have occupied (base : Graph) : (base.pipelines.get? stat).elim [] (·.occupied) =
      (base.filled stat).map Prod.fst := by
    rw [Graph.filled]
    cases base.pipelines.get? stat with
    | none => rfl
    | some pipeline => exact pipeline.occupied_filled
  rw [paths_eq, paths_eq, occupied, occupied, filled, links]

/-- Rosters that can take the place of those of a pipeline: well-formed, with the same members
on the same paths. -/
structure Refits (vocabulary : Vocabulary) (modifiers : Table ModifierId Modifier) (stat : StatId)
    (pipeline : Pipeline) (slots : Table (Form × PathId) Slot) : Prop where
  formed : ∀ form path slot, slots.get? (form, path) = some slot →
    slot.WellFormed vocabulary modifiers stat form path
  members : ∀ form path, { pipeline with slots }.members form path = pipeline.members form path
  filled : { pipeline with slots }.filled = pipeline.filled

theorem Refits.enrollment {modifiers : Table ModifierId Modifier} {stat : StatId}
    {pipeline : Pipeline} {slots : Table (Form × PathId) Slot}
    (refits : Refits vocabulary modifiers stat pipeline slots) :
    { pipeline with slots }.enrollment = pipeline.enrollment := by
  rw [Pipeline.enrollment_filled, Pipeline.enrollment_filled, refits.filled]

/-- The graph with other rosters for one pipeline. -/
def reslot (graph : Graph) (stat : StatId) (slots : Table (Form × PathId) Slot) : Graph :=
  graph.modifyPipeline stat fun pipeline => { pipeline with slots }

theorem pipelines_reslot (graph : Graph) (stat : StatId) (slots : Table (Form × PathId) Slot)
    (other : StatId) : (graph.reslot stat slots).pipelines.get? other =
      if other = stat then
        (graph.pipelines.get? other).map fun pipeline => { pipeline with slots }
      else graph.pipelines.get? other :=
  graph.pipelines.get?_modify _ _ _

theorem node?_reslot (graph : Graph) (stat : StatId) (slots : Table (Form × PathId) Slot) :
    (graph.reslot stat slots).node? = graph.node? := by
  funext other stage path
  rw [node?, node?, pipelines_reslot]
  split
  · cases graph.pipelines.get? other <;> rfl
  · rfl

section Refitting

variable {stat : StatId} {pipeline : Pipeline} {slots : Table (Form × PathId) Slot}
  (here : graph.pipelines.get? stat = some pipeline)
  (refits : Refits vocabulary graph.modifiers stat pipeline slots)
include here refits

theorem members_reslot (own : StatId) (form : Form) (path : PathId) :
    (graph.reslot stat slots).members own form path = graph.members own form path := by
  unfold members
  rw [pipelines_reslot]
  by_cases same : own = stat
  · subst same
    rw [if_pos rfl, here]
    exact refits.members form path
  · rw [if_neg same]

theorem filled_reslot (own : StatId) : (graph.reslot stat slots).filled own = graph.filled own := by
  rw [filled, filled, pipelines_reslot]
  split
  · next same =>
    subst same
    rw [here, Option.map_some, Option.elim_some, Option.elim_some, refits.filled]
  · rfl

theorem WellFormed.reslot (formed : graph.WellFormed vocabulary) :
    (graph.reslot stat slots).WellFormed vocabulary where
  numbered := formed.numbered
  listed := by
    intro own old stage path node found listed
    rw [pipelines_reslot] at found
    split at found
    · rw [Option.map_eq_some_iff] at found
      obtain ⟨before, there, rfl⟩ := found
      exact formed.listed _ _ _ _ _ there listed
    · exact formed.listed _ _ _ _ _ found listed
  named := by
    intro node own stage path address
    obtain ⟨before, there, listed⟩ := formed.named _ _ _ _ address
    rw [pipelines_reslot, there]
    split <;> exact ⟨_, rfl, listed⟩
  addressed := formed.addressed
  contributing := formed.contributing
  contributed := formed.contributed
  present := formed.present
  pipelines := by
    intro own old found
    rw [pipelines_reslot] at found
    split at found
    · next same =>
      subst same
      rw [here] at found
      cases found
      have before := formed.pipelines _ _ here
      exact ⟨before.keyed, before.resolved, before.within, refits.formed⟩
    · exact formed.pipelines _ _ found
  behaviors := formed.behaviors
  links := formed.links

theorem alters_reslot (formed : graph.WellFormed vocabulary) :
    graph.Alters (graph.reslot stat slots) Clean Clean := by
  refine .of_content rfl (fun _ => rfl) ?_ (fun _ _ found => found) ?_
  · intro query node found
    cases query with
    | node own stage path =>
        simp only [located, node?_reslot] at found ⊢
        exact found
    | contribution modifier => exact found
  · intro node address _ found
    cases address with
    | contribution modifier => exact ⟨rfl, rfl⟩
    | pipeline own stage path =>
        refine ⟨planOf_congr ?_ (formed.node?_of_address found).2
          fun other there => (formed.pipelines own other there).keyed, rfl⟩
        refine ⟨?_, fun form _ => members_reslot here refits own form path.id, fun _ _ _ => rfl,
          fun _ _ _ => ⟨rfl, Or.inl rfl⟩, fun _ _ => ⟨rfl, rfl⟩,
          fun _ => paths_of_filled (filled_reslot here refits own) rfl⟩
        rw [pipelines_reslot]
        split
        · cases graph.pipelines.get? own <;> rfl
        · rfl

/-- Other rosters with the same members harm nothing. -/
theorem Intact.reslot (intact : graph.Intact vocabulary) :
    (graph.reslot stat slots).Intact vocabulary where
  formed := intact.formed.reslot here refits
  stacked := ⟨intact.stacked.computing, intact.stacked.distinct, intact.stacked.outdated⟩
  idle := intact.idle
  coherent := fun faithful =>
    (alters_reslot here refits intact.formed).clean intact.formed (intact.coherent faithful)
  wired := by
    refine intact.wired.keep (fun _ _ feeds => feeds) (fun _ _ _ => ⟨rfl, rfl⟩) ?_
    intro producer consumer address modifier _ _ enrolls
    cases address with
    | contribution own => exact enrolls
    | pipeline own stage path =>
        simpa only [Enrolls, members_reslot here refits] using enrolls
  watched := intact.watched.keep (fun _ present found _ => ⟨present.cache, found⟩) rfl rfl
    intact.watched.once

end Refitting
end Graph
end CharacterSheet
