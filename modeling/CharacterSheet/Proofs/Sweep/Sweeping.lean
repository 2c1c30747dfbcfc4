import CharacterSheet.Proofs.Subscription.Subscribing

/-!
Contract: a sweep leaves a graph intact.

Owns:
- the needed nodes, which are closed under what was read;
- the removal of stages that nobody needs, of rosters without members and of empty pipelines;
- the loss of the values of nodes that stay although they are not needed, as one step;
- the proof that a sweep keeps a graph intact.
-/

namespace CharacterSheet
namespace Graph

variable {vocabulary : Vocabulary} {graph middle other : Graph}

/-! ### Needed nodes -/

/-- A needed node: something that is watched or registered depends on it. -/
def Needed (graph : Graph) (node : NodeId) : Prop := graph.needed.contains node = true

/-- Something that has to be kept: a watched node or the total of a registered stat. -/
def Rooted (graph : Graph) (node : NodeId) : Prop :=
  (∃ present, graph.nodes.get? node = some present ∧ present.subscribers ≠ []) ∨
    ∃ stat ∈ graph.registered, graph.node? stat .total .main = some node

/-- The needed nodes are what the roots depend on. -/
theorem needed_iff (graph : Graph) (node : NodeId) :
    graph.Needed node ↔ ∃ root, graph.Rooted root ∧ graph.Reaches node root := by
  have rooted (root : NodeId) : root ∈ ((graph.nodes.entries.filter fun entry =>
      !entry.2.subscribers.isEmpty).map (·.1) ++
        graph.registered.filterMap fun stat => graph.node? stat .total .main) ↔
      graph.Rooted root := by
    simp only [List.mem_append, List.mem_map, List.mem_filter, List.mem_filterMap, Rooted,
      Table.get?_eq_some_iff, Bool.not_eq_true', List.isEmpty_eq_false_iff, Prod.exists,
      exists_and_right, exists_eq_right]
  unfold Needed needed
  rw [NodeSet.contains_ofList, List.contains_iff_mem, mem_dependencies_iff]
  constructor
  · rintro ⟨root, member, reaches⟩
    exact ⟨root, (rooted root).mp member, reaches⟩
  · rintro ⟨root, root', reaches⟩
    exact ⟨root, (rooted root).mpr root', reaches⟩

theorem Rooted.needed {node : NodeId} (rooted : graph.Rooted node) : graph.Needed node :=
  (graph.needed_iff node).mpr ⟨node, rooted, .refl⟩

/-- What a needed node read is needed. -/
theorem Needed.producer {producer consumer : NodeId} (needed : graph.Needed consumer)
    (feeds : graph.Feeds producer consumer) : graph.Needed producer := by
  obtain ⟨root, rooted, reaches⟩ := (graph.needed_iff consumer).mp needed
  exact (graph.needed_iff producer).mpr ⟨root, rooted, .head feeds reaches⟩

theorem Needed.reaches {producer consumer : NodeId} (needed : graph.Needed consumer)
    (reaches : graph.Reaches producer consumer) : graph.Needed producer := by
  obtain ⟨root, rooted, further⟩ := (graph.needed_iff consumer).mp needed
  exact (graph.needed_iff producer).mpr ⟨root, rooted, reaches.trans further⟩

/-! ### Removing stages -/

/-- Nothing is taken from modifiers when stages go. -/
theorem WellFormed.abandons_stages (formed : graph.WellFormed vocabulary) {gone : NodeId → Prop}
    (staged : ∀ node address, gone node → graph.addressOf? node = some address →
      graph.Staged node) : graph.Abandons gone graph.modifiers graph.contributions := by
  refine .none formed fun modifier node found leaves => ?_
  have address := formed.contributing modifier node found
  obtain ⟨stat, stage, path, place⟩ := staged node _ leaves address
  rw [address] at place
  cases place

theorem Discards.retable_same {gone : NodeId → Prop} (discards : graph.Discards other gone) :
    other.retable graph.modifiers graph.contributions = other := by
  rw [← discards.modifiers, ← discards.contributions]
  rfl

/-- The removal of stages affects what rests on them. -/
theorem Discards.alters {gone : NodeId → Prop} (discards : graph.Discards other gone)
    (formed : graph.WellFormed vocabulary)
    (staged : ∀ node address, gone node → graph.addressOf? node = some address →
      graph.Staged node) : graph.Alters other (graph.Below gone) Clean := by
  have alters := formed.alters_discard discards (formed.abandons_stages staged)
  rwa [discards.retable_same] at alters

/-- The removal of stages that nobody watches. -/
theorem Intact.discard {gone : NodeId → Prop} (intact : graph.Intact vocabulary)
    (discards : graph.Discards other gone)
    (staged : ∀ node address, gone node → graph.addressOf? node = some address →
      graph.Staged node)
    (unwatched : ∀ node present, gone node → graph.nodes.get? node = some present →
      present.subscribers = []) : other.Intact vocabulary := by
  have formed := intact.formed.discard discards (intact.formed.abandons_stages staged)
  have wired := discards.wired intact.wired graph.modifiers graph.contributions
  rw [discards.retable_same] at formed wired
  exact
    { formed
      stacked := discards.stacked intact.toResting
      idle := discards.evaluating.trans intact.idle
      coherent := fun faithful =>
        (discards.alters intact.formed staged).clean intact.formed (intact.coherent faithful)
      wired
      watched := intact.watched.keep (fun _ _ found _ => discards.node_before found)
        (discards.subscriptions unwatched) discards.lastSubscription
        (discards.once intact.watched.once) }

/-! ### Removing rosters -/

/-- A roster without members can be taken away. -/
theorem refits_erase {modifiers : Table ModifierId Modifier} {stat : StatId} {pipeline : Pipeline}
    (formed : pipeline.WellFormed vocabulary modifiers stat) {form : Form} {path : PathId}
    (empty : ∀ slot, pipeline.slots.get? (form, path) = some slot → slot.roster.members = []) :
    Refits vocabulary modifiers stat pipeline (pipeline.slots.erase (form, path)) where
  formed := by
    intro other place slot found
    rw [Table.get?_erase] at found
    split at found
    · contradiction
    · exact formed.slots other place slot found
  members := by
    intro other place
    simp only [Pipeline.members, Table.get?_erase]
    by_cases own : (other, place) = (form, path)
    · cases own
      rw [if_pos rfl]
      cases found : pipeline.slots.get? (form, path) with
      | none => rfl
      | some slot => exact (empty slot found).symm
    · rw [if_neg own]
  filled := by
    apply Table.filterMap_erase
    intro slot found
    simp [empty slot found]

/-- A roster without members, if it is there at all. -/
def Vacant (graph : Graph) (slot : SlotId) : Prop :=
  graph.members slot.stat slot.form slot.path = []

theorem Vacant.slot {slot : SlotId} (vacant : graph.Vacant slot) {pipeline : Pipeline}
    (here : graph.pipelines.get? slot.stat = some pipeline) {filled : Slot}
    (found : pipeline.slots.get? (slot.form, slot.path) = some filled) :
    filled.roster.members = [] := by
  unfold Vacant at vacant
  rw [members_of_filled here found] at vacant
  exact vacant

theorem Vacant.refits (formed : graph.WellFormed vocabulary) {slot : SlotId}
    (vacant : graph.Vacant slot) (pipeline : Pipeline)
    (here : graph.pipelines.get? slot.stat = some pipeline) :
    Refits vocabulary graph.modifiers slot.stat pipeline
      (pipeline.slots.erase (slot.form, slot.path)) :=
  refits_erase (formed.pipelines _ pipeline here) fun _ found => vacant.slot here found

/-- Taking away rosters without members harms nothing. -/
theorem intact_removeSlots (intact : graph.Intact vocabulary) {slots : List SlotId}
    (vacant : ∀ slot ∈ slots, graph.Vacant slot) :
    (slots.foldl removeSlot graph).Intact vocabulary ∧
      (slots.foldl removeSlot graph).members = graph.members := by
  induction slots generalizing graph with
  | nil => exact ⟨intact, rfl⟩
  | cons slot rest inductionHypothesis =>
      have refits := (vacant slot List.mem_cons_self).refits intact.formed
      have removed : (graph.removeSlot slot).Intact vocabulary :=
        Intact.refit refits intact
      have same : (graph.removeSlot slot).members = graph.members := by
        funext own form path
        exact members_refit refits own form path
      obtain ⟨last, members⟩ := inductionHypothesis removed fun other member => by
        rw [Vacant, same]
        exact vacant other (List.mem_cons_of_mem slot member)
      exact ⟨last, members.trans same⟩

/-! ### Losing values -/

/-- Some nodes lose their values, and perhaps edges along which they read. -/
structure Relaxes (graph other : Graph) (affected : NodeId → Prop) : Prop where
  rest : other = { graph with nodes := other.nodes, edges := other.edges }
  dropped : ∀ node, affected node → other.nodes.get? node =
    (graph.nodes.get? node).map fun present =>
      { present with cache := present.cache.invalidate }
  kept : ∀ node, ¬ affected node → other.nodes.get? node = graph.nodes.get? node
  fewer : ∀ producer consumer, other.Feeds producer consumer → graph.Feeds producer consumer
  feeds : ∀ producer consumer, ¬ affected consumer → graph.Feeds producer consumer →
    other.Feeds producer consumer

theorem get?_modifyNode (graph : Graph) (node other : NodeId) (change : Node → Node) :
    (graph.modifyNode node change).nodes.get? other =
      if other = node then (graph.nodes.get? other).map change else graph.nodes.get? other :=
  graph.nodes.get?_modify _ _ _

theorem relaxes_relax (graph : Graph) (node : NodeId) :
    graph.Relaxes (graph.relax node) (· = node) := by
  have drop (edges : List Edge)
      (fewer : ∀ producer consumer, ⟨producer, consumer⟩ ∈ edges → graph.Feeds producer consumer)
      (feeds : ∀ producer consumer, consumer ≠ node → graph.Feeds producer consumer →
        ⟨producer, consumer⟩ ∈ edges) :
      graph.Relaxes ({ graph with edges }.modifyNode node fun old =>
        { old with cache := old.cache.invalidate }) (· = node) :=
    { rest := rfl
      dropped := fun other same => (get?_modifyNode _ _ _ _).trans (if_pos same)
      kept := fun other apart => (get?_modifyNode _ _ _ _).trans (if_neg apart)
      fewer, feeds }
  unfold relax
  split
  · next missing =>
    refine ⟨rfl, ?_, fun _ _ => rfl, fun _ _ feeds => feeds, fun _ _ _ feeds => feeds⟩
    rintro other rfl
    rw [missing]
    rfl
  · split
    · refine drop (graph.edges.filter (·.consumer ≠ node)) ?_ ?_
      · exact fun _ _ member => List.mem_of_mem_filter member
      · exact fun _ _ apart member => List.mem_filter.mpr ⟨member, by simpa using apart⟩
    · exact drop graph.edges (fun _ _ member => member) fun _ _ _ member => member

/-- What several nodes lose one after the other. -/
theorem relaxes_foldl (graph : Graph) (nodes : List NodeId) :
    graph.Relaxes (nodes.foldl relax graph) (· ∈ nodes) := by
  induction nodes generalizing graph with
  | nil =>
      exact ⟨rfl, fun _ none => absurd none List.not_mem_nil, fun _ _ => rfl,
        fun _ _ feeds => feeds, fun _ _ _ feeds => feeds⟩
  | cons node rest inductionHypothesis =>
      have first := graph.relaxes_relax node
      have later := inductionHypothesis (graph.relax node)
      constructor
      · rw [List.foldl_cons, later.rest, first.rest]
      · intro other member
        by_cases again : other ∈ rest
        · refine (later.dropped other again).trans ?_
          by_cases same : other = node
          · rw [first.dropped other same, Option.map_map]
            congr 1
            funext present
            cases present
            simp only [Function.comp_apply, Node.mk.injEq, true_and, and_true]
            cases ‹Cache› <;> rfl
          · rw [first.kept other same]
        · rw [List.mem_cons, or_iff_left again] at member
          exact (later.kept other again).trans (first.dropped other member)
      · intro other outside
        rw [List.mem_cons, not_or] at outside
        exact (later.kept other outside.2).trans (first.kept other outside.1)
      · exact fun producer consumer feeds =>
          first.fewer producer consumer (later.fewer producer consumer feeds)
      · intro producer consumer outside feeds
        rw [List.mem_cons, not_or] at outside
        exact later.feeds producer consumer outside.2
          (first.feeds producer consumer outside.1 feeds)

section Relaxing

variable {affected : NodeId → Prop} (relaxes : graph.Relaxes other affected)
include relaxes

theorem Relaxes.node_before {node : NodeId} {present : Node}
    (found : other.nodes.get? node = some present) :
    ∃ cache, graph.nodes.get? node = some { present with cache } := by
  by_cases reached : affected node
  · rw [relaxes.dropped node reached, Option.map_eq_some_iff] at found
    obtain ⟨old, before, rfl⟩ := found
    exact ⟨old.cache, before⟩
  · rw [relaxes.kept node reached] at found
    exact ⟨present.cache, found⟩

theorem Relaxes.shape : other.shape = graph.shape := by
  have addresses : other.addressOf? = graph.addressOf? := by
    funext node
    unfold addressOf?
    by_cases reached : affected node
    · rw [relaxes.dropped node reached, Option.map_map]
      rfl
    · rw [relaxes.kept node reached]
  rw [Graph.shape, addresses, relaxes.rest]
  rfl

theorem Relaxes.alters (closed : ∀ producer consumer, graph.Feeds producer consumer →
    affected producer → affected consumer) : graph.Alters other affected Clean where
  closed := closed
  feeds := fun producer node spared =>
    ⟨relaxes.fewer producer node, relaxes.feeds producer node spared⟩
  known := fun node spared => by rw [known, known, relaxes.kept node spared]
  dropped := by
    intro node reached
    rw [known, relaxes.dropped node reached]
    cases graph.nodes.get? node with
    | none => rfl
    | some present => exact present.cache.value?_invalidate
  located := fun query node _ found => by
    rw [located_of_shape relaxes.shape]
    exact found
  addressed := fun node address _ found => by
    rw [addressOf?_of_shape relaxes.shape]
    exact found
  view := fun _ _ _ _ _ => by
    rw [planOf_of_shape relaxes.shape, transformsOf_of_shape relaxes.shape]
    exact ⟨rfl, rfl⟩

/-- Values may be lost, as long as nothing keeps a value that rests on a lost one. -/
theorem Intact.relax (intact : graph.Intact vocabulary)
    (closed : ∀ producer consumer, graph.Feeds producer consumer → affected producer →
      affected consumer) : other.Intact vocabulary := by
  have evaluating : other.evaluating = graph.evaluating := by rw [relaxes.rest]
  have outdated : other.outdated = graph.outdated := by rw [relaxes.rest]
  have pending : other.pending = graph.pending := by rw [relaxes.rest]
  have idle {node : NodeId} {present : Node} (found : graph.nodes.get? node = some present) :
      present.cache ≠ .computing := by
    intro computing
    have inside := (intact.stacked.computing node).mp ⟨present, found, computing⟩
    rw [intact.idle] at inside
    contradiction
  constructor
  · constructor
    · refine ⟨intact.formed.of_shape relaxes.shape, ⟨fun node => ?_, ?_, ?_⟩,
        evaluating.trans intact.idle⟩
      · rw [evaluating, intact.idle]
        refine ⟨?_, fun none => absurd none List.not_mem_nil⟩
        rintro ⟨present, found, computing⟩
        by_cases reached : affected node
        · rw [relaxes.dropped node reached, Option.map_eq_some_iff] at found
          obtain ⟨old, before, rfl⟩ := found
          have active := idle before
          revert computing active
          cases old.cache <;> simp [Cache.invalidate]
        · rw [relaxes.kept node reached] at found
          exact absurd computing (idle found)
      · rw [evaluating]
        exact intact.stacked.distinct
      · rw [evaluating, outdated]
        exact intact.stacked.outdated
    · exact fun faithful =>
        (relaxes.alters closed).clean intact.formed (intact.coherent faithful)
  · refine intact.wired.keep relaxes.fewer (fun _ _ _ => ?_)
      fun _ _ _ _ _ _ => (enrolls_of_shape relaxes.shape).mpr
    rw [addressOf?_of_shape relaxes.shape]
    exact ⟨rfl, rfl⟩
  · exact intact.watched.keep (fun _ _ found _ => relaxes.node_before found)
      (by rw [relaxes.rest]) (by rw [relaxes.rest]) (pending ▸ intact.watched.once)

end Relaxing

/-! ### Removing pipelines -/

/-- A stat whose pipeline has no nodes and no rosters, if it is there at all. -/
def Hollow (graph : Graph) (stat : StatId) : Prop :=
  ∀ pipeline, graph.pipelines.get? stat = some pipeline → pipeline.isEmpty = true

theorem entries_eq_nil {κ α : Type} [DecidableEq κ] {table : Table κ α}
    (empty : table.isEmpty = true) (key : κ) : table.get? key = none := by
  have none : table.entries = [] := List.isEmpty_iff.mp empty
  rw [Table.get?, none]
  rfl

/-- The graph without the pipeline of a stat, whose behaviors stay in force. -/
def close (graph : Graph) (stat : StatId) : Graph :=
  { graph with pipelines := graph.pipelines.erase stat }

theorem pipelines_close (graph : Graph) (stat own : StatId) :
    (graph.close stat).pipelines.get? own =
      if own = stat then none else graph.pipelines.get? own :=
  graph.pipelines.get?_erase _ _

section Closing

variable {stat : StatId} (hollow : graph.Hollow stat)
include hollow

theorem Hollow.unlisted {stage : Stage} {path : PathId} {pipeline : Pipeline}
    (here : graph.pipelines.get? stat = some pipeline) :
    pipeline.nodes.get? (stage, path) = none := by
  have empty := hollow pipeline here
  rw [Pipeline.isEmpty, Bool.and_eq_true] at empty
  exact entries_eq_nil empty.1 _

theorem Hollow.unfilled {form : Form} {path : PathId} {pipeline : Pipeline}
    (here : graph.pipelines.get? stat = some pipeline) :
    pipeline.slots.get? (form, path) = none := by
  have empty := hollow pipeline here
  rw [Pipeline.isEmpty, Bool.and_eq_true] at empty
  exact entries_eq_nil empty.2 _

theorem Hollow.node? (stage : Stage) (path : PathId) : graph.node? stat stage path = none := by
  rw [Graph.node?]
  cases here : graph.pipelines.get? stat with
  | none => rfl
  | some pipeline => exact hollow.unlisted here

theorem node?_close : (graph.close stat).node? = graph.node? := by
  funext own stage path
  by_cases same : own = stat
  · rw [same, hollow.node?, Graph.node?, pipelines_close, if_pos rfl]
    rfl
  · rw [Graph.node?, Graph.node?, pipelines_close, if_neg same]

theorem members_close (own : StatId) (form : Form) (path : PathId) :
    (graph.close stat).members own form path = graph.members own form path := by
  unfold members
  rw [pipelines_close]
  by_cases same : own = stat
  · subst same
    rw [if_pos rfl]
    cases here : graph.pipelines.get? own with
    | none => rfl
    | some pipeline => simp only [Pipeline.members, hollow.unfilled here]
  · rw [if_neg same]

theorem filled_close (own : StatId) : (graph.close stat).filled own = graph.filled own := by
  rw [filled, filled, pipelines_close]
  by_cases same : own = stat
  · subst same
    rw [if_pos rfl]
    cases here : graph.pipelines.get? own with
    | none => rfl
    | some pipeline =>
        have empty := hollow pipeline here
        rw [Pipeline.isEmpty, Bool.and_eq_true] at empty
        have none : pipeline.slots.entries = [] := List.isEmpty_iff.mp empty.2
        rw [Option.elim_none, Option.elim_some, Pipeline.filled, none]
        rfl
  · rw [if_neg same]

theorem Hollow.unaddressed (formed : graph.WellFormed vocabulary) {node : NodeId} {stage : Stage}
    {path : Path} : graph.addressOf? node ≠ some (.pipeline stat stage path) := by
  intro found
  obtain ⟨pipeline, here, listed⟩ := formed.named _ _ _ _ found
  rw [hollow.unlisted here] at listed
  contradiction

theorem WellFormed.close (formed : graph.WellFormed vocabulary) :
    (graph.close stat).WellFormed vocabulary where
  numbered := formed.numbered
  listed := by
    intro own pipeline stage path node here
    rw [pipelines_close] at here
    split at here
    · contradiction
    · exact formed.listed own pipeline stage path node here
  named := by
    intro node own stage path address
    obtain ⟨pipeline, here, listed⟩ := formed.named node own stage path address
    refine ⟨pipeline, ?_, listed⟩
    rw [pipelines_close, if_neg]
    · exact here
    · rintro rfl
      exact hollow.unaddressed formed address
  addressed := formed.addressed
  contributing := formed.contributing
  contributed := formed.contributed
  present := formed.present
  pipelines := by
    intro own pipeline here
    rw [pipelines_close] at here
    split at here
    · contradiction
    · exact formed.pipelines own pipeline here
  behaviors := formed.behaviors
  links := formed.links

theorem alters_close (formed : graph.WellFormed vocabulary) :
    graph.Alters (graph.close stat) Clean Clean := by
  refine .of_content rfl (fun _ => rfl) ?_ (fun _ _ found => found) ?_
  · intro query node found
    cases query with
    | node own stage path =>
        simp only [located, node?_close hollow] at found ⊢
        exact found
    | contribution modifier => exact found
  · intro node address _ found
    cases address with
    | contribution modifier => exact ⟨rfl, rfl⟩
    | pipeline own stage path =>
        have apart : own ≠ stat := by
          rintro rfl
          exact hollow.unaddressed formed found
        refine ⟨planOf_congr ?_ (formed.node?_of_address found).2
          fun other there => (formed.pipelines own other there).keyed, rfl⟩
        exact ⟨by rw [pipelines_close, if_neg apart],
          fun form _ => members_close hollow own form path.id, fun _ _ _ => rfl,
          fun _ _ _ => ⟨rfl, Or.inl rfl⟩, fun _ _ => ⟨rfl, rfl⟩,
          fun _ => paths_of_filled (filled_close hollow own) rfl⟩

theorem intact_close (intact : graph.Intact vocabulary) :
    (graph.close stat).Intact vocabulary where
  formed := intact.formed.close hollow
  stacked := ⟨intact.stacked.computing, intact.stacked.distinct, intact.stacked.outdated⟩
  idle := intact.idle
  coherent := fun faithful =>
    (alters_close hollow intact.formed).clean intact.formed (intact.coherent faithful)
  wired := by
    refine intact.wired.keep (fun _ _ feeds => feeds) (fun _ _ _ => ⟨rfl, rfl⟩) ?_
    intro producer consumer address modifier _ _ enrolls
    cases address with
    | contribution own => exact enrolls
    | pipeline own stage path => simpa only [Enrolls, members_close hollow] using enrolls
  watched := intact.watched.keep (fun _ present found _ => ⟨present.cache, found⟩) rfl rfl
    intact.watched.once

end Closing

/-! ### Lifting behaviors -/

theorem flatMap_filter {α β : Type} {items : List α} {keep : α → Bool} {expand : α → List β}
    (silent : ∀ item ∈ items, keep item = false → expand item = []) :
    (items.filter keep).flatMap expand = items.flatMap expand := by
  induction items with
  | nil => rfl
  | cons item rest inductionHypothesis =>
      have later := inductionHypothesis fun other member =>
        silent other (List.mem_cons_of_mem item member)
      by_cases kept : keep item = true
      · rw [List.filter_cons_of_pos kept, List.flatMap_cons, List.flatMap_cons, later]
      · rw [List.filter_cons_of_neg kept, List.flatMap_cons, later,
          silent item List.mem_cons_self (by simpa using kept), List.nil_append]

/-- The behaviors of a stat are no longer in force; nothing is invalidated yet. -/
def lift (graph : Graph) (stat : StatId) : Graph :=
  { graph with behaviors := graph.behaviors.erase stat }

/-- Lifted behaviors change only what their targets calculate. -/
theorem alters_lift (formed : graph.WellFormed vocabulary) {stat : StatId}
    {behaviors : List Behavior} (force : graph.behaviors.get? stat = some behaviors) :
    graph.Alters (graph.lift stat) Clean
      fun node => node ∈ behaviors.flatMap graph.behaviorTargets := by
  refine .of_content rfl (fun _ => rfl) (fun query _ found => ?_) (fun _ _ found => found) ?_
  · cases query <;> exact found
  · intro node address missed found
    refine ⟨rfl, ?_⟩
    cases address with
    | contribution modifier => rfl
    | pipeline own stage path =>
        simp only [transformsOf, transformsFor_eq]
        apply flatMap_filter
        rintro ⟨carrier, carried⟩ member dropped
        have same : carrier = stat := by simpa using dropped
        have own := (graph.behaviors.get?_eq_some_iff _ _).mpr member
        rw [same, force] at own
        cases own
        simp only [untargeted formed found missed, List.map_nil]

theorem WellFormed.lift (formed : graph.WellFormed vocabulary) (stat : StatId) :
    (graph.lift stat).WellFormed vocabulary :=
  { formed with
    behaviors := by
      intro own behaviors found
      rw [Graph.lift, Table.get?_erase] at found
      split at found
      · contradiction
      · exact formed.behaviors own behaviors found }

/-- Behaviors that are lifted, with what they applied to invalidated. -/
theorem intact_lift (intact : graph.Intact vocabulary) {stat : StatId}
    {behaviors : List Behavior} (force : graph.behaviors.get? stat = some behaviors)
    (entry : Record) :
    (((graph.lift stat).record entry).invalidateTargets behaviors).Intact vocabulary := by
  have formed : ((graph.lift stat).record entry).WellFormed vocabulary :=
    (intact.formed.lift stat).of_shape (shape_record _ _)
  have stacked : ((graph.lift stat).record entry).Stacked :=
    ⟨intact.stacked.computing, intact.stacked.distinct, intact.stacked.outdated⟩
  have fades := ((graph.lift stat).record entry).fades_invalidateAll
    (behaviors.flatMap ((graph.lift stat).record entry).behaviorTargets)
  have alters := (alters_lift intact.formed force).record entry
  rw [invalidateTargets_eq]
  exact
    { formed := formed.of_shape fades.shape
      stacked := stacked.of_fades fades
      idle := fades.evaluating.trans intact.idle
      coherent := fun faithful =>
        (alters.invalidate _ fun _ _ _ => Or.inl).clean intact.formed (intact.coherent faithful)
      wired := by
        refine intact.wired.keep (fun producer consumer feeds => ?_) (fun _ _ _ => ?_) ?_
        · rw [Feeds, fades.edges] at feeds
          exact feeds
        · rw [addressOf?_of_shape fades.shape]
          exact ⟨rfl, rfl⟩
        · intro producer consumer address modifier _ _ enrolls
          rw [enrolls_of_shape fades.shape]
          cases address <;> exact enrolls
      watched := by
        have audience := Audience.of_grows (Grows.of_fades fades)
        exact intact.watched.keep (fun node present => audience.watched node present)
          audience.subscriptions audience.lastSubscription (audience.once intact.watched.once) }

/-- Lifting an empty list of behaviors changes nothing. -/
theorem intact_lift_nil (intact : graph.Intact vocabulary) {stat : StatId}
    (force : graph.behaviors.get? stat = some []) : (graph.lift stat).Intact vocabulary where
  formed := intact.formed.lift stat
  stacked := ⟨intact.stacked.computing, intact.stacked.distinct, intact.stacked.outdated⟩
  idle := intact.idle
  coherent := fun faithful =>
    (alters_lift intact.formed force).coherent intact.formed (intact.coherent faithful)
      fun _ either => Or.inr (either.elim id fun none => absurd none List.not_mem_nil)
  wired := by
    refine intact.wired.keep (fun _ _ feeds => feeds) (fun _ _ _ => ⟨rfl, rfl⟩) ?_
    intro producer consumer address modifier _ _ enrolls
    cases address <;> exact enrolls
  watched := intact.watched.keep (fun _ present found _ => ⟨present.cache, found⟩) rfl rfl
    intact.watched.once

theorem removePipeline_eq (graph : Graph) (stat : StatId) :
    graph.removePipeline stat =
      if graph.pipelines.contains stat then
        match graph.behaviors.get? stat with
        | none => graph.close stat
        | some behaviors =>
            if behaviors.isEmpty then (graph.close stat).lift stat
            else (((graph.close stat).lift stat).record
              (.behaviorsUnregistered stat behaviors.length)).invalidateTargets behaviors
      else graph := rfl

/-- An empty pipeline goes, and its behaviors with it. -/
theorem intact_removePipeline (intact : graph.Intact vocabulary) {stat : StatId}
    (hollow : graph.Hollow stat) : (graph.removePipeline stat).Intact vocabulary := by
  have closed := intact_close hollow intact
  rw [removePipeline_eq]
  split
  · split
    · exact closed
    · next behaviors force =>
      have force' : (graph.close stat).behaviors.get? stat = some behaviors := force
      split
      · next empty =>
        rw [List.isEmpty_iff] at empty
        exact intact_lift_nil closed (empty ▸ force')
      · exact intact_lift closed force' _
  · exact intact

/-- What an empty pipeline leaves behind calculates what it calculated, or has no value. -/
theorem alters_removePipeline (formed : graph.WellFormed vocabulary) {stat : StatId}
    (hollow : graph.Hollow stat) :
    ∃ affected, graph.Alters (graph.removePipeline stat) affected Clean := by
  have closes := alters_close hollow formed
  have closed := formed.close hollow
  rw [removePipeline_eq]
  split
  · split
    · exact ⟨_, closes⟩
    · next behaviors force =>
      have lifts := alters_lift closed (show (graph.close stat).behaviors.get? stat = some behaviors from force)
      split
      · next empty =>
        obtain rfl : behaviors = [] := List.isEmpty_iff.mp empty
        exact ⟨_, closes.clean_trans (lifts.absorb fun _ _ _ none => absurd none List.not_mem_nil)⟩
      · rw [invalidateTargets_eq]
        exact ⟨_, closes.clean_trans ((lifts.record _).invalidate _ fun _ _ _ => Or.inl)⟩
  · exact ⟨_, .of_shape rfl rfl rfl⟩

theorem pipelines_removePipeline (graph : Graph) (stat own : StatId) :
    (graph.removePipeline stat).pipelines.get? own =
      if own = stat then none else graph.pipelines.get? own := by
  rw [removePipeline_eq]
  split
  · split
    · exact graph.pipelines_close stat own
    · split
      · exact graph.pipelines_close stat own
      · next behaviors _ _ =>
        have same := congrArg Shape.pipelines (shape_invalidateTargets
          (((graph.close stat).lift stat).record
            (.behaviorsUnregistered stat behaviors.length)) behaviors)
        exact (congrArg (·.get? own) same).trans (graph.pipelines_close stat own)
  · next absent =>
    split
    · next same =>
      subst same
      simpa [Table.contains] using absent
    · rfl

theorem pipelines_removePipelines (graph : Graph) (stats : List StatId) (own : StatId) :
    (stats.foldl removePipeline graph).pipelines.get? own =
      if own ∈ stats then none else graph.pipelines.get? own := by
  induction stats generalizing graph with
  | nil => simp
  | cons stat rest inductionHypothesis =>
      rw [List.foldl_cons, inductionHypothesis, pipelines_removePipeline]
      by_cases same : own = stat <;> simp [same]

/-- Taking pipelines away whose stats have no behaviors in force changes no node, and submits no
change. -/
theorem removePipelines_unforced {stats : List StatId}
    (unforced : ∀ stat ∈ stats, (graph.behaviors.get? stat).getD [] = []) :
    (stats.foldl removePipeline graph).nodes = graph.nodes ∧
      (stats.foldl removePipeline graph).edges = graph.edges ∧
        (stats.foldl removePipeline graph).pending = graph.pending := by
  induction stats generalizing graph with
  | nil => exact ⟨rfl, rfl, rfl⟩
  | cons stat rest inductionHypothesis =>
      obtain ⟨nodes, edges, pending, behaviors⟩ :
          (graph.removePipeline stat).nodes = graph.nodes ∧
            (graph.removePipeline stat).edges = graph.edges ∧
              (graph.removePipeline stat).pending = graph.pending ∧
                ((graph.removePipeline stat).behaviors = graph.behaviors ∨
                  (graph.removePipeline stat).behaviors = graph.behaviors.erase stat) := by
        have none := unforced stat List.mem_cons_self
        rw [removePipeline_eq]
        split
        · split
          · exact ⟨rfl, rfl, rfl, Or.inl rfl⟩
          · next behaviors force =>
            rw [force, Option.getD_some] at none
            rw [none]
            exact ⟨rfl, rfl, rfl, Or.inr rfl⟩
        · exact ⟨rfl, rfl, rfl, Or.inl rfl⟩
      have later (other : StatId) (member : other ∈ rest) :
          ((graph.removePipeline stat).behaviors.get? other).getD [] = [] := by
        have before := unforced other (List.mem_cons_of_mem stat member)
        rcases behaviors with same | same <;> rw [same]
        · exact before
        · rw [Table.get?_erase]
          split
          · rfl
          · exact before
      obtain ⟨still, kept, waits⟩ := inductionHypothesis later
      exact ⟨still.trans nodes, kept.trans edges, waits.trans pending⟩

/-- Empty pipelines go one after the other. -/
theorem intact_removePipelines (intact : graph.Intact vocabulary) {stats : List StatId}
    (hollow : ∀ stat ∈ stats, graph.Hollow stat) :
    (stats.foldl removePipeline graph).Intact vocabulary := by
  induction stats generalizing graph with
  | nil => exact intact
  | cons stat rest inductionHypothesis =>
      refine inductionHypothesis (intact_removePipeline intact (hollow stat List.mem_cons_self)) ?_
      intro other member pipeline here
      rw [pipelines_removePipeline] at here
      split at here
      · contradiction
      · exact hollow other (List.mem_cons_of_mem stat member) pipeline here

/-! ### The sweep -/

/-- The stages that a sweep removes. -/
def sweptNodes (rules : Retention) (graph : Graph) : List NodeId :=
  (graph.pipelines.values.filter fun pipeline => rules.considersStat pipeline.stat).flatMap
    (removableNodes rules graph.needed)

/-- The rosters that a sweep removes. -/
def sweptSlots (rules : Retention) (graph : Graph) : List SlotId :=
  (graph.pipelines.values.filter fun pipeline => rules.considersStat pipeline.stat).flatMap
    (removableSlots rules)

/-- The graph without the stages and rosters that a sweep removes. -/
def thinned (rules : Retention) (graph : Graph) : Graph :=
  (graph.sweptSlots rules).foldl removeSlot (graph.removeNodes (graph.sweptNodes rules))

/-- The graph after what is left but not needed lost its values. -/
def relaxed (rules : Retention) (graph : Graph) : Graph :=
  ((graph.thinned rules).nodes.keys.filter fun node => !graph.needed.contains node).foldl relax
    (graph.thinned rules)

/-- The graph after a sweep, before it is noted. -/
def swept (rules : Retention) (graph : Graph) : Graph :=
  ((graph.relaxed rules).removablePipelines rules).foldl removePipeline (graph.relaxed rules)

theorem sweep_eq (rules : Retention) (graph : Graph) :
    graph.sweep rules =
      if 0 < graph.pending.depth then (.error .batchOpen, graph)
      else
        let report :=
          { nodes := (graph.sweptNodes rules).length, rosters := (graph.sweptSlots rules).length,
            pipelines := ((graph.relaxed rules).removablePipelines rules).length }
        (.ok report,
          if report.isEmpty then graph.swept rules
          else (graph.swept rules).record
            (.swept report (graph.swept rules).nodes.size (graph.swept rules).behaviorCount)) :=
  rfl

/-- Unless it is refused, a sweep leads to the swept graph, and perhaps notes so. -/
theorem sweep_cases (graph : Graph) (rules : Retention) :
    (graph.sweep rules).2 = graph ∨ (graph.sweep rules).2 = graph.swept rules ∨
      ∃ entry, (graph.sweep rules).2 = (graph.swept rules).record entry := by
  rw [sweep_eq]
  split
  · exact Or.inl rfl
  · dsimp only
    split
    · exact Or.inr (Or.inl rfl)
    · exact Or.inr (Or.inr ⟨_, rfl⟩)

/-- What holds before a sweep and of the swept graph, and does not depend on notes, holds after a
sweep. -/
theorem sweep_induction {motive : Graph → Prop} {rules : Retention} (before : motive graph)
    (swept : motive (graph.swept rules))
    (noted : ∀ graph entry, motive graph → motive (graph.record entry)) :
    motive (graph.sweep rules).2 := by
  rcases graph.sweep_cases rules with same | same | ⟨entry, same⟩ <;> rw [same]
  · exact before
  · exact swept
  · exact noted _ entry swept

theorem mem_sweptNodes {rules : Retention} {node : NodeId}
    (member : node ∈ graph.sweptNodes rules) :
    ¬ graph.Needed node ∧ ∃ stat pipeline stage path, graph.pipelines.get? stat = some pipeline ∧
      pipeline.nodes.get? (stage, path) = some node := by
  obtain ⟨pipeline, considered, removable⟩ := List.mem_flatMap.mp member
  obtain ⟨stat, here⟩ := (Table.mem_values_iff _ _).mp (List.mem_of_mem_filter considered)
  obtain ⟨⟨⟨stage, path⟩, other⟩, inside, rfl⟩ := List.mem_map.mp removable
  obtain ⟨listed, unneeded⟩ := List.mem_filter.mp inside
  refine ⟨?_, stat, pipeline, stage, path, here, (Table.get?_eq_some_iff _ _ _).mpr listed⟩
  simp only [Bool.and_eq_true, Bool.not_eq_true'] at unneeded
  rw [Needed, unneeded.1]
  decide

theorem mem_sweptSlots (formed : graph.WellFormed vocabulary) {rules : Retention} {slot : SlotId}
    (member : slot ∈ graph.sweptSlots rules) : graph.Vacant slot := by
  obtain ⟨pipeline, considered, removable⟩ := List.mem_flatMap.mp member
  obtain ⟨stat, here⟩ := (Table.mem_values_iff _ _).mp (List.mem_of_mem_filter considered)
  obtain ⟨⟨⟨form, path⟩, filled⟩, inside, rfl⟩ := List.mem_map.mp removable
  obtain ⟨listed, idle⟩ := List.mem_filter.mp inside
  simp only [Bool.and_eq_true, List.isEmpty_iff] at idle
  have keyed := (formed.pipelines stat pipeline here).keyed
  rw [Vacant]
  show graph.members pipeline.stat.id form path = []
  rw [keyed, members_of_filled here ((Table.get?_eq_some_iff _ _ _).mpr listed)]
  exact idle.1.1

section Sweep

variable (rules : Retention) (intact : graph.Intact vocabulary)
include intact

/-- The stages that a sweep removes are gone afterwards. -/
theorem discards_sweep : graph.Discards (graph.removeNodes (graph.sweptNodes rules))
    (· ∈ graph.sweptNodes rules) :=
  graph.discards_removeNodes intact.formed intact.wired.joined _

omit intact in
theorem staged_sweptNodes (formed : graph.WellFormed vocabulary) {node : NodeId}
    (leaves : node ∈ graph.sweptNodes rules) : graph.Staged node := by
  obtain ⟨_, stat, pipeline, stage, path, here, listed⟩ := mem_sweptNodes leaves
  obtain ⟨full, place, _⟩ := formed.listed stat pipeline stage path node here listed
  exact ⟨stat, stage, full, place⟩

omit intact in
theorem unwatched_sweptNodes {node : NodeId} {present : Node} (leaves : node ∈ graph.sweptNodes rules)
    (found : graph.nodes.get? node = some present) : present.subscribers = [] := by
  by_contra watched
  exact (mem_sweptNodes leaves).1 (Rooted.needed (.inl ⟨present, found, watched⟩))

/-- A sweep removes only stages that nobody watches. -/
theorem intact_removeSwept : (graph.removeNodes (graph.sweptNodes rules)).Intact vocabulary :=
  intact.discard (discards_sweep rules intact)
    (fun _ _ leaves _ => staged_sweptNodes rules intact.formed leaves)
    fun _ _ leaves => unwatched_sweptNodes rules leaves

theorem vacant_sweptSlots {slot : SlotId} (member : slot ∈ graph.sweptSlots rules) :
    (graph.removeNodes (graph.sweptNodes rules)).Vacant slot := by
  rw [Vacant, (discards_sweep rules intact).members]
  exact mem_sweptSlots intact.formed member

theorem intact_thinned : (graph.thinned rules).Intact vocabulary ∧
    (graph.thinned rules).members = graph.members := by
  obtain ⟨thin, members⟩ := intact_removeSlots (intact_removeSwept rules intact)
    fun _ => vacant_sweptSlots rules intact
  refine ⟨thin, members.trans ?_⟩
  funext stat form path
  exact (discards_sweep rules intact).members stat form path

theorem edges_thinned {producer consumer : NodeId}
    (feeds : (graph.thinned rules).Feeds producer consumer) : graph.Feeds producer consumer := by
  have kept (slots : List SlotId) (graph : Graph) :
      (slots.foldl removeSlot graph).edges = graph.edges := by
    induction slots generalizing graph with
    | nil => rfl
    | cons slot rest inductionHypothesis => exact inductionHypothesis _
  have discards := discards_sweep rules intact
  rw [thinned, Feeds, kept] at feeds
  exact ((discards.feeds producer consumer).mp feeds).1

omit intact in
/-- What stays of the nodes that are not needed, as one step. -/
theorem relaxes_relaxed : (graph.thinned rules).Relaxes (graph.relaxed rules) fun node =>
    node ∈ (graph.thinned rules).nodes.keys.filter fun node => !graph.needed.contains node :=
  relaxes_foldl _ _

/-- What read a node that is not needed is not needed either. -/
theorem unneeded_closed {producer consumer : NodeId}
    (feeds : (graph.thinned rules).Feeds producer consumer)
    (unneeded : producer ∈ (graph.thinned rules).nodes.keys.filter
      fun node => !graph.needed.contains node) :
    consumer ∈ (graph.thinned rules).nodes.keys.filter fun node => !graph.needed.contains node := by
  have outside := (List.mem_filter.mp unneeded).2
  refine List.mem_filter.mpr ⟨?_, ?_⟩
  · obtain ⟨address, found⟩ :=
      ((intact_thinned rules intact).1.wired.joined producer consumer feeds).2
    rw [Table.mem_keys_iff]
    exact contains_of_addressed found
  · rw [Bool.not_eq_true'] at outside ⊢
    by_contra needed
    rw [Bool.not_eq_false] at needed
    have above : graph.Needed producer :=
      Needed.producer needed (edges_thinned rules intact feeds)
    rw [Needed, outside] at above
    contradiction

theorem intact_relaxed : (graph.relaxed rules).Intact vocabulary :=
  Intact.relax (relaxes_relaxed rules) (intact_thinned rules intact).1
    fun _ _ => unneeded_closed rules intact

omit intact in
theorem hollow_removablePipelines {stat : StatId}
    (member : stat ∈ (graph.relaxed rules).removablePipelines rules) :
    (graph.relaxed rules).Hollow stat := by
  obtain ⟨⟨own, pipeline⟩, inside, rfl⟩ := List.mem_map.mp member
  obtain ⟨listed, empty⟩ := List.mem_filter.mp inside
  intro other here
  rw [(Table.get?_eq_some_iff _ _ _).mpr listed] at here
  cases here
  simp only [Bool.and_eq_true] at empty
  exact empty.1.1

omit intact in
theorem nodup_removablePipelines : (graph.removablePipelines rules).Nodup :=
  graph.pipelines.distinct.sublist (List.filter_sublist.map _)

theorem intact_swept : (graph.swept rules).Intact vocabulary :=
  intact_removePipelines (intact_relaxed rules intact) fun _ member =>
    hollow_removablePipelines rules member

/-- A sweep leaves a graph intact, whatever it may remove. -/
theorem intact_sweep : (graph.sweep rules).2.Intact vocabulary :=
  sweep_induction intact (intact_swept rules intact) fun _ entry before => before.record entry

end Sweep

/-! ### What a sweep keeps -/

/-- Subscriptions, registrations and open batches are as before. -/
structure SameBooks (graph other : Graph) : Prop where
  subscriptions : other.subscriptions = graph.subscriptions
  lastSubscription : other.lastSubscription = graph.lastSubscription
  registered : other.registered = graph.registered
  depth : other.pending.depth = graph.pending.depth

theorem SameBooks.trans (first : graph.SameBooks middle) (second : middle.SameBooks other) :
    graph.SameBooks other where
  subscriptions := second.subscriptions.trans first.subscriptions
  lastSubscription := second.lastSubscription.trans first.lastSubscription
  registered := second.registered.trans first.registered
  depth := second.depth.trans first.depth

theorem sameBooks_record (graph : Graph) (entry : Record) : graph.SameBooks (graph.record entry) :=
  ⟨rfl, rfl, rfl, rfl⟩

theorem sameBooks_foldl {α : Type} {step : Graph → α → Graph}
    (keeps : ∀ graph item, SameBooks graph (step graph item)) (items : List α) (graph : Graph) :
    graph.SameBooks (items.foldl step graph) := by
  induction items generalizing graph with
  | nil => exact ⟨rfl, rfl, rfl, rfl⟩
  | cons item rest inductionHypothesis => exact (keeps graph item).trans (inductionHypothesis _)

theorem sameBooks_removePipeline (graph : Graph) (own : StatId) :
    graph.SameBooks (graph.removePipeline own) := by
  rw [removePipeline_eq]
  split
  · split
    · exact ⟨rfl, rfl, rfl, rfl⟩
    · split
      · exact ⟨rfl, rfl, rfl, rfl⟩
      · rw [invalidateTargets_eq]
        exact ⟨(fades_invalidateAll _ _).subscriptions, (fades_invalidateAll _ _).lastSubscription,
          (fades_invalidateAll _ _).registered, (fades_invalidateAll _ _).depth⟩
  · exact ⟨rfl, rfl, rfl, rfl⟩

section Sweep

variable (rules : Retention) (intact : graph.Intact vocabulary)
include intact

/-- A sweep removes nothing that somebody watches, so it keeps the books. -/
theorem sameBooks_relaxed : graph.SameBooks (graph.relaxed rules) := by
  have discards := discards_sweep rules intact
  have removed : graph.SameBooks (graph.removeNodes (graph.sweptNodes rules)) :=
    ⟨discards.subscriptions fun _ _ leaves => unwatched_sweptNodes rules leaves,
      discards.lastSubscription, discards.registered, discards.depth⟩
  have emptied (graph : Graph) (slot : SlotId) : graph.SameBooks (graph.removeSlot slot) :=
    ⟨rfl, rfl, rfl, rfl⟩
  have thinned : graph.SameBooks (graph.thinned rules) := removed.trans (sameBooks_foldl emptied _ _)
  have relaxed : (graph.thinned rules).SameBooks (graph.relaxed rules) := by
    rw [(relaxes_relaxed rules).rest]
    exact ⟨rfl, rfl, rfl, rfl⟩
  exact thinned.trans relaxed

theorem sameBooks_swept : graph.SameBooks (graph.swept rules) :=
  (sameBooks_relaxed rules intact).trans (sameBooks_foldl sameBooks_removePipeline _ _)

theorem sameBooks_sweep : graph.SameBooks (graph.sweep rules).2 :=
  sweep_induction (motive := graph.SameBooks) ⟨rfl, rfl, rfl, rfl⟩ (sameBooks_swept rules intact)
    fun middle entry before => before.trans (sameBooks_record middle entry)

end Sweep
end Graph
end CharacterSheet
