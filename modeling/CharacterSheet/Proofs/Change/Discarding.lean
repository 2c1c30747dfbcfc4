import CharacterSheet.Proofs.Change.Rosters
import CharacterSheet.Proofs.Change.Wiring

/-!
Contract: what is left of a graph when some of its nodes are removed.

Owns:
- the removal of nodes as one step: which nodes go, which lose their values, which edges
  and which entries of pipelines are left;
- the proof that such a step affects only what depends on the nodes that go.
-/

namespace CharacterSheet

theorem Table.contains_iff {κ α : Type} [DecidableEq κ] {table : Table κ α} {key : κ} :
    table.contains key = true ↔ ∃ value, table.get? key = some value :=
  Option.isSome_iff_exists

namespace Graph

variable {vocabulary : Vocabulary} {graph other : Graph} {gone : NodeId → Prop}

/-- Take several nodes out of the pipelines that list them. -/
def unlistAll (graph : Graph) (leaving : List Node) : Graph :=
  leaving.foldl (fun unlisted node => unlisted.unlist node.address) graph

theorem unlistAll_eq (graph : Graph) (leaving : List Node) :
    graph.unlistAll leaving = { graph with pipelines := (graph.unlistAll leaving).pipelines } := by
  induction leaving generalizing graph with
  | nil => rfl
  | cons head rest inductionHypothesis =>
      have first : graph.unlist head.address =
          { graph with pipelines := (graph.unlist head.address).pipelines } := by
        cases head.address <;> rfl
      have later := inductionHypothesis (graph.unlist head.address)
      simp only [unlistAll, List.foldl_cons] at later ⊢
      rw [later, first]

/-- Whether a node that stands at a place of a pipeline is among some nodes. -/
def Lists (leaving : List Node) (stat : StatId) (stage : Stage) (path : PathId) : Prop :=
  ∃ node ∈ leaving, ∃ full : Path, node.address = .pipeline stat stage full ∧ full.id = path

theorem lists_cons (head : Node) (rest : List Node) (stat : StatId) (stage : Stage) (path : PathId) :
    Lists (head :: rest) stat stage path ↔
      Lists [head] stat stage path ∨ Lists rest stat stage path := by
  simp [Lists]

theorem pipelines_unlist (head : Node) {stat : StatId} {pipeline : Pipeline}
    (here : graph.pipelines.get? stat = some pipeline) :
    ∃ nodes, (graph.unlist head.address).pipelines.get? stat = some { pipeline with nodes } ∧
      ∀ stage path node, nodes.get? (stage, path) = some node ↔
        pipeline.nodes.get? (stage, path) = some node ∧ ¬ Lists [head] stat stage path := by
  have lists (stage : Stage) (path : PathId) : Lists [head] stat stage path ↔
      ∃ full : Path, head.address = .pipeline stat stage full ∧ full.id = path := by
    simp [Lists]
  cases address : head.address with
  | contribution modifier => exact ⟨_, here, fun stage path node => by simp [lists, address]⟩
  | pipeline own level place =>
      by_cases same : stat = own
      · subst same
        refine ⟨_, (Table.get?_modify _ _ _ _).trans (by rw [if_pos rfl, here]; rfl), ?_⟩
        intro stage path node
        simp only [Table.get?_erase, lists, address]
        split
        · next equal =>
          cases equal
          simp
        · next distinct =>
          refine ⟨fun found => ⟨found, ?_⟩, And.left⟩
          rintro ⟨full, equal, rfl⟩
          cases equal
          exact distinct rfl
      · refine ⟨_, (Table.get?_modify _ _ _ _).trans ((if_neg same).trans here),
          fun stage path node => ?_⟩
        simp [lists, address, Ne.symm same]

theorem pipelines_unlistAll (leaving : List Node) {stat : StatId} {pipeline : Pipeline}
    (here : graph.pipelines.get? stat = some pipeline) :
    ∃ nodes, (graph.unlistAll leaving).pipelines.get? stat = some { pipeline with nodes } ∧
      ∀ stage path node, nodes.get? (stage, path) = some node ↔
        pipeline.nodes.get? (stage, path) = some node ∧ ¬ Lists leaving stat stage path := by
  induction leaving generalizing graph pipeline with
  | nil => exact ⟨_, here, fun stage path node => by simp [Lists]⟩
  | cons head rest inductionHypothesis =>
      obtain ⟨between, there, first⟩ := pipelines_unlist head here
      obtain ⟨nodes, later, listed⟩ := inductionHypothesis there
      refine ⟨nodes, later, fun stage path node => ?_⟩
      rw [listed, first, lists_cons head rest, not_or, and_assoc]

/-- A pipeline lists a node that leaves at the place of that node. -/
theorem lists_leaving_iff (formed : graph.WellFormed vocabulary) {nodes : List NodeId} {stat : StatId}
    {pipeline : Pipeline} {stage : Stage} {path : PathId} {node : NodeId}
    (here : graph.pipelines.get? stat = some pipeline)
    (found : pipeline.nodes.get? (stage, path) = some node) :
    Lists (nodes.filterMap graph.nodes.get?) stat stage path ↔ node ∈ nodes := by
  constructor
  · rintro ⟨present, inside, full, address, fits⟩
    obtain ⟨leaver, member, there⟩ := List.mem_filterMap.mp inside
    obtain ⟨other, opened, standing⟩ := formed.named leaver stat stage full (by
      rw [addressOf?, there]
      exact congrArg some address)
    rw [here] at opened
    cases opened
    rw [fits, found] at standing
    cases standing
    exact member
  · intro member
    obtain ⟨full, address, fits, _⟩ := formed.listed stat pipeline stage path node here found
    rw [addressOf?, Option.map_eq_some_iff] at address
    obtain ⟨present, there, same⟩ := address
    exact ⟨present, List.mem_filterMap.mpr ⟨node, member, there⟩, full, same, fits⟩

theorem missing_unlistAll (leaving : List Node) {stat : StatId}
    (missing : graph.pipelines.get? stat = none) :
    (graph.unlistAll leaving).pipelines.get? stat = none := by
  induction leaving generalizing graph with
  | nil => exact missing
  | cons head rest inductionHypothesis =>
      have headMissing : (graph.unlist head.address).pipelines.get? stat = none := by
        cases head.address with
        | contribution modifier => exact missing
        | pipeline own level place =>
            refine (Table.get?_modify _ _ _ _).trans ?_
            rw [missing]
            split <;> rfl
      exact inductionHypothesis headMissing

/-- Whether a node is one of some nodes or depends on one of them. -/
def Below (graph : Graph) (gone : NodeId → Prop) (node : NodeId) : Prop :=
  ∃ start, gone start ∧ graph.Reaches start node

/-- What is left when some nodes are gone. -/
structure Discards (graph other : Graph) (gone : NodeId → Prop) : Prop where
  removed : ∀ node, gone node → other.nodes.get? node = none
  dropped : ∀ node, ¬ gone node → graph.Below gone node → other.nodes.get? node =
    (graph.nodes.get? node).map fun present =>
      { present with cache := present.cache.invalidate }
  kept : ∀ node, ¬ graph.Below gone node → other.nodes.get? node = graph.nodes.get? node
  feeds : ∀ producer consumer, other.Feeds producer consumer ↔
    graph.Feeds producer consumer ∧ ¬ gone producer ∧ ¬ gone consumer
  pipelines : ∀ stat pipeline, graph.pipelines.get? stat = some pipeline →
    ∃ nodes, other.pipelines.get? stat = some { pipeline with nodes } ∧
      ∀ key node, nodes.get? key = some node ↔ pipeline.nodes.get? key = some node ∧ ¬ gone node
  missing : ∀ stat, graph.pipelines.get? stat = none → other.pipelines.get? stat = none
  nextNode : other.nextNode = graph.nextNode
  modifiers : other.modifiers = graph.modifiers
  contributions : other.contributions = graph.contributions
  behaviors : other.behaviors = graph.behaviors
  links : other.links = graph.links
  evaluating : other.evaluating = graph.evaluating
  outdated : graph.evaluating = [] → other.outdated = graph.outdated
  subscriptions : (∀ node present, gone node → graph.nodes.get? node = some present →
    present.subscribers = []) → other.subscriptions = graph.subscriptions
  lastSubscription : other.lastSubscription = graph.lastSubscription
  registered : other.registered = graph.registered
  journal : other.journal = graph.journal
  depth : other.pending.depth = graph.pending.depth
  slots : other.pending.slots = graph.pending.slots
  pending : ∀ node, ¬ gone node → (node ∈ other.pending.nodes ↔ node ∈ graph.pending.nodes)
  once : graph.pending.nodes.Nodup → other.pending.nodes.Nodup

theorem Discards.of_absent (formed : graph.WellFormed vocabulary) (joined : graph.Joined)
    (absent : ∀ node, gone node → graph.nodes.get? node = none) : graph.Discards graph gone := by
  have stays {node : NodeId} {address : Address} (found : graph.addressOf? node = some address) :
      ¬ gone node := by
    intro leaves
    rw [addressOf?, absent node leaves] at found
    contradiction
  have apart {node : NodeId} : graph.Below gone node → gone node := by
    rintro ⟨start, leaves, reaches⟩
    rcases reaches.cases_head with rfl | ⟨next, feeds, _⟩
    · exact leaves
    · obtain ⟨address, found⟩ := (joined start next feeds).1
      exact absurd leaves (stays found)
  refine { removed := absent, dropped := fun node stays below => absurd (apart below) stays
           kept := fun _ _ => rfl, feeds := ?_, pipelines := ?_
           missing := fun _ missing => missing, nextNode := rfl, modifiers := rfl
           contributions := rfl, behaviors := rfl, links := rfl, evaluating := rfl
           outdated := fun _ => rfl, subscriptions := fun _ => rfl, lastSubscription := rfl
           registered := rfl, journal := rfl, depth := rfl, slots := rfl
           pending := fun _ _ => Iff.rfl, once := id }
  · intro producer consumer
    refine ⟨fun feeds => ⟨feeds, ?_, ?_⟩, And.left⟩
    · obtain ⟨address, found⟩ := (joined producer consumer feeds).1
      exact stays found
    · obtain ⟨address, found⟩ := (joined producer consumer feeds).2
      exact stays found
  · intro stat pipeline here
    refine ⟨pipeline.nodes, here, fun key node => ⟨fun found => ⟨found, ?_⟩, And.left⟩⟩
    obtain ⟨full, found, _⟩ := formed.listed stat pipeline key.1 key.2 node here found
    exact stays found

/-- The graph that `removeNodes` leaves before it changes any pipeline. -/
def thin (graph : Graph) (nodes : List NodeId) : Graph :=
  let marked := graph.markStale (nodes.flatMap graph.consumption.next)
  let leaving := nodes.filterMap graph.nodes.get?
  { marked with
    nodes := marked.nodes.eraseWhere (NodeSet.ofList nodes).contains
    edges := marked.edges.filter fun edge =>
      !(NodeSet.ofList nodes).contains edge.producer &&
        !(NodeSet.ofList nodes).contains edge.consumer
    pending := marked.pending.forget (NodeSet.ofList nodes).contains
    subscriptions := (leaving.flatMap (·.subscribers)).foldl
      (fun subscriptions (subscriber : Subscriber) => subscriptions.erase subscriber.id)
      marked.subscriptions
    vacant := (leaving.map (·.place)).reverse ++ marked.vacant }

theorem removeNodes_eq (graph : Graph) (nodes : List NodeId) :
    graph.removeNodes nodes =
      if (nodes.filterMap graph.nodes.get?).isEmpty then graph
      else (graph.thin nodes).unlistAll (nodes.filterMap graph.nodes.get?) := rfl

theorem fades_thin (graph : Graph) (nodes : List NodeId) :
    graph.Fades (graph.markStale (nodes.flatMap graph.consumption.next)) fun node =>
      ∃ start ∈ nodes, ∃ consumer, graph.Feeds start consumer ∧
        graph.nodes.contains consumer ∧ graph.Reaches consumer node := by
  apply (graph.fades_markStale _).congr
  intro node
  simp only [mem_dependents_iff, List.mem_flatMap, next_consumption, mem_consumers_iff]
  constructor
  · rintro ⟨consumer, ⟨start, inside, feeds⟩, present, reaches⟩
    exact ⟨start, inside, consumer, feeds, present, reaches⟩
  · rintro ⟨start, inside, consumer, feeds, present, reaches⟩
    exact ⟨consumer, ⟨start, inside, feeds⟩, present, reaches⟩

theorem get?_thin (graph : Graph) (nodes : List NodeId) (node : NodeId) :
    (graph.thin nodes).nodes.get? node =
      if node ∈ nodes then none
      else (graph.markStale (nodes.flatMap graph.consumption.next)).nodes.get? node := by
  rw [thin, Table.get?_eraseWhere, NodeSet.contains_ofList]
  simp only [List.contains_iff_mem]

theorem feeds_thin (graph : Graph) (nodes : List NodeId) (producer consumer : NodeId) :
    (graph.thin nodes).Feeds producer consumer ↔
      graph.Feeds producer consumer ∧ producer ∉ nodes ∧ consumer ∉ nodes := by
  have edges : (graph.thin nodes).edges = graph.edges.filter fun edge =>
    !(NodeSet.ofList nodes).contains edge.producer &&
      !(NodeSet.ofList nodes).contains edge.consumer := rfl
  simp [Feeds, edges, NodeSet.contains_ofList]

theorem discards_thin (formed : graph.WellFormed vocabulary) (joined : graph.Joined)
    (nodes : List NodeId) :
    graph.Discards ((graph.thin nodes).unlistAll (nodes.filterMap graph.nodes.get?))
      (· ∈ nodes) := by
  have fades := graph.fades_thin nodes
  have thinned : (graph.thin nodes).pipelines = graph.pipelines :=
    congrArg Shape.pipelines fades.shape
  have pipelines {stat : StatId} {pipeline : Pipeline}
      (here : graph.pipelines.get? stat = some pipeline) :=
    pipelines_unlistAll (nodes.filterMap graph.nodes.get?) (thinned.symm ▸ here)
  have missing {stat : StatId} (missing : graph.pipelines.get? stat = none) :=
    missing_unlistAll (nodes.filterMap graph.nodes.get?) (thinned.symm ▸ missing)
  rw [unlistAll_eq] at pipelines missing ⊢
  exact
    { removed := fun node inside => (graph.get?_thin nodes node).trans (if_pos inside)
      dropped := by
        intro node outside below
        refine ((graph.get?_thin nodes node).trans (if_neg outside)).trans (fades.dropped node ?_)
        obtain ⟨start, inside, reaches⟩ := below
        rcases reaches.cases_head with rfl | ⟨consumer, feeds, later⟩
        · exact absurd inside outside
        · obtain ⟨address, found⟩ := (joined start consumer feeds).2
          exact ⟨start, inside, consumer, feeds, contains_of_addressed found, later⟩
      kept := by
        intro node apart
        have outside : node ∉ nodes := fun inside => apart ⟨node, inside, .refl⟩
        refine ((graph.get?_thin nodes node).trans (if_neg outside)).trans (fades.kept node ?_)
        rintro ⟨start, inside, consumer, feeds, _, reaches⟩
        exact apart ⟨start, inside, .head feeds reaches⟩
      feeds := graph.feeds_thin nodes
      pipelines := by
        intro stat pipeline here
        obtain ⟨left, later, listed⟩ := pipelines here
        refine ⟨left, later, ?_⟩
        rintro ⟨stage, path⟩ node
        rw [listed]
        exact and_congr_right fun found => not_congr (lists_leaving_iff formed here found)
      missing := fun stat none => missing none
      nextNode := congrArg Shape.nextNode fades.shape
      modifiers := congrArg Shape.modifiers fades.shape
      contributions := congrArg Shape.contributions fades.shape
      behaviors := congrArg Shape.behaviors fades.shape
      links := congrArg Shape.links fades.shape
      evaluating := fades.evaluating
      outdated := by
        intro idle
        show graph.noteOutdated.outdated = graph.outdated
        simp [noteOutdated, idle]
      subscriptions := by
        intro unheard
        have silent : (nodes.filterMap graph.nodes.get?).flatMap (·.subscribers) = [] := by
          rw [List.flatMap_eq_nil_iff]
          intro present inside
          obtain ⟨node, member, there⟩ := List.mem_filterMap.mp inside
          exact unheard node present member there
        show List.foldl _ graph.subscriptions _ = graph.subscriptions
        rw [silent]
        rfl
      lastSubscription := fades.lastSubscription
      registered := fades.registered
      journal := fades.journal
      depth := fades.depth
      slots := fades.slots
      pending := by
        intro node outside
        show node ∈ graph.pending.nodes.filter _ ↔ _
        simp [NodeSet.contains_ofList, outside]
      once := fun distinct => distinct.filter _ }

/-- Removing nodes discards them. -/
theorem discards_removeNodes (formed : graph.WellFormed vocabulary) (joined : graph.Joined)
    (nodes : List NodeId) : graph.Discards (graph.removeNodes nodes) (· ∈ nodes) := by
  rw [removeNodes_eq]
  split
  · next absent =>
    apply Discards.of_absent formed joined
    intro node inside
    rw [List.isEmpty_iff, List.filterMap_eq_nil_iff] at absent
    exact absent node inside
  · exact discards_thin formed joined nodes

/-! ### The tables of modifiers and contributions -/

/-- The same graph with other tables of modifiers and of their nodes. -/
def retable (graph : Graph) (modifiers : Table ModifierId Modifier)
    (contributions : Table ModifierId NodeId) : Graph :=
  { graph with modifiers, contributions }

theorem unlistAll_retable (graph : Graph) (leaving : List Node)
    (modifiers : Table ModifierId Modifier) (contributions : Table ModifierId NodeId) :
    (graph.retable modifiers contributions).unlistAll leaving =
      (graph.unlistAll leaving).retable modifiers contributions := by
  induction leaving generalizing graph with
  | nil => rfl
  | cons head rest inductionHypothesis =>
      have first : (graph.retable modifiers contributions).unlist head.address =
          (graph.unlist head.address).retable modifiers contributions := by
        cases head.address <;> rfl
      simp only [unlistAll, List.foldl_cons, first]
      exact inductionHypothesis (graph.unlist head.address)

/-- The removal of nodes does not look at these tables. -/
theorem removeNodes_retable (graph : Graph) (nodes : List NodeId)
    (modifiers : Table ModifierId Modifier) (contributions : Table ModifierId NodeId) :
    (graph.retable modifiers contributions).removeNodes nodes =
      (graph.removeNodes nodes).retable modifiers contributions := by
  rw [removeNodes_eq, removeNodes_eq,
    show (graph.retable modifiers contributions).nodes = graph.nodes from rfl]
  split
  · rfl
  · exact unlistAll_retable (graph.thin nodes) _ modifiers contributions

/-- Tables that lack the modifiers whose nodes are gone, and those only. -/
structure Abandons (graph : Graph) (gone : NodeId → Prop) (modifiers : Table ModifierId Modifier)
    (contributions : Table ModifierId NodeId) : Prop where
  fewer : ∀ modifier node, contributions.get? modifier = some node →
    graph.contributions.get? modifier = some node ∧ ¬ gone node
  kept : ∀ modifier node, graph.contributions.get? modifier = some node → ¬ gone node →
    contributions.get? modifier = some node ∧
      modifiers.get? modifier = graph.modifiers.get? modifier
  present : ∀ id modifier, modifiers.get? id = some modifier →
    graph.modifiers.get? id = some modifier ∧ (contributions.get? id).isSome
  enrolled : ∀ stat form path, ∀ member ∈ graph.members stat form path,
    modifiers.get? member = graph.modifiers.get? member

/-- Nothing has to be taken out of the tables if the nodes of all modifiers stay. -/
theorem Abandons.none (formed : graph.WellFormed vocabulary)
    (stays : ∀ modifier node, graph.contributions.get? modifier = some node → ¬ gone node) :
    graph.Abandons gone graph.modifiers graph.contributions where
  fewer := fun modifier node found => ⟨found, stays modifier node found⟩
  kept := fun _ _ found _ => ⟨found, rfl⟩
  present := fun id modifier found => ⟨found, (formed.present id modifier found).2.2⟩
  enrolled := fun _ _ _ _ _ => rfl

section Discarded

variable {middle : Graph} {modifiers : Table ModifierId Modifier}
  {contributions : Table ModifierId NodeId} (formed : graph.WellFormed vocabulary)
  (discards : graph.Discards middle gone) (abandons : graph.Abandons gone modifiers contributions)

include discards

theorem Discards.address_left {node : NodeId} {address : Address}
    (found : graph.addressOf? node = some address) (stays : ¬ gone node) :
    middle.addressOf? node = some address := by
  unfold addressOf? at found ⊢
  by_cases below : graph.Below gone node
  · rw [discards.dropped node stays below, Option.map_map]
    exact found
  · rw [discards.kept node below]
    exact found

theorem Discards.address_before {node : NodeId} {address : Address}
    (found : middle.addressOf? node = some address) :
    graph.addressOf? node = some address ∧ ¬ gone node := by
  have stays : ¬ gone node := by
    intro leaves
    rw [addressOf?, discards.removed node leaves] at found
    contradiction
  refine ⟨?_, stays⟩
  unfold addressOf? at found ⊢
  by_cases below : graph.Below gone node
  · rw [discards.dropped node stays below, Option.map_map] at found
    exact found
  · rw [discards.kept node below] at found
    exact found

theorem Discards.pipeline_before {stat : StatId} {pipeline : Pipeline}
    (here : middle.pipelines.get? stat = some pipeline) :
    ∃ old, graph.pipelines.get? stat = some old ∧ pipeline = { old with nodes := pipeline.nodes } ∧
      ∀ key node, pipeline.nodes.get? key = some node ↔
        old.nodes.get? key = some node ∧ ¬ gone node := by
  cases before : graph.pipelines.get? stat with
  | none =>
      rw [discards.missing stat before] at here
      contradiction
  | some old =>
      obtain ⟨nodes, later, listed⟩ := discards.pipelines stat old before
      rw [later] at here
      cases here
      exact ⟨old, rfl, rfl, listed⟩

theorem Discards.members (stat : StatId) (form : Form) (path : PathId) :
    middle.members stat form path = graph.members stat form path := by
  unfold Graph.members
  cases before : graph.pipelines.get? stat with
  | none => rw [discards.missing stat before]
  | some old =>
      obtain ⟨nodes, later, _⟩ := discards.pipelines stat old before
      rw [later]
      rfl

theorem Discards.members_retable (modifiers : Table ModifierId Modifier)
    (contributions : Table ModifierId NodeId) (stat : StatId) (form : Form) (path : PathId) :
    (middle.retable modifiers contributions).members stat form path =
      graph.members stat form path := discards.members stat form path

theorem Discards.paths (stat : StatId) : middle.paths stat = graph.paths stat := by
  unfold Graph.paths
  rw [discards.links]
  cases before : graph.pipelines.get? stat with
  | none => rw [discards.missing stat before]
  | some old =>
      obtain ⟨nodes, later, _⟩ := discards.pipelines stat old before
      rw [later]
      rfl

include formed abandons

theorem WellFormed.discard : (middle.retable modifiers contributions).WellFormed vocabulary where
  numbered := by
    intro node address found
    show node.number < middle.nextNode
    rw [discards.nextNode]
    exact formed.numbered node address (discards.address_before found).1
  listed := by
    intro stat pipeline stage path node here found
    obtain ⟨old, before, _, listed⟩ := discards.pipeline_before here
    obtain ⟨inside, stays⟩ := (listed _ _).mp found
    obtain ⟨full, address, rest⟩ := formed.listed stat old stage path node before inside
    exact ⟨full, discards.address_left address stays, rest⟩
  named := by
    intro node stat stage path found
    obtain ⟨before, stays⟩ := discards.address_before found
    obtain ⟨old, here, inside⟩ := formed.named node stat stage path before
    obtain ⟨nodes, later, listed⟩ := discards.pipelines stat old here
    exact ⟨_, later, (listed _ _).mpr ⟨inside, stays⟩⟩
  addressed := fun node stat stage path found =>
    formed.addressed node stat stage path (discards.address_before found).1
  contributing := by
    intro modifier node found
    obtain ⟨before, stays⟩ := abandons.fewer modifier node found
    exact discards.address_left (formed.contributing modifier node before) stays
  contributed := by
    intro node modifier found
    obtain ⟨before, stays⟩ := discards.address_before found
    obtain ⟨there, known⟩ := formed.contributed node modifier before
    obtain ⟨still, same⟩ := abandons.kept modifier node there stays
    exact ⟨still, same ▸ known⟩
  present := by
    intro id modifier found
    obtain ⟨before, there⟩ := abandons.present id modifier found
    obtain ⟨same, within, _⟩ := formed.present id modifier before
    exact ⟨same, within, there⟩
  pipelines := by
    intro stat pipeline here
    obtain ⟨old, before, same, _⟩ := discards.pipeline_before here
    have kept := formed.pipelines stat old before
    rw [same]
    refine ⟨kept.keyed, kept.resolved, kept.within, ?_⟩
    intro form path slot filled
    have fits := kept.slots form path slot filled
    refine ⟨fits.path_id, fits.place, fits.within, fits.distinct, ?_⟩
    intro member inside
    have enrolled : member ∈ graph.members stat form path := by
      simpa [Graph.members, before, Pipeline.members, filled] using inside
    obtain ⟨modifier, known, rest⟩ := fits.enrolled member inside
    exact ⟨modifier, (abandons.enrolled stat form path member enrolled).trans known, rest⟩
  behaviors := by
    show ∀ stat behaviors, middle.behaviors.get? stat = some behaviors → _
    rw [discards.behaviors]
    exact formed.behaviors
  links := by
    show middle.links.WellFormed vocabulary
    rw [discards.links]
    exact formed.links

theorem WellFormed.alters_discard :
    graph.Alters (middle.retable modifiers contributions) (graph.Below gone) Clean where
  closed := by
    rintro producer consumer feeds ⟨start, leaves, reaches⟩
    exact ⟨start, leaves, reaches.tail feeds⟩
  feeds := by
    intro producer node apart
    show middle.Feeds producer node ↔ _
    rw [discards.feeds]
    refine ⟨And.left, fun feeds => ⟨feeds, fun leaves => apart ?_, fun leaves => apart ?_⟩⟩
    · exact ⟨producer, leaves, .single feeds⟩
    · exact ⟨node, leaves, .refl⟩
  known := fun node apart => congrArg (·.bind (·.cache.value?)) (discards.kept node apart)
  dropped := by
    intro node below
    show (middle.nodes.get? node).bind (·.cache.value?) = none
    by_cases leaves : gone node
    · rw [discards.removed node leaves]
      rfl
    · rw [discards.dropped node leaves below]
      cases graph.nodes.get? node with
      | none => rfl
      | some present => exact present.cache.value?_invalidate
  located := by
    intro query node apart found
    have stays : ¬ gone node := fun leaves => apart ⟨node, leaves, .refl⟩
    cases query with
    | contribution modifier => exact (abandons.kept modifier node found stays).1
    | node stat stage path =>
        simp only [Graph.located, node?] at found ⊢
        split at found
        · next resolved =>
          rw [if_pos resolved]
          rw [Option.bind_eq_some_iff] at found ⊢
          obtain ⟨old, here, inside⟩ := found
          obtain ⟨nodes, later, listed⟩ := discards.pipelines _ old here
          exact ⟨_, later, (listed _ _).mpr ⟨inside, stays⟩⟩
        · contradiction
  addressed := fun node address apart found =>
    discards.address_left found fun leaves => apart ⟨node, leaves, .refl⟩
  view := by
    intro node address apart _ found
    have stays : ¬ gone node := fun leaves => apart ⟨node, leaves, .refl⟩
    cases address with
    | contribution modifier =>
        have same := (abandons.kept modifier node (formed.contributed _ _ found).1 stays).2
        refine ⟨?_, rfl⟩
        show Graph.planOf (middle.retable modifiers contributions) (.contribution modifier) = _
        simp only [planOf, retable, same]
    | pipeline stat stage path =>
        refine ⟨?_, ?_⟩
        · apply planOf_congr _ (formed.node?_of_address found).2
            fun pipeline here => (formed.pipelines stat pipeline here).keyed
          obtain ⟨old, here, _⟩ := formed.named _ _ _ _ found
          obtain ⟨nodes, later, _⟩ := discards.pipelines stat old here
          have links : (middle.retable modifiers contributions).links = graph.links := discards.links
          refine ⟨?_, fun form _ => discards.members stat form path.id, ?_, ?_, ?_,
            fun _ => discards.paths stat⟩
          · rw [here, show (middle.retable modifiers contributions).pipelines.get? stat = _ from later]
            rfl
          · intro _ member inside
            simp only [priorityOf, retable, abandons.enrolled _ _ _ member inside]
          · intro _ source _
            rw [links]
            exact ⟨rfl, Or.inl rfl⟩
          · intro _ _
            rw [links]
            exact ⟨rfl, rfl⟩
        · show middle.transformsFor stat stage path.id = graph.transformsFor stat stage path.id
          rw [transformsFor, transformsFor, discards.behaviors]

end Discarded

theorem Discards.wired {middle : Graph} (discards : graph.Discards middle gone) (wired : graph.Wired)
    (modifiers : Table ModifierId Modifier) (contributions : Table ModifierId NodeId) :
    (middle.retable modifiers contributions).Wired := by
  refine wired.keep (fun producer consumer feeds => ?_) (fun producer consumer feeds => ?_) ?_
  · exact ((discards.feeds producer consumer).mp feeds).1
  · obtain ⟨before, first, second⟩ := (discards.feeds producer consumer).mp feeds
    obtain ⟨_, here⟩ := wired.producer producer consumer before
    obtain ⟨_, there, _⟩ := wired.enrolled producer consumer before
    exact ⟨(discards.address_left here first).trans here.symm,
      (discards.address_left there second).trans there.symm⟩
  · rintro producer consumer (⟨stat, stage, path⟩ | own) member _ _ enrolls
    · obtain ⟨form, collects, inside⟩ := enrolls
      exact ⟨form, collects, by
        rw [discards.members_retable]
        exact inside⟩
    · exact enrolls

theorem Discards.stacked {middle : Graph} (discards : graph.Discards middle gone)
    (resting : graph.Resting vocabulary) : middle.Stacked := by
  refine ⟨fun node => ?_, ?_, ?_⟩
  · rw [discards.evaluating, resting.idle]
    refine ⟨?_, fun none => absurd none List.not_mem_nil⟩
    rintro ⟨present, found, computing⟩
    have idle (present : Node) (found : graph.nodes.get? node = some present) :
        present.cache ≠ .computing := by
      intro computing
      have inside := (resting.stacked.computing node).mp ⟨present, found, computing⟩
      rw [resting.idle] at inside
      contradiction
    by_cases leaves : gone node
    · rw [discards.removed node leaves] at found
      contradiction
    · by_cases below : graph.Below gone node
      · rw [discards.dropped node leaves below, Option.map_eq_some_iff] at found
        obtain ⟨old, before, rfl⟩ := found
        have active := idle old before
        revert computing active
        cases old.cache <;> simp [Cache.invalidate]
      · rw [discards.kept node below] at found
        exact absurd computing (idle present found)
  · rw [discards.evaluating]
    exact resting.stacked.distinct
  · rw [discards.evaluating, discards.outdated resting.idle]
    exact resting.stacked.outdated

theorem Discards.stacked_retable {middle : Graph} (discards : graph.Discards middle gone)
    (resting : graph.Resting vocabulary) (modifiers : Table ModifierId Modifier)
    (contributions : Table ModifierId NodeId) :
    (middle.retable modifiers contributions).Stacked := by
  have stacked := discards.stacked resting
  exact ⟨stacked.computing, stacked.distinct, stacked.outdated⟩

/-- What is left was there before, up to its cached value. -/
theorem Discards.node_before {middle : Graph} (discards : graph.Discards middle gone)
    {node : NodeId} {present : Node} (found : middle.nodes.get? node = some present) :
    ∃ cache, graph.nodes.get? node = some { present with cache } := by
  have stays : ¬ gone node := by
    intro leaves
    rw [discards.removed node leaves] at found
    contradiction
  by_cases below : graph.Below gone node
  · rw [discards.dropped node stays below, Option.map_eq_some_iff] at found
    obtain ⟨old, before, rfl⟩ := found
    exact ⟨old.cache, before⟩
  · rw [discards.kept node below] at found
    exact ⟨present.cache, found⟩

/-- Where neither stages nor watched nodes go, the subscribers notice nothing. -/
theorem Discards.audience {middle : Graph} (discards : graph.Discards middle gone)
    (stays : ∀ node, graph.Staged node → ¬ gone node)
    (unheard : ∀ node present, gone node → graph.nodes.get? node = some present →
      present.subscribers = []) (modifiers : Table ModifierId Modifier)
    (contributions : Table ModifierId NodeId) :
    graph.Audience (middle.retable modifiers contributions) where
  staged := by
    intro node present staged found
    by_cases below : graph.Below gone node
    · refine ⟨present.cache.invalidate, (discards.dropped node (stays node staged) below).trans ?_⟩
      rw [found]
      rfl
    · exact ⟨present.cache, (discards.kept node below).trans found⟩
  watched := fun _ _ found _ => discards.node_before found
  rosters := by
    intro slot
    show middle.rosterAudience slot = graph.rosterAudience slot
    unfold Graph.rosterAudience roster?
    cases before : graph.pipelines.get? slot.stat with
    | none => rw [discards.missing _ before]
    | some old =>
        obtain ⟨nodes, later, _⟩ := discards.pipelines _ old before
        rw [later]
        rfl
  subscriptions := discards.subscriptions unheard
  lastSubscription := discards.lastSubscription
  announcements := congrArg (List.filter Record.isAnnouncement) discards.journal
  depth := discards.depth
  pending := fun node member staged => (discards.pending node (stays node staged)).mpr member
  once := discards.once

end Graph
end CharacterSheet
