import CharacterSheet.Proofs.Calculation.Coherence

/-!
Contract: calculations keep the cached values of a graph right.

Owns:
- steps during which nothing is lost, and steps after which all calculations that are going
  on count as outdated;
- making a node is a step of one of these kinds, spares what it does not drop and so keeps a graph
  coherent;
- how a calculation ends, with and without a loss in its course;
- so is every calculation, and a value that it ends with is justified;
- shielded plans, which end in no local fault as long as none of their requests is answered one; the
  plan of every node is shielded, so no node answers a local fault.

A nested read can bring in behaviors, which drop values that were read already. Then the
calculation is outdated and its value is not kept; otherwise all that it read is still
cached when it ends.
-/

namespace CharacterSheet
namespace Graph

variable {vocabulary : Vocabulary} {graph middle other : Graph} {dirty : NodeId → Prop}

/-- Nothing is lost: values stay cached and transforms stay in force. -/
structure Steady (graph other : Graph) : Prop where
  known : ∀ node value, graph.known node = some value → other.known node = some value
  addressed : ∀ node address, graph.addressOf? node = some address →
    other.addressOf? node = some address
  transforms : ∀ node address, graph.addressOf? node = some address →
    other.transformsOf address = graph.transformsOf address
  outdated : other.outdated = graph.outdated

theorem Steady.refl (graph : Graph) : graph.Steady graph :=
  ⟨fun _ _ known => known, fun _ _ found => found, fun _ _ _ => rfl, rfl⟩

theorem Steady.trans (first : graph.Steady middle) (second : middle.Steady other) :
    graph.Steady other where
  known := fun node value known => second.known node value (first.known node value known)
  addressed := fun node address found =>
    second.addressed node address (first.addressed node address found)
  transforms := by
    intro node address found
    rw [second.transforms node address (first.addressed node address found),
      first.transforms node address found]
  outdated := by rw [second.outdated, first.outdated]

/-- All calculations that were going on have become outdated. -/
def Disturbed (graph other : Graph) : Prop := ∀ node ∈ graph.evaluating, node ∈ other.outdated

theorem Disturbed.advance (disturbed : graph.Disturbed middle)
    (same : middle.evaluating = graph.evaluating) (advances : Advances vocabulary middle other) :
    graph.Disturbed other := by
  intro node running
  apply advances.noted node
  · rw [same]
    exact running
  · exact disturbed node running

/-- What is kept by two steps in a row: nothing is lost, or the loss is noted. -/
theorem kept_trans (first : graph.Disturbed middle ∨ graph.Steady middle)
    (second : middle.Disturbed other ∨ middle.Steady other)
    (before : Advances vocabulary graph middle) (after : Advances vocabulary middle other) :
    graph.Disturbed other ∨ graph.Steady other := by
  rcases first with disturbed | steady
  · exact Or.inl (disturbed.advance before.evaluating after)
  · rcases second with disturbed | further
    · left
      intro node running
      apply disturbed node
      rw [before.evaluating]
      exact running
    · exact Or.inr (steady.trans further)

/-- A step that keeps a graph coherent, and loses nothing unless it says so. -/
structure Settles (graph : Graph) (dirty : NodeId → Prop) (other : Graph) : Prop where
  coherent : other.Coherent dirty
  kept : graph.Disturbed other ∨ graph.Steady other

/-- A step after which the graph has advanced and settled. -/
structure Proceeds (vocabulary : Vocabulary) (dirty : NodeId → Prop) (graph other : Graph) : Prop where
  advances : Advances vocabulary graph other
  settles : graph.Settles dirty other

/-- A step that spares all that it does not drop, and loses nothing unless it says so. -/
structure Steps (vocabulary : Vocabulary) (graph other : Graph) : Prop where
  advances : Advances vocabulary graph other
  alters : ∃ affected, graph.Alters other affected Clean
  kept : graph.Disturbed other ∨ graph.Steady other

namespace Steps

theorem refl (formed : graph.WellFormed vocabulary) (stacked : graph.Stacked) :
    Steps vocabulary graph graph :=
  ⟨.refl formed stacked, ⟨_, .of_shape rfl rfl rfl⟩, Or.inr (.refl graph)⟩

theorem trans (first : Steps vocabulary graph middle) (second : Steps vocabulary middle other) :
    Steps vocabulary graph other := by
  obtain ⟨_, alters⟩ := first.alters
  obtain ⟨_, further⟩ := second.alters
  refine ⟨first.advances.trans second.advances, ⟨_, (alters.trans further).absorb ?_⟩,
    kept_trans first.kept second.kept first.advances second.advances⟩
  rintro _ _ _ (none | none) <;> exact none.elim

/-- Such a step keeps a graph coherent. -/
theorem proceeds (steps : Steps vocabulary graph other) (formed : graph.WellFormed vocabulary)
    (coherent : graph.Coherent dirty) : Proceeds vocabulary dirty graph other := by
  obtain ⟨_, alters⟩ := steps.alters
  exact ⟨steps.advances, alters.clean formed coherent, steps.kept⟩

end Steps

/-! ### Making a node -/

theorem steps_openPipeline (formed : graph.WellFormed vocabulary) {stat : Stat}
    (advances : Advances vocabulary graph (graph.openPipeline stat)) :
    Steps vocabulary graph (graph.openPipeline stat) where
  advances := advances
  alters := ⟨_, alters_openPipeline formed advances.grows⟩
  kept := Or.inr ⟨fun _ _ known => known, fun _ _ found => found, fun _ address _ => by
    cases address <;> rfl, rfl⟩

theorem steps_addStage (formed : graph.WellFormed vocabulary) {stat : StatId} {stage : Stage}
    {path : Path} (advances : Advances vocabulary graph (graph.addStage stat stage path).2) :
    Steps vocabulary graph (graph.addStage stat stage path).2 where
  advances := advances
  alters := ⟨_, alters_addStage formed advances.grows⟩
  kept := by
    refine Or.inr ⟨?_, fun _ _ found => advances.grows.addressed found, ?_, rfl⟩
    · intro node value known
      rw [known_addStage formed]
      exact known
    · intro _ address _
      cases address <;> rfl

/-- Put behaviors in force without dropping any value yet. -/
def putInForce (graph : Graph) (stat : StatId) (behaviors : List Behavior) : Graph :=
  { graph with behaviors := graph.behaviors.insert stat behaviors }.record
    (.behaviorsRegistered stat behaviors.length)

/-- New behaviors change only what their targets calculate. -/
theorem alters_putInForce (formed : graph.WellFormed vocabulary) {stat : StatId}
    {behaviors : List Behavior} (absent : graph.behaviors.get? stat = none) :
    graph.Alters (graph.putInForce stat behaviors) Clean
      fun node => node ∈ behaviors.flatMap graph.behaviorTargets := by
  refine .of_content rfl (fun _ => rfl) (fun query _ found => ?_) (fun _ _ found => found) ?_
  · cases query <;> exact found
  · intro node address missed found
    refine ⟨rfl, ?_⟩
    cases address with
    | contribution modifier => rfl
    | pipeline own stage path =>
        simp only [transformsOf, transformsFor_eq, putInForce, record,
          Table.entries_insert_of_absent absent, List.flatMap_append, List.flatMap_singleton,
          untargeted formed found missed, List.map_nil, List.append_nil]

theorem steps_enforce (formed : graph.WellFormed vocabulary) (stacked : graph.Stacked)
    {stat : StatId} {behaviors : List Behavior} (absent : graph.behaviors.get? stat = none)
    (within : BehaviorsWithin vocabulary behaviors) :
    Steps vocabulary graph (graph.enforce stat behaviors) where
  advances := advances_enforce formed stacked within
  alters := ⟨_, (alters_putInForce formed absent).invalidate
    (behaviors.flatMap graph.behaviorTargets) fun _ _ _ => Or.inl⟩
  kept := by
    by_cases none : behaviors.flatMap graph.behaviorTargets = []
    · right
      have enforced : graph.enforce stat behaviors = (graph.putInForce stat behaviors).invalidateAll
        (behaviors.flatMap graph.behaviorTargets) := rfl
      rw [enforced, none]
      refine ⟨fun _ _ known => known, fun _ _ found => found, ?_, rfl⟩
      intro node address found
      apply ((alters_putInForce formed absent).view node address id _ found).2
      rw [none]
      exact List.not_mem_nil
    · exact Or.inl fun node running => outdated_invalidateAll none running

theorem steps_ensurePipeline (formed : graph.WellFormed vocabulary) (stacked : graph.Stacked)
    {stat : Stat} (resolved : stat.isResolved) (within : stat.HeadWithin vocabulary) :
    Steps vocabulary graph (graph.ensurePipeline stat) := by
  rw [ensurePipeline_eq]
  split
  · exact .refl formed stacked
  · next absent =>
    have missing : graph.pipelines.get? stat.id = none := by
      simpa [Table.contains] using absent
    have opens := steps_openPipeline formed
      (advances_openPipeline formed stacked missing resolved within)
    split
    · exact opens
    · next unforced =>
      have free : graph.behaviors.get? stat.id = none := by
        simp only [Bool.or_eq_true, not_or] at unforced
        simpa [Table.contains] using unforced.2
      exact opens.trans
        (steps_enforce opens.advances.formed opens.advances.stacked free within.behaviors)

theorem steps_record (formed : graph.WellFormed vocabulary) (stacked : graph.Stacked)
    {entry : Record} (inward : entry.isAnnouncement = false) :
    Steps vocabulary graph (graph.record entry) where
  advances := .record formed stacked inward
  alters := ⟨_, graph.alters_record _⟩
  kept := Or.inr ⟨fun _ _ known => known, fun _ _ found => found, fun _ address _ => by
    cases address <;> rfl, rfl⟩

theorem steps_obtain (formed : graph.WellFormed vocabulary) (stacked : graph.Stacked)
    {stat : Stat} {stage : Stage} {path : Path} (resolved : stat.isResolved)
    (within : stat.HeadWithin vocabulary) (route : path.Within vocabulary) :
    Steps vocabulary graph (graph.obtain stat stage path).2 := by
  have ready := steps_ensurePipeline formed stacked resolved within
  obtain ⟨pipeline, opened⟩ := graph.pipeline_ensurePipeline stat
  apply ready.trans
  apply obtain_induction stage
  · exact .refl ready.advances.formed ready.advances.stacked
  · intro grown other place steps either fits missing
    obtain ⟨_, here, _⟩ := steps.advances.grows.pipelines _ _ opened
    have added : Advances vocabulary grown (grown.addStage stat.id other place).2 := by
      apply (Advances.refl steps.advances.formed steps.advances.stacked).addStage here
        (within_of_route route either) fits missing
    exact steps.trans (steps_addStage steps.advances.formed added)

theorem steps_locate (formed : graph.WellFormed vocabulary) (stacked : graph.Stacked)
    {query : Query} (asked : (statedScope vocabulary).query query) :
    Steps vocabulary graph (graph.locate query).2 := by
  cases query with
  | node stat stage path =>
      rw [locate_node]
      split
      · next resolved => exact steps_obtain formed stacked resolved asked.1 asked.2
      · exact .refl formed stacked
  | contribution modifier =>
      rw [locate_contribution]
      split <;> exact .refl formed stacked

theorem proceeds_record (formed : graph.WellFormed vocabulary) (stacked : graph.Stacked)
    (coherent : graph.Coherent dirty) {entry : Record} (inward : entry.isAnnouncement = false) :
    Proceeds vocabulary dirty graph (graph.record entry) :=
  (steps_record formed stacked inward).proceeds formed coherent

theorem proceeds_locate (formed : graph.WellFormed vocabulary) (stacked : graph.Stacked)
    (coherent : graph.Coherent dirty) {query : Query}
    (asked : (statedScope vocabulary).query query) :
    Proceeds vocabulary dirty graph (graph.locate query).2 :=
  (steps_locate formed stacked asked).proceeds formed coherent

/-! ### Beginning and ending a calculation -/

theorem known_enter {node : NodeId} {present : Node} (found : graph.nodes.get? node = some present)
    (stale : present.cache = .stale) : (graph.enter node).known = graph.known := by
  funext reached
  rw [known, known, get?_enter]
  split
  · next same =>
    rw [same, found]
    simp [stale, Cache.value?]
  · rfl

theorem unknown_of_stale {node : NodeId} {present : Node}
    (found : graph.nodes.get? node = some present) (stale : present.cache = .stale) :
    graph.known node = none := by
  rw [known, found]
  simp [stale, Cache.value?]

theorem alters_enter {node : NodeId} {present : Node} (found : graph.nodes.get? node = some present)
    (stale : present.cache = .stale) : graph.Alters (graph.enter node) Clean Clean :=
  .of_shape (shape_enter graph node) rfl (known_enter found stale)

theorem steady_enter {node : NodeId} {present : Node} (found : graph.nodes.get? node = some present)
    (stale : present.cache = .stale) : graph.Steady (graph.enter node) := by
  have shape := shape_enter graph node
  refine ⟨?_, ?_, ?_, rfl⟩
  · intro other value before
    rw [known_enter found stale]
    exact before
  · intro other address before
    rw [addressOf?_of_shape shape]
    exact before
  · intro _ address _
    rw [transformsOf_of_shape shape]

theorem proceeds_enter (formed : graph.WellFormed vocabulary) (coherent : graph.Coherent dirty)
    {node : NodeId} {present : Node} (found : graph.nodes.get? node = some present)
    (stale : present.cache = .stale) :
    (graph.enter node).Coherent dirty ∧ graph.Steady (graph.enter node) :=
  ⟨(alters_enter found stale).clean formed coherent, steady_enter found stale⟩

theorem known_leave (graph : Graph) (node : NodeId) (reads : List NodeId) (reply : Reply)
    {reached : NodeId} (distinct : reached ≠ node) :
    (graph.leave node reads reply).known reached = graph.known reached := by
  rw [known, known, get?_leave, if_neg distinct]

theorem feeds_leave (graph : Graph) (node : NodeId) (reads : List NodeId) (reply : Reply)
    {producer consumer : NodeId} :
    (graph.leave node reads reply).Feeds producer consumer ↔
      if consumer = node then producer ∈ reads ∧ graph.nodes.contains producer
      else graph.Feeds producer consumer := by
  rw [leave_eq]
  simp only [Feeds, rewire, List.mem_append, List.mem_filter, List.mem_map, Edge.mk.injEq,
    decide_eq_true_eq]
  split
  · next same =>
    constructor
    · rintro (⟨_, different⟩ | ⟨read, inside, rfl, _⟩)
      · exact absurd same different
      · exact inside
    · intro inside
      exact Or.inr ⟨producer, inside, rfl, same.symm⟩
  · next different =>
    constructor
    · rintro (⟨before, _⟩ | ⟨_, _, _, same⟩)
      · exact before
      · exact absurd same.symm different
    · intro before
      exact Or.inl ⟨before, different⟩

/-- Ending a calculation spares every other node. -/
theorem spares_leave {node : NodeId} (unknown : graph.known node = none) (reads : List NodeId)
    (reply : Reply) {reached : NodeId} (distinct : reached ≠ node) :
    graph.Spares (graph.leave node reads reply) reached where
  feeds := by
    intro producer
    rw [feeds_leave, if_neg distinct]
  known := by
    intro producer cached _ before
    rw [known_leave]
    · exact before
    · rintro rfl
      rw [unknown] at before
      contradiction
  located := by
    intro query producer _ found
    rw [located_of_shape (shape_leave _ _ _ _)]
    exact found
  view := by
    intro address found
    rw [addressOf?_of_shape (shape_leave _ _ _ _), planOf_of_shape (shape_leave _ _ _ _),
      transformsOf_of_shape (shape_leave _ _ _ _)]
    exact ⟨found, rfl, rfl⟩

/-- Ending a calculation keeps a graph coherent if the value that is kept is justified. -/
theorem Coherent.leave (coherent : graph.Coherent dirty) (formed : graph.WellFormed vocabulary)
    {node : NodeId} (unknown : graph.known node = none) {reads : List NodeId} {reply : Reply}
    (justify : ∀ value, (graph.leave node reads reply).known node = some value →
      (graph.leave node reads reply).Justified node value ∧
        ∀ producer ∈ reads, ∃ cached, graph.known producer = some cached) :
    (graph.leave node reads reply).Coherent dirty := by
  have apart {reached : NodeId} {value : Option Value} (known : graph.known reached = some value) :
      reached ≠ node := by
    rintro rfl
    rw [unknown] at known
    contradiction
  have grounds {reached : NodeId} (grounded : graph.Grounded reached) :
      (graph.leave node reads reply).Grounded reached := by
    obtain ⟨value, known⟩ := grounded.known
    refine Grounded.transfer ?_ grounded ((known_leave _ _ _ _ (apart known)).trans known)
    intro consumer below _ producer feeds
    obtain ⟨_, held⟩ := below.known
    rw [feeds_leave, if_neg (apart held)] at feeds
    obtain ⟨cached, kept⟩ := (below.producer feeds).known
    exact ⟨feeds, cached, (known_leave _ _ _ _ (apart kept)).trans kept⟩
  constructor
  · intro reached value known
    by_cases same : reached = node
    · subst same
      refine .intro known ?_
      intro producer feeds
      rw [feeds_leave, if_pos rfl] at feeds
      obtain ⟨cached, held⟩ := (justify value known).2 producer feeds.1
      exact grounds (coherent.grounded producer cached held)
    · rw [known_leave _ _ _ _ same] at known
      exact grounds (coherent.grounded reached value known)
  · intro reached value known clean
    by_cases same : reached = node
    · subst same
      exact (justify value known).1
    · rw [known_leave _ _ _ _ same] at known
      exact (coherent.justified reached value known clean).spared formed
        (spares_leave unknown reads reply same)

theorem Asks.grow {address : Address} {plan : Plan (Option Value)} (grows : graph.Grows other)
    (asks : plan.Asks (graph.scopeOf vocabulary address)) :
    plan.Asks (other.scopeOf vocabulary address) := by
  apply Plan.Asks.mono asks
  · intro query asked
    cases query with
    | node stat stage path => exact ⟨asked.1.imp id grows.keeps, asked.2⟩
    | contribution modifier => exact grows.enrolls.mpr asked
  · exact fun _ _ _ placed => placed
  · exact fun _ within => within

section Ending

variable {node : NodeId} {present : Node} {frame : Frame} {reply : Reply}

/-- While a node is being calculated, nothing is known of it. -/
theorem unknown_running (stacked : graph.Stacked) {node : NodeId} (running : node ∈ graph.evaluating) :
    graph.known node = none := by
  obtain ⟨present, here, computing⟩ := (stacked.computing node).mpr running
  rw [known, here]
  simp [computing, Cache.value?]

/-- How a calculation ends: if something was lost in its course, its value is dropped and the
calculations above it are outdated as well; otherwise the value is kept. -/
theorem leave_cases (stacked : graph.Stacked) (found : graph.nodes.get? node = some present)
    (stale : present.cache = .stale) (advances : Advances vocabulary (graph.enter node) frame.graph)
    (kept : (graph.enter node).Disturbed frame.graph ∨ (graph.enter node).Steady frame.graph) :
    let left := frame.graph.leave node frame.reads reply
    (graph.Disturbed left ∧ ∀ value, left.known node ≠ some value) ∨
      (graph.Steady left ∧ ¬ (graph.enter node).Disturbed frame.graph ∧
        ∀ value, left.known node = some value ↔ reply = .ok value) := by
  have idle := not_mem_evaluating stacked found stale
  have top : frame.graph.evaluating = node :: graph.evaluating := advances.evaluating
  rcases kept with disturbed | steady
  · left
    have outdated : node ∈ frame.graph.outdated := disturbed node List.mem_cons_self
    constructor
    · intro other running
      have noted := disturbed other (List.mem_cons_of_mem _ running)
      have distinct : other ≠ node := by
        rintro rfl
        exact idle running
      rw [leave_eq]
      simpa [distinct] using noted
    · intro value
      rw [known, get?_leave, if_pos rfl]
      cases frame.graph.nodes.get? node with
      | none => simp
      | some last => cases reply <;> simp [cacheAfter, outdated, Cache.value?]
  · right
    have current : node ∉ frame.graph.outdated := by
      rw [steady.outdated]
      intro noted
      exact idle (stacked.outdated node noted)
    refine ⟨?_, fun disturbed => current (disturbed node List.mem_cons_self), ?_⟩
    · have before := (steady_enter found stale).trans steady
      refine ⟨?_, ?_, ?_, ?_⟩
      · intro other value known
        rw [known_leave]
        · exact before.known other value known
        · rintro rfl
          rw [unknown_of_stale found stale] at known
          contradiction
      · intro other address place
        rw [addressOf?_of_shape (shape_leave _ _ _ _)]
        exact before.addressed other address place
      · intro other address place
        rw [transformsOf_of_shape (shape_leave _ _ _ _)]
        exact before.transforms other address place
      · rw [leave_eq]
        simp only [before.outdated]
        apply List.filter_eq_self.mpr
        intro other noted
        simp only [ne_eq, decide_eq_true_eq]
        rintro rfl
        exact idle (stacked.outdated other noted)
    · intro value
      obtain ⟨last, here, _⟩ := (advances.stacked.computing node).mpr (by
        rw [top]
        exact List.mem_cons_self)
      rw [known, get?_leave, if_pos rfl, here]
      cases reply <;> simp [cacheAfter, current, Cache.value?]

/-- A value that the plan of a node yields from the nodes that were read is justified when the
calculation ends. -/
theorem justified_leave (formed : graph.WellFormed vocabulary)
    (found : graph.nodes.get? node = some present)
    (advances : Advances vocabulary (graph.enter node) frame.graph) {value : Option Value}
    {reads : List NodeId}
    (yields : ((graph.enter node).planOf present.address).Yields frame.graph value reads)
    (reading : ∀ producer, producer ∈ frame.reads ↔ producer ∈ reads) :
    (frame.graph.leave node frame.reads reply).Justified node value := by
  have entered := formed.enter node
  have address := addressOf?_enter found
  have unknown : frame.graph.known node = none := unknown_running advances.stacked (by
    rw [advances.evaluating]
    exact List.mem_cons_self)
  refine ⟨present.address, reads, ?_, ?_, ?_⟩
  · rw [addressOf?_of_shape (shape_leave _ _ _ _)]
    exact advances.grows.addressed address
  · rw [planOf_of_shape (shape_leave _ _ _ _), advances.grows.planOf entered address]
    apply yields.transfer advances.formed
      (Asks.grow advances.grows (planOf_asks entered address))
    · intro query producer _ located
      rw [located_of_shape (shape_leave _ _ _ _)]
      exact located
    · intro producer cached _ held
      rw [known_leave]
      · exact held
      · rintro rfl
        rw [unknown] at held
        contradiction
    · rw [transformsOf_of_shape (shape_leave _ _ _ _)]
  · intro producer
    rw [feeds_leave, if_pos rfl, reading]
    constructor
    · intro member
      obtain ⟨_, held⟩ := yields.known member
      obtain ⟨here, there, _⟩ := known_eq_some_iff.mp held
      refine ⟨member, ?_⟩
      rw [Table.contains, there]
      rfl
    · exact And.left

end Ending

/-! ### Calculations -/

/-- A reply that is no local fault. -/
def Plain (reply : Reply) : Prop := ∀ fault, reply = .error fault → fault.isLocal = false

/-- A disturbance in the course of several steps outlasts them. -/
theorem Disturbed.widen {first last : Graph} (before : Advances vocabulary first graph)
    (disturbed : graph.Disturbed other) (during : Advances vocabulary graph other)
    (after : Advances vocabulary other last) : first.Disturbed last := by
  intro node running
  apply disturbed.advance during.evaluating after
  rw [before.evaluating]
  exact running

/-- Whoever is enrolled in a roster has a node. -/
theorem WellFormed.enrolled_contributes (formed : graph.WellFormed vocabulary) {address : Address}
    {modifier : ModifierId} (enrolls : graph.Enrolls address modifier) :
    ∃ node, graph.contributions.get? modifier = some node := by
  cases address with
  | contribution own => exact enrolls.elim
  | pipeline stat stage path =>
      obtain ⟨form, _, member⟩ := enrolls
      obtain ⟨added, present, _⟩ := formed.enrolled member
      exact Option.isSome_iff_exists.mp (formed.present modifier added present).2.2

/-- A request that is answered at once is answered no local fault. -/
theorem refused_plain {query : Query} {reply : Reply} {same : Graph}
    (refused : graph.locate query = (.error reply, same)) : Plain reply := by
  obtain ⟨-, ⟨stat, stage, path, -, -, rfl⟩ | ⟨modifier, -, -, rfl⟩⟩ := refused_locate refused
  · rintro fault ⟨⟩
    rfl
  · exact fun _ same => nomatch same

/-- A plan goes on heeding faults after an answer that is no local fault. -/
theorem propagates_resume {query : Query} {resume : Reply → Plan (Option Value)} {answer : Reply}
    (propagates : (Plan.ask query resume).Propagates Transform.Propagates
      fun fault => fault.isLocal = false)
    (plain : Plain answer) : (resume answer).Propagates Transform.Propagates
      fun fault => fault.isLocal = false := by
  cases answer with
  | ok value => exact propagates.2 value
  | error fault =>
      rw [propagates.1 fault (plain fault rfl)]
      exact plain fault rfl

/-- A fault that a plan is answered is what it ends with. -/
theorem runs_fault {query : Query} {resume : Reply → Plan (Option Value)} {fault : Fault}
    {frame after : Frame} {reply : Reply}
    (propagates : (Plan.ask query resume).Propagates Transform.Propagates
      fun fault => fault.isLocal = false)
    (plain : fault.isLocal = false) (runs : Runs (resume (.error fault)) frame reply after) :
    reply = .error fault := by
  rw [propagates.1 fault plain] at runs
  cases runs
  rfl

end Graph

open CharacterSheet.Graph

/-! ### Shielded plans -/

/-- A plan that ends in no local fault as long as none of its requests is answered one. -/
def Plan.Shielded {α : Type} : Plan α → Prop
  | finish outcome => ∀ fault, outcome = .error fault → fault.isLocal = false
  | ask _ resume => ∀ reply, Graph.Plain reply → (resume reply).Shielded
  | consult _ _ _ resume => ∀ transforms, (resume transforms).Shielded
  | note _ next => next.Shielded

namespace Plan

variable {α β : Type}

theorem shielded_bind {plan : Plan α} {next : α → Plan β} (first : plan.Shielded)
    (later : ∀ result, (next result).Shielded) : (plan.bind next).Shielded := by
  induction plan with
  | finish outcome =>
      cases outcome with
      | ok result => exact later result
      | error fault =>
          rintro _ ⟨⟩
          exact first fault rfl
  | ask query resume inductionHypothesis =>
      exact fun reply plain => inductionHypothesis reply (first reply plain)
  | consult stat stage path resume inductionHypothesis =>
      exact fun transforms => inductionHypothesis transforms (first transforms)
  | note record rest inductionHypothesis => exact inductionHypothesis first

/-- A plan that passes on faults and has no local ones of its own is shielded. -/
theorem shielded_of_propagates {plan : Plan α}
    (propagates : plan.Propagates (fun _ => True) fun fault => fault.isLocal = false) :
    plan.Shielded := by
  induction plan with
  | finish outcome =>
      rintro fault rfl
      exact propagates
  | ask query resume inductionHypothesis =>
      rintro (fault | value) plain
      · rw [propagates.1 fault (plain fault rfl)]
        rintro _ ⟨⟩
        exact plain fault rfl
      · exact inductionHypothesis _ (propagates.2 value)
  | consult stat stage path resume inductionHypothesis =>
      exact fun transforms => inductionHypothesis transforms (propagates transforms fun _ _ => trivial)
  | note record rest inductionHypothesis => exact inductionHypothesis propagates

/-- A degraded plan is shielded, whatever the plan is. -/
theorem shielded_degrade (node : NodeName) (plan : Plan (Option Value)) :
    (degrade node plan).Shielded := by
  unfold degrade
  induction plan with
  | finish outcome =>
      cases outcome with
      | ok value => rintro _ ⟨⟩
      | error fault =>
          by_cases isLocal : fault.isLocal
          · simp only [attempt, bind, isLocal, ↓reduceIte]
            rintro _ ⟨⟩
          · simp only [attempt, bind, isLocal]
            rintro _ ⟨⟩
            exact Bool.eq_false_iff.mpr isLocal
  | ask query resume inductionHypothesis => exact fun reply _ => inductionHypothesis reply
  | consult stat stage path resume inductionHypothesis =>
      exact fun transforms => inductionHypothesis transforms
  | note record rest inductionHypothesis => exact inductionHypothesis

end Plan

/-- What a node calculates is shielded. -/
theorem Graph.planOf_shielded (graph : Graph) (address : Address) :
    (graph.planOf address).Shielded := by
  cases address with
  | contribution modifier =>
      rw [planOf]
      split
      · rintro _ ⟨⟩
      · exact Plan.shielded_degrade _ _
  | pipeline stat stage path =>
      rw [planOf]
      split
      · rintro _ ⟨⟩
      · refine Plan.shielded_bind ?_ fun value => Plan.shielded_degrade _ _
        exact Plan.shielded_of_propagates (graph.onlyReads_stagePlan _ stage path).propagates

section Induction

variable {vocabulary : Vocabulary} {dirty : NodeId → Prop}

/-- Behaviors that are in force pass on the faults that they meet. -/
theorem Graph.WellFormed.passed {graph : Graph} {permitted : Fault → Prop}
    (formed : graph.WellFormed vocabulary) (passing : vocabulary.Passing permitted) {stat : StatId}
    {stage : Stage} {path : PathId} {transform : Transform}
    (member : transform ∈ graph.transformsFor stat stage path) : transform.Passes permitted := by
  obtain ⟨behavior, within, rfl⟩ := formed.transforms member
  exact passing.behavior behavior within.behavior

theorem Graph.WellFormed.heeded {graph : Graph} (formed : graph.WellFormed vocabulary)
    (propagating : vocabulary.Propagating) {stat : StatId} {stage : Stage} {path : PathId}
    {transform : Transform} (member : transform ∈ graph.transformsFor stat stage path) :
    transform.Propagates := formed.passed propagating.passing member

mutual

/-- No node answers a local fault. -/
theorem Evaluates.plain {node : NodeId} {graph after : Graph} {reply : Reply} :
    Evaluates node graph reply after → Plain reply
  | .absent _ => fun _ same => nomatch same
  | .cached _ _ => fun _ same => nomatch same
  | .circular _ _ => by
      rintro fault ⟨⟩
      rfl
  | .calculated _ _ runs => runs.plain (Graph.planOf_shielded _ _)

/-- The run of a shielded plan ends in no local fault. -/
theorem Runs.plain {plan : Plan (Option Value)} {frame after : Frame} {reply : Reply} :
    Runs plan frame reply after → plan.Shielded → Plain reply
  | .finish, shielded => shielded
  | .note rest, shielded => rest.plain shielded
  | .consult rest, shielded => rest.plain (shielded _)
  | .answered refused rest, shielded => rest.plain (shielded _ (refused_plain refused))
  | .read _ evaluates rest, shielded => rest.plain (shielded _ evaluates.plain)

end

end Induction

/-! ### What calculations uphold -/

/-- A property of graphs that calculations uphold: it outlasts changes that leave nothing dirty,
and the end of a calculation, if a value that is kept at a trusted address is justified. What is
calculated at a trusted address heeds faults. -/
structure Upheld (vocabulary : Vocabulary) (trusted : Address → Prop) (holds : Graph → Prop) :
    Prop where
  heeds : ∀ {graph : Graph} {address : Address}, graph.WellFormed vocabulary → trusted address →
    (graph.planOf address).Propagates Transform.Propagates fun fault => fault.isLocal = false
  alter : ∀ {graph other : Graph} {affected : NodeId → Prop}, graph.WellFormed vocabulary →
    graph.Alters other affected Clean → holds graph → holds other
  leave : ∀ {graph : Graph} {node : NodeId} {reads : List NodeId} {reply : Reply},
    graph.WellFormed vocabulary → graph.known node = none →
      (∀ value address, (graph.leave node reads reply).known node = some value →
        graph.addressOf? node = some address → trusted address →
          (∀ transform ∈ graph.transformsOf address, transform.Propagates) →
            (graph.leave node reads reply).Justified node value ∧
              ∀ producer ∈ reads, ∃ cached, graph.known producer = some cached) →
        holds graph → holds (graph.leave node reads reply)

section Upholding

variable {vocabulary : Vocabulary} {trusted : Address → Prop} {holds : Graph → Prop}

theorem Upheld.step (upheld : Upheld vocabulary trusted holds) {graph other : Graph}
    (formed : graph.WellFormed vocabulary) (steps : Steps vocabulary graph other)
    (before : holds graph) : holds other := by
  obtain ⟨_, alters⟩ := steps.alters
  exact upheld.alter formed alters before

/-- What the run of the plan of a node comes to: the property is upheld, and unless calculations
have been disturbed, a value follows from what is cached in the end. -/
structure RunUpholds (holds : Graph → Prop) (address : Address) (plan : Plan (Option Value))
    (frame after : Frame) (reply : Reply) : Prop where
  holds : holds after.graph
  kept : frame.graph.Disturbed after.graph ∨ frame.graph.Steady after.graph
  yields : plan.Propagates Transform.Propagates (fun fault => fault.isLocal = false) →
    (∀ transform ∈ after.graph.transformsOf address, transform.Propagates) →
      ∀ value, reply = .ok value → frame.graph.Disturbed after.graph ∨
        ∃ reads, plan.Yields after.graph value reads ∧
          ∀ node, node ∈ after.reads ↔ node ∈ frame.reads ∨ node ∈ reads

mutual

/-- A calculation upholds the property, and its value is cached in the end unless the calculations
above it have been disturbed. -/
theorem Evaluates.upholds (upheld : Upheld vocabulary trusted holds) {node : NodeId}
    {graph after : Graph} {reply : Reply} :
    Evaluates node graph reply after → graph.WellFormed vocabulary → graph.Stacked →
      holds graph → (∃ address, graph.addressOf? node = some address) →
        holds after ∧ (graph.Disturbed after ∨ graph.Steady after) ∧
          ∀ value, reply = .ok value → graph.Disturbed after ∨ after.known node = some value
  | .absent missing, _, _, _, existing => by
      obtain ⟨address, found⟩ := existing
      rw [addressOf?, missing] at found
      contradiction
  | .cached found ready, _, _, before, _ => by
      refine ⟨before, Or.inr (.refl graph), ?_⟩
      rintro value ⟨⟩
      exact Or.inr (known_eq_some_iff.mpr ⟨_, found, ready⟩)
  | .circular _ _, _, _, before, _ =>
      ⟨before, Or.inr (.refl graph), fun _ same => nomatch same⟩
  | @Evaluates.calculated _ _ present _ frame found stale runs, formed, stacked, before, _ => by
      have entered := formed.enter node
      have enteredStack := stacked.enter found stale
      have address := addressOf?_enter found
      have asks := planOf_asks entered address
      have inner := runs.upholds upheld entered enteredStack
        (upheld.alter formed (alters_enter found stale) before) address asks
      have advances := runs.advances entered enteredStack (asks.stated entered)
      have unknown : frame.graph.known node = none := unknown_running advances.stacked (by
        rw [advances.evaluating]
        exact List.mem_cons_self)
      rcases leave_cases stacked found stale advances inner.kept with
        ⟨above, dropped⟩ | ⟨calm, undisturbed, kept⟩
      · refine ⟨upheld.leave advances.formed unknown ?_ inner.holds, Or.inl above,
          fun _ _ => Or.inl above⟩
        exact fun value _ known => absurd known (dropped value)
      · -- nothing is lost, so the value is kept and follows from what was read
        refine ⟨upheld.leave advances.formed unknown ?_ inner.holds, Or.inr calm,
          fun value same => Or.inr ((kept value).mpr same)⟩
        intro value own known place trusts heeded
        rw [advances.grows.addressed address] at place
        cases place
        rcases inner.yields (upheld.heeds entered trusts) heeded value ((kept value).mp known) with
          disturbed | ⟨reads, yields, exact'⟩
        · exact absurd disturbed undisturbed
        · have reading (producer : NodeId) : producer ∈ frame.reads ↔ producer ∈ reads := by
            rw [exact']
            simp
          exact ⟨justified_leave formed found advances yields reading,
            fun producer member => yields.known ((reading producer).mp member)⟩

/-- The run of the plan of a node upholds the property. -/
theorem Runs.upholds (upheld : Upheld vocabulary trusted holds) {plan : Plan (Option Value)}
    {frame after : Frame} {reply : Reply} {node : NodeId} {address : Address} :
    Runs plan frame reply after → frame.graph.WellFormed vocabulary → frame.graph.Stacked →
      holds frame.graph → frame.graph.addressOf? node = some address →
        plan.Asks (frame.graph.scopeOf vocabulary address) →
          RunUpholds holds address plan frame after reply
  | .finish, _, _, before, _, _ => by
      refine ⟨before, Or.inr (.refl _), fun _ _ => ?_⟩
      rintro value rfl
      exact Or.inr ⟨[], .finish, by simp⟩
  | @Runs.note entry _ frame _ _ rest, formed, stacked, before, found, asks => by
      have noted := steps_record formed stacked (Record.inward_of_note asks.1)
      have later := rest.upholds upheld noted.advances.formed noted.advances.stacked
        (upheld.step formed noted before) found (Asks.grow noted.advances.grows asks.2)
      have advances := rest.advances noted.advances.formed noted.advances.stacked
        (Plan.Asks.stated formed asks.2)
      refine ⟨later.holds, kept_trans noted.kept later.kept noted.advances advances, ?_⟩
      intro propagates heeded value same
      rcases later.yields propagates heeded value same with disturbed | ⟨reads, yields, exact'⟩
      · exact Or.inl disturbed
      · exact Or.inr ⟨reads, .note yields, exact'⟩
  | @Runs.consult stat stage path resume frame _ after rest, formed, stacked, before, found, asks => by
      have later := rest.upholds upheld formed stacked before found (asks.2 _ formed.transforms_within)
      refine ⟨later.holds, later.kept, ?_⟩
      intro propagates heeded value same
      rcases later.kept with disturbed | steady
      · exact Or.inl disturbed
      · -- the transforms that the plan was given are those in force in the end
        obtain ⟨full, rfl, rfl⟩ := asks.1
        have inForce : after.graph.transformsFor stat stage full.id =
            frame.graph.transformsFor stat stage full.id := steady.transforms node _ found
        have given := propagates (frame.graph.transformsFor stat stage full.id) (by
          rw [← inForce]
          exact heeded)
        rcases later.yields given heeded value same with disturbed | ⟨reads, yields, exact'⟩
        · exact Or.inl disturbed
        · refine Or.inr ⟨reads, .consult ?_, exact'⟩
          rw [inForce]
          exact yields
  | @Runs.answered query resume frame answer grown _ after refused rest, formed, stacked, before,
      found, asks => by
      obtain ⟨same, refusal⟩ := refused_locate refused
      have later := rest.upholds upheld (same ▸ formed) (same ▸ stacked) (same ▸ before)
        (same ▸ found) (same ▸ asks.2 answer)
      subst same
      refine ⟨later.holds, later.kept, ?_⟩
      intro propagates heeded value same
      rcases refusal with ⟨stat, stage, path, rfl, _, rfl⟩ | ⟨modifier, rfl, missing, rfl⟩
      · have ended := runs_fault propagates rfl rest
        rw [ended] at same
        cases same
      · obtain ⟨located, hosted⟩ := formed.enrolled_contributes asks.1
        rw [missing] at hosted
        contradiction
  | @Runs.read query resume frame located grown answer graph _ after here evaluates rest, formed,
      stacked, before, found, asks => by
      have stated := stated_of_scopeOf formed asks.1
      have making := steps_locate formed stacked stated
      have made := upheld.step formed making before
      rw [here] at making made
      have place := located_locate formed stacked stated here
      obtain ⟨innerHolds, innerKept, innerKnown⟩ := evaluates.upholds upheld making.advances.formed
        making.advances.stacked made (making.advances.formed.located_addressed place)
      have evaluated := evaluates.advances making.advances.formed making.advances.stacked
      have innerPlain := evaluates.plain
      have reached := making.advances.trans evaluated
      have restAsks := Asks.grow reached.grows (asks.2 answer)
      have later := rest.upholds upheld evaluated.formed evaluated.stacked innerHolds
        (reached.grows.addressed found) restAsks
      have restAdvances := rest.advances evaluated.formed evaluated.stacked
        (Plan.Asks.stated evaluated.formed restAsks)
      refine ⟨later.holds, kept_trans (kept_trans making.kept innerKept making.advances evaluated)
        later.kept reached restAdvances, ?_⟩
      intro propagates heeded value same
      have ended : Advances vocabulary after.graph after.graph :=
        .refl restAdvances.formed restAdvances.stacked
      cases answer with
      | error fault =>
          have failed := runs_fault propagates (innerPlain fault rfl) rest
          rw [failed] at same
          cases same
      | ok cached =>
          rcases innerKnown cached rfl with disturbed | known
          · exact Or.inl (disturbed.widen making.advances evaluated restAdvances)
          · rcases later.kept with disturbed | steady
            · exact Or.inl (disturbed.widen reached restAdvances ended)
            · rcases later.yields (propagates_resume propagates innerPlain) heeded value same with
                disturbed | ⟨reads, yields, exact'⟩
              · exact Or.inl (disturbed.widen reached restAdvances ended)
              · right
                refine ⟨located :: reads, .read ?_ (steady.known _ _ known) yields, ?_⟩
                · exact restAdvances.grows.located (evaluated.grows.located place)
                · intro other
                  rw [exact', Frame.mem_reads_after, List.mem_cons, or_assoc]

end

end Upholding

/-! ### Calculations keep a graph coherent -/

section Coherence

variable {vocabulary : Vocabulary} {dirty : NodeId → Prop}

theorem Graph.WellFormed.heeded_transforms {graph : Graph} (formed : graph.WellFormed vocabulary)
    (propagating : vocabulary.Propagating) (address : Address) :
    ∀ transform ∈ graph.transformsOf address, transform.Propagates := by
  cases address with
  | contribution modifier => exact fun _ none => nomatch none
  | pipeline stat stage path => exact fun _ member => formed.heeded propagating member

/-- If faults are heeded everywhere, calculations keep a graph coherent. -/
theorem upheld_coherent (propagating : vocabulary.Propagating) :
    Upheld vocabulary (fun _ => True) (Coherent · dirty) where
  heeds := fun formed _ => planOf_propagates propagating formed _
  alter := fun formed alters coherent => alters.clean formed coherent
  leave := by
    intro graph node reads reply formed unknown justify coherent
    refine coherent.leave formed unknown fun value known => ?_
    obtain ⟨present, found, _⟩ := known_eq_some_iff.mp known
    have place : (graph.leave node reads reply).addressOf? node = some present.address := by
      rw [addressOf?, found]
      rfl
    rw [addressOf?_of_shape (shape_leave _ _ _ _)] at place
    exact justify value _ known place trivial (formed.heeded_transforms propagating _)

/-- A calculation keeps a graph coherent, and its value is cached in the end unless the
calculations above it have been disturbed. -/
theorem Evaluates.settles (propagating : vocabulary.Propagating) {node : NodeId}
    {graph after : Graph} {reply : Reply} (evaluates : Evaluates node graph reply after)
    (formed : graph.WellFormed vocabulary) (stacked : graph.Stacked) (coherent : graph.Coherent dirty)
    (existing : ∃ address, graph.addressOf? node = some address) :
    graph.Settles dirty after ∧
      ∀ value, reply = .ok value → graph.Disturbed after ∨ after.known node = some value := by
  obtain ⟨held, kept, known⟩ :=
    evaluates.upholds (upheld_coherent propagating) formed stacked coherent existing
  exact ⟨⟨held, kept⟩, known⟩

/-- What the run of the plan of a node comes to: the graph settles, and unless calculations
have been disturbed, a value follows from what is cached in the end. -/
structure RunSettles (dirty : NodeId → Prop) (plan : Plan (Option Value)) (frame after : Frame)
    (reply : Reply) : Prop where
  settles : frame.graph.Settles dirty after.graph
  yields : ∀ value, reply = .ok value → frame.graph.Disturbed after.graph ∨
    ∃ reads, plan.Yields after.graph value reads ∧
      ∀ node, node ∈ after.reads ↔ node ∈ frame.reads ∨ node ∈ reads

/-- The run of the plan of a node settles. -/
theorem Runs.settles (propagating : vocabulary.Propagating) {plan : Plan (Option Value)}
    {frame after : Frame} {reply : Reply} {node : NodeId} {address : Address}
    (runs : Runs plan frame reply after) (formed : frame.graph.WellFormed vocabulary)
    (stacked : frame.graph.Stacked) (coherent : frame.graph.Coherent dirty)
    (found : frame.graph.addressOf? node = some address)
    (asks : plan.Asks (frame.graph.scopeOf vocabulary address))
    (propagates : plan.Propagates Transform.Propagates fun fault => fault.isLocal = false) :
    RunSettles dirty plan frame after reply := by
  have upholds := runs.upholds (upheld_coherent propagating) formed stacked coherent found asks
  have formed' := (runs.advances formed stacked (asks.stated formed)).formed
  exact ⟨⟨upholds.holds, upholds.kept⟩, upholds.yields propagates
    (formed'.heeded_transforms propagating address)⟩

end Coherence

end CharacterSheet
