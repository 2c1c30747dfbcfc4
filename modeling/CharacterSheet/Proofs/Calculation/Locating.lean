import CharacterSheet.Proofs.Calculation.Growth

/-!
Contract: how requested nodes come into being.

Owns:
- the three steps of making a node: opening a pipeline, putting behaviors in force and
  adding the node of a stage;
- each step keeps a graph well-formed and lets it grow;
- a request that is not refused finds its node.
-/

namespace CharacterSheet

theorem Table.get?_insert {κ α : Type} [DecidableEq κ] (table : Table κ α) (key other : κ)
    (value : α) : (table.insert key value).get? other =
      if other = key then some value else table.get? other := by
  split
  · next same =>
    rw [same]
    exact table.get?_insert_self key value
  · next distinct => exact table.get?_insert_other distinct value

namespace Graph

variable {vocabulary : Vocabulary} {graph : Graph}

/-! ### Opening a pipeline -/

/-- Make the pipeline of a stat, without its behaviors. -/
def openPipeline (graph : Graph) (stat : Stat) : Graph :=
  { graph with pipelines := graph.pipelines.insert stat.id { stat } }

/-- Put the behaviors of a stat in force. -/
def enforce (graph : Graph) (stat : StatId) (behaviors : List Behavior) : Graph :=
  ({ graph with behaviors := graph.behaviors.insert stat behaviors }.record
    (.behaviorsRegistered stat behaviors.length)).invalidateTargets behaviors

theorem ensurePipeline_eq (graph : Graph) (stat : Stat) :
    graph.ensurePipeline stat =
      if graph.pipelines.contains stat.id then graph
      else if stat.behaviors.isEmpty || graph.behaviors.contains stat.id then
        graph.openPipeline stat
      else (graph.openPipeline stat).enforce stat.id stat.behaviors := rfl

theorem advances_openPipeline (formed : graph.WellFormed vocabulary) (stacked : graph.Stacked)
    {stat : Stat} (missing : graph.pipelines.get? stat.id = none) (resolved : stat.isResolved)
    (within : stat.HeadWithin vocabulary) :
    Advances vocabulary graph (graph.openPipeline stat) where
  formed :=
    { numbered := formed.numbered
      listed := by
        intro other pipeline stage path node found listed
        simp only [openPipeline, Table.get?_insert] at found
        split at found
        · cases found
          contradiction
        · exact formed.listed _ _ _ _ _ found listed
      named := by
        intro node other stage path address
        obtain ⟨pipeline, found, listed⟩ := formed.named _ _ _ _ address
        have distinct : other ≠ stat.id := by
          rintro rfl
          rw [missing] at found
          contradiction
        exact ⟨pipeline, by simp only [openPipeline, Table.get?_insert, if_neg distinct, found],
          listed⟩
      addressed := formed.addressed
      contributing := formed.contributing
      contributed := formed.contributed
      present := formed.present
      pipelines := by
        intro other pipeline found
        simp only [openPipeline, Table.get?_insert] at found
        split at found
        · next same =>
          cases found
          refine ⟨same.symm, resolved, within, ?_⟩
          intro form path slot there
          contradiction
        · exact formed.pipelines _ _ found
      behaviors := formed.behaviors
      links := formed.links }
  stacked := ⟨stacked.computing, stacked.distinct, stacked.outdated⟩
  grows :=
    { Grows.refl graph with
      pipelines := by
        intro other pipeline found
        have distinct : other ≠ stat.id := by
          rintro rfl
          rw [missing] at found
          contradiction
        exact ⟨pipeline.nodes,
          by simp only [openPipeline, Table.get?_insert, if_neg distinct, found],
          fun _ _ listed => listed⟩
      opened := by
        intro other pipeline found absent
        simp only [openPipeline, Table.get?_insert] at found
        split at found
        · cases found
          exact ⟨rfl, rfl⟩
        · rw [absent] at found
          contradiction }
  evaluating := rfl
  noted := fun _ _ noted => noted

theorem advances_enforce (formed : graph.WellFormed vocabulary) (stacked : graph.Stacked)
    {stat : StatId} {behaviors : List Behavior}
    (within : BehaviorsWithin vocabulary behaviors) :
    Advances vocabulary graph (graph.enforce stat behaviors) := by
  have inForce : Advances vocabulary graph
      ({ graph with behaviors := graph.behaviors.insert stat behaviors }.record
        (.behaviorsRegistered stat behaviors.length)) :=
    { formed :=
        { formed with
          behaviors := by
            intro other list found
            simp only [record, Table.get?_insert] at found
            split at found
            · cases found
              exact behaviorsWithin_iff.mp within
            · exact formed.behaviors _ _ found }
      stacked := ⟨stacked.computing, stacked.distinct, stacked.outdated⟩
      grows := { Grows.refl graph with announcements := by simp [announcements, record, Record.isAnnouncement] }
      evaluating := rfl
      noted := fun _ _ noted => noted }
  rw [enforce, invalidateTargets_eq]
  exact inForce.trans (.of_fades inForce.formed inForce.stacked (fades_invalidateAll _ _))

theorem advances_ensurePipeline (formed : graph.WellFormed vocabulary) (stacked : graph.Stacked)
    {stat : Stat} (resolved : stat.isResolved) (within : stat.HeadWithin vocabulary) :
    Advances vocabulary graph (graph.ensurePipeline stat) := by
  rw [ensurePipeline_eq]
  split
  · exact .refl formed stacked
  · next absent =>
    have missing : graph.pipelines.get? stat.id = none := by
      simpa [Table.contains] using absent
    have opens := advances_openPipeline formed stacked missing resolved within
    split
    · exact opens
    · exact opens.trans (advances_enforce opens.formed opens.stacked within.behaviors)

theorem pipeline_ensurePipeline (graph : Graph) (stat : Stat) :
    ∃ pipeline, (graph.ensurePipeline stat).pipelines.get? stat.id = some pipeline := by
  rw [ensurePipeline_eq]
  split
  · next present => exact Option.isSome_iff_exists.mp present
  · split
    · exact ⟨_, graph.pipelines.get?_insert_self _ _⟩
    · rw [enforce, show ((Graph.record _ _).invalidateTargets _).pipelines = _ from
        congrArg Shape.pipelines (shape_invalidateTargets _ _)]
      exact ⟨_, graph.pipelines.get?_insert_self _ _⟩

/-! ### Adding a node -/

theorem WellFormed.fresh (formed : graph.WellFormed vocabulary) :
    graph.nodes.get? ⟨graph.nextNode⟩ = none := by
  cases found : graph.nodes.get? ⟨graph.nextNode⟩ with
  | none => rfl
  | some present =>
      have below := formed.numbered ⟨graph.nextNode⟩ present.address (by
        rw [addressOf?, found]
        rfl)
      exact absurd below (Nat.lt_irrefl _)

section AddNode

variable {address full : Address} {node : NodeId} {present : Node}

theorem addressOf?_addNode (graph : Graph) (address : Address) (node : NodeId) :
    (graph.addNode address).2.addressOf? node =
      if node = ⟨graph.nextNode⟩ then some address else graph.addressOf? node := by
  simp only [addNode, addressOf?, Table.get?_insert]
  split <;> rfl

/-- The nodes with an address are the old ones and the new one. -/
theorem addressOf?_addNode_cases (found : (graph.addNode address).2.addressOf? node = some full) :
    (node = ⟨graph.nextNode⟩ ∧ full = address) ∨ graph.addressOf? node = some full := by
  rw [addressOf?_addNode] at found
  split at found
  · next same =>
    cases found
    exact Or.inl ⟨same, rfl⟩
  · exact Or.inr found

/-- Nobody watches a new node. -/
theorem get?_addNode_cases (found : (graph.addNode address).2.nodes.get? node = some present) :
    present.subscribers = [] ∨ graph.nodes.get? node = some present := by
  simp only [addNode, Table.get?_insert] at found
  split at found
  · cases found
    exact Or.inl rfl
  · exact Or.inr found

variable (formed : graph.WellFormed vocabulary) (address)
include formed

theorem get?_addNode (found : graph.nodes.get? node = some present) :
    (graph.addNode address).2.nodes.get? node = some present := by
  refine (Table.get?_insert _ _ _ _).trans ?_
  rw [if_neg]
  · exact found
  · rintro rfl
    rw [formed.fresh] at found
    contradiction

theorem addressed_addNode (found : graph.addressOf? node = some full) :
    (graph.addNode address).2.addressOf? node = some full := by
  obtain ⟨present, there, same⟩ := Option.map_eq_some_iff.mp found
  rw [addressOf?, get?_addNode address formed there, Option.map_some, same]

theorem numbered_addNode (found : (graph.addNode address).2.addressOf? node = some full) :
    node.number < graph.nextNode + 1 := by
  rcases addressOf?_addNode_cases found with ⟨rfl, _⟩ | before
  · exact Nat.lt_succ_self _
  · exact Nat.lt_succ_of_lt (formed.numbered _ _ before)

/-- A new node is of no calculation. -/
theorem Stacked.addNode (stacked : graph.Stacked) : (graph.addNode address).2.Stacked where
  computing := by
    intro node
    show _ ↔ node ∈ graph.evaluating
    rw [← stacked.computing]
    simp only [Graph.addNode, Table.get?_insert]
    split
    · next same =>
      subst same
      simp [formed.fresh]
    · rfl
  distinct := stacked.distinct
  outdated := stacked.outdated

end AddNode

/-! ### Adding the node of a stage -/

theorem pipelines_addStage (graph : Graph) (stat : StatId) (stage : Stage) (path : Path)
    (other : StatId) :
    (graph.addStage stat stage path).2.pipelines.get? other =
      if other = stat then
        (graph.pipelines.get? other).map fun pipeline =>
          { pipeline with nodes := pipeline.nodes.insert (stage, path.id) ⟨graph.nextNode⟩ }
      else graph.pipelines.get? other := by
  simp only [addStage, addNode, modifyPipeline, Table.get?_modify]

section AddStage

variable {stat : StatId} {stage : Stage} {path : Path} {pipeline : Pipeline}

theorem addressed_addStage (formed : graph.WellFormed vocabulary) {node : NodeId} {full : Address}
    (found : graph.addressOf? node = some full) :
    (graph.addStage stat stage path).2.addressOf? node = some full :=
  addressed_addNode (.pipeline stat stage path) formed found

theorem addressOf?_addStage_cases {node : NodeId} {full : Address}
    (found : (graph.addStage stat stage path).2.addressOf? node = some full) :
    (node = ⟨graph.nextNode⟩ ∧ full = .pipeline stat stage path) ∨
      graph.addressOf? node = some full :=
  @addressOf?_addNode_cases graph (.pipeline stat stage path) full node found

theorem Grows.addStage (formed : graph.WellFormed vocabulary)
    (here : graph.pipelines.get? stat = some pipeline)
    (unlisted : pipeline.nodes.get? (stage, path.id) = none) :
    graph.Grows (graph.addStage stat stage path).2 :=
  { Grows.refl graph with
    next := Nat.le_succ _
    nodes := fun _ present found =>
      ⟨present.cache, get?_addNode (.pipeline stat stage path) formed found⟩
    unwatched := by
      intro node present found missing
      rcases get?_addNode_cases found with unwatched | before
      · exact unwatched
      · rw [missing] at before
        contradiction
    pipelines := by
      intro other changed found
      by_cases same : other = stat
      · subst same
        rw [here] at found
        cases found
        refine ⟨_, by rw [pipelines_addStage, if_pos rfl, here]; rfl, ?_⟩
        intro key node listed
        rw [Table.get?_insert, if_neg]
        · exact listed
        · rintro rfl
          rw [unlisted] at listed
          contradiction
      · exact ⟨changed.nodes, by rw [pipelines_addStage, if_neg same]; exact found,
          fun _ _ listed => listed⟩
    opened := by
      intro other changed found missing
      rw [pipelines_addStage] at found
      split at found
      · rw [missing] at found
        contradiction
      · rw [missing] at found
        contradiction }

theorem WellFormed.addStage (formed : graph.WellFormed vocabulary)
    (here : graph.pipelines.get? stat = some pipeline)
    (unlisted : pipeline.nodes.get? (stage, path.id) = none)
    (place : path.id.at stage = path.id) (within : path.Within vocabulary) :
    (graph.addStage stat stage path).2.WellFormed vocabulary where
  numbered := fun _ _ found => numbered_addNode (.pipeline stat stage path) formed found
  listed := by
    intro other changed late route node found listed
    rw [pipelines_addStage] at found
    split at found
    · next same =>
      subst same
      rw [here] at found
      cases found
      simp only [Table.get?_insert] at listed
      split at listed
      · next key =>
        cases listed
        cases key
        exact ⟨path, (graph.addressOf?_addNode _ _).trans (if_pos rfl), rfl, place⟩
      · obtain ⟨full, there, rest⟩ := formed.listed _ _ _ _ _ here listed
        exact ⟨full, addressed_addStage formed there, rest⟩
    · obtain ⟨full, there, rest⟩ := formed.listed _ _ _ _ _ found listed
      exact ⟨full, addressed_addStage formed there, rest⟩
  named := by
    intro node other late route found
    rcases addressOf?_addStage_cases found with ⟨rfl, same⟩ | before
    · cases same
      exact ⟨_, by rw [pipelines_addStage, if_pos rfl, here]; rfl, Table.get?_insert_self _ _ _⟩
    · obtain ⟨changed, there, listed⟩ := formed.named _ _ _ _ before
      obtain ⟨nodes, later, kept⟩ := (Grows.addStage formed here unlisted).pipelines _ _ there
      exact ⟨_, later, kept _ _ listed⟩
  addressed := by
    intro node other late route found
    rcases addressOf?_addStage_cases found with ⟨_, same⟩ | before
    · cases same
      exact within
    · exact formed.addressed _ _ _ _ before
  contributing := fun modifier node found =>
    addressed_addStage formed (formed.contributing modifier node found)
  contributed := by
    intro node modifier found
    rcases addressOf?_addStage_cases found with ⟨_, same⟩ | before
    · contradiction
    · exact formed.contributed node modifier before
  present := formed.present
  pipelines := by
    intro other changed found
    rw [pipelines_addStage] at found
    split at found
    · next same =>
      subst same
      rw [here] at found
      cases found
      have before := formed.pipelines _ _ here
      exact ⟨before.keyed, before.resolved, before.within, before.slots⟩
    · exact formed.pipelines _ _ found
  behaviors := formed.behaviors
  links := formed.links

theorem advances_addStage (formed : graph.WellFormed vocabulary) (stacked : graph.Stacked)
    (here : graph.pipelines.get? stat = some pipeline)
    (unlisted : pipeline.nodes.get? (stage, path.id) = none)
    (place : path.id.at stage = path.id) (within : path.Within vocabulary) :
    Advances vocabulary graph (graph.addStage stat stage path).2 where
  formed := formed.addStage here unlisted place within
  stacked := ⟨(Stacked.addNode (.pipeline stat stage path) formed stacked).computing,
    stacked.distinct, stacked.outdated⟩
  grows := .addStage formed here unlisted
  evaluating := rfl
  noted := fun _ _ noted => noted

end AddStage

/-! ### Finding or making a node -/

/-- Whatever is kept by adding a missing stage is kept by making the stages above. -/
theorem ensureStages_induction {stat : StatId} {path : Path} {motive : Graph → Prop}
    (step : ∀ grown other place, motive grown → place = path ∨ place = .main →
      place.id.at other = place.id → grown.node? stat other place.id = none →
        motive (grown.addStage stat other place).2)
    (stages : List Stage) (grown : Graph) (holds : motive grown) :
    motive (stages.foldl
      (fun grown above => grown.ensureStage stat above (path.at above)) grown) := by
  induction stages generalizing grown with
  | nil => exact holds
  | cons other rest inductionHypothesis =>
      apply inductionHypothesis
      show motive (grown.ensureStage stat other (path.at other))
      unfold ensureStage
      split
      · exact holds
      · next missing =>
        have fits : (path.at other).id.at other = (path.at other).id := by
          rw [PathOf.id_at, PathOf.at_at]
        exact step grown other _ holds (path.at_cases other) fits (by simpa using missing)

/-- Whatever holds once the pipeline is there and is kept by adding missing stages holds
after a node was obtained. -/
theorem obtain_induction {stat : Stat} {path : Path} {motive : Graph → Prop} (stage : Stage)
    (ready : motive (graph.ensurePipeline stat))
    (step : ∀ grown other place, motive grown → place = path ∨ place = .main →
      place.id.at other = place.id → grown.node? stat.id other place.id = none →
        motive (grown.addStage stat.id other place).2) :
    motive (graph.obtain stat stage path).2 := by
  unfold obtain
  dsimp only
  split
  · exact ready
  · next missing =>
    have fits : (path.at stage).id.at stage = (path.at stage).id := by
      rw [PathOf.id_at, PathOf.at_at]
    apply ensureStages_induction
    · intro grown other place holds place' fits missing
      apply step grown other place holds _ fits missing
      rcases place' with rfl | rfl
      · exact path.at_cases stage
      · exact Or.inr rfl
    · exact step _ stage _ ready (path.at_cases stage) fits missing

/-- A missing stage can be added to any graph that has grown out of one with its pipeline. -/
theorem Advances.addStage {grown : Graph} {stat : StatId} {stage : Stage} {path : Path}
    {pipeline : Pipeline} (advances : Advances vocabulary graph grown)
    (opened : graph.pipelines.get? stat = some pipeline) (within : path.Within vocabulary)
    (fits : path.id.at stage = path.id) (missing : grown.node? stat stage path.id = none) :
    Advances vocabulary graph (grown.addStage stat stage path).2 := by
  obtain ⟨_, here, _⟩ := advances.grows.pipelines _ _ opened
  apply advances.trans
  apply advances_addStage advances.formed advances.stacked here _ fits within
  rw [node?, here, fits] at missing
  exact missing

theorem within_of_route {path place : Path} (route : path.Within vocabulary)
    (either : place = path ∨ place = .main) : place.Within vocabulary := by
  rcases either with rfl | rfl
  · exact route
  · exact PathOf.Within.main

theorem advances_obtain (formed : graph.WellFormed vocabulary) (stacked : graph.Stacked)
    {stat : Stat} {stage : Stage} {path : Path} (resolved : stat.isResolved)
    (within : stat.HeadWithin vocabulary) (route : path.Within vocabulary) :
    Advances vocabulary graph (graph.obtain stat stage path).2 := by
  have ready := advances_ensurePipeline formed stacked resolved within
  obtain ⟨pipeline, opened⟩ := graph.pipeline_ensurePipeline stat
  apply ready.trans
  apply obtain_induction stage
  · exact .refl ready.formed ready.stacked
  · intro grown other place advances either fits missing
    exact advances.addStage opened (within_of_route route either) fits missing

theorem node?_addStage {stat : StatId} {stage : Stage} {path : Path} {pipeline : Pipeline}
    (here : graph.pipelines.get? stat = some pipeline) (place : path.id.at stage = path.id) :
    (graph.addStage stat stage path).2.node? stat stage path.id = some ⟨graph.nextNode⟩ := by
  rw [node?, pipelines_addStage, if_pos rfl, here, place]
  exact Table.get?_insert_self _ _ _

theorem node?_at (graph : Graph) (stat : StatId) (stage : Stage) (path : PathId) :
    graph.node? stat stage (path.at stage) = graph.node? stat stage path := by
  rw [node?, node?, PathOf.at_at]

/-- An obtained node is the node of its stage. -/
theorem node?_obtain (formed : graph.WellFormed vocabulary) (stacked : graph.Stacked)
    {stat : Stat} {stage : Stage} {path : Path} (resolved : stat.isResolved)
    (within : stat.HeadWithin vocabulary) (route : path.Within vocabulary) :
    (graph.obtain stat stage path).2.node? stat.id stage path.id =
      some (graph.obtain stat stage path).1 := by
  have ready := advances_ensurePipeline formed stacked resolved within
  obtain ⟨pipeline, opened⟩ := graph.pipeline_ensurePipeline stat
  have fits : (path.at stage).id.at stage = (path.at stage).id := by
    rw [PathOf.id_at, PathOf.at_at]
  unfold obtain
  dsimp only
  split
  · next node found =>
    rw [PathOf.id_at, node?_at] at found
    exact found
  · next missing =>
    have made := node?_addStage opened fits
    have added := (Advances.refl ready.formed ready.stacked).addStage opened (route.at stage)
      fits missing
    obtain ⟨_, kept, _⟩ := added.grows.pipelines _ _ opened
    -- the stages above only let the graph grow
    have grown : Advances vocabulary
        ((graph.ensurePipeline stat).addStage stat.id stage (path.at stage)).2
        (stage.above.foldl
          (fun grown above => grown.ensureStage stat.id above ((path.at stage).at above))
          ((graph.ensurePipeline stat).addStage stat.id stage (path.at stage)).2) := by
      apply ensureStages_induction
      · intro grown other place advances either fits missing
        exact advances.addStage kept (within_of_route (route.at stage) either) fits missing
      · exact .refl added.formed added.stacked
    have found := grown.grows.node? made
    rw [PathOf.id_at, node?_at] at found
    exact found

/-- The stats, paths and transforms that operations and nodes may name. -/
def statedScope (vocabulary : Vocabulary) : Scope where
  query
    | .node stat _ path => stat.HeadWithin vocabulary ∧ path.Within vocabulary
    | .contribution _ => True
  place _ _ _ := True
  transform transform := transform.Within vocabulary

theorem Keeps.within (formed : graph.WellFormed vocabulary) {stat : Stat}
    (kept : graph.Keeps stat) : stat.HeadWithin vocabulary := by
  obtain ⟨pipeline, found, rfl⟩ := kept
  exact (formed.pipelines _ _ found).within

theorem stated_of_scopeOf (formed : graph.WellFormed vocabulary) {address : Address}
    {query : Query} (asked : (graph.scopeOf vocabulary address).query query) :
    (statedScope vocabulary).query query := by
  cases query with
  | node stat stage path =>
      obtain ⟨named, route⟩ := asked
      rcases named with within | kept
      · exact ⟨within.headWithin, route⟩
      · exact ⟨kept.within formed, route⟩
  | contribution modifier => trivial

/-- A request for a stage of a bound stat is answered by the node obtained for it. -/
theorem locate_node (graph : Graph) (stat : Stat) (stage : Stage) (path : Path) :
    graph.locate (.node stat stage path) =
      if stat.isResolved then
        (.ok (graph.obtain stat stage path).1, (graph.obtain stat stage path).2)
      else (.error (.error (.unresolvedReference stat.id)), graph) := by
  unfold locate obtain?
  by_cases resolved : stat.isResolved <;> simp [resolved]

theorem locate_contribution (graph : Graph) (modifier : ModifierId) :
    graph.locate (.contribution modifier) =
      match graph.contributions.get? modifier with
      | none => (.error (.ok none), graph)
      | some node => (.ok node, graph) := rfl

theorem advances_locate (formed : graph.WellFormed vocabulary) (stacked : graph.Stacked)
    {query : Query} (asked : (statedScope vocabulary).query query) :
    Advances vocabulary graph (graph.locate query).2 := by
  cases query with
  | node stat stage path =>
      rw [locate_node]
      split
      · next resolved => exact advances_obtain formed stacked resolved asked.1 asked.2
      · exact .refl formed stacked
  | contribution modifier =>
      rw [locate_contribution]
      split <;> exact .refl formed stacked

theorem located_locate (formed : graph.WellFormed vocabulary) (stacked : graph.Stacked)
    {query : Query} {node : NodeId} {grown : Graph}
    (asked : (statedScope vocabulary).query query)
    (found : graph.locate query = (.ok node, grown)) : grown.located query = some node := by
  cases query with
  | node stat stage path =>
      rw [locate_node] at found
      split at found
      · next resolved =>
        cases found
        simp only [located, resolved, ↓reduceIte]
        exact node?_obtain formed stacked resolved asked.1 asked.2
      · cases found
  | contribution modifier =>
      rw [locate_contribution] at found
      split at found
      · cases found
      · next present =>
        cases found
        exact present

/-- A request is refused if its stat is not bound, and a modifier without a node is
answered at once; in both cases nothing changes. -/
theorem refused_locate {query : Query} {reply : Reply} {same : Graph}
    (refused : graph.locate query = (.error reply, same)) :
    same = graph ∧ ((∃ stat stage path, query = .node stat stage path ∧ stat.isResolved = false ∧
      reply = .error (.unresolvedReference stat.id)) ∨
        ∃ modifier, query = .contribution modifier ∧ graph.contributions.get? modifier = none ∧
          reply = .ok none) := by
  cases query with
  | node stat stage path =>
      rw [locate_node] at refused
      split at refused
      · cases refused
      · next unresolved =>
        cases refused
        exact ⟨rfl, Or.inl ⟨stat, stage, path, rfl, by simpa using unresolved, rfl⟩⟩
  | contribution modifier =>
      rw [locate_contribution] at refused
      split at refused
      · next missing =>
        cases refused
        exact ⟨rfl, Or.inr ⟨modifier, rfl, missing, rfl⟩⟩
      · cases refused

end Graph
end CharacterSheet
