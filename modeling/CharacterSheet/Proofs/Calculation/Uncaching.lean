import CharacterSheet.Proofs.Total.Contents

/-!
Contract: reads do without cached values.

Owns:
- graphs of one shape, on which every request is answered alike;
- twins: graphs of one shape with right values, whichever of them are cached;
- a calculation on one twin has the same reply as on the other, faults included, and leaves twins;
- so a read replies the same on a graph without its cached values.

One twin may find a value where the other calculates. What it finds rests on cached values all the
way down, so the other makes no node that the first one lacks, and the two stay of one shape.
-/

namespace CharacterSheet
namespace Graph

variable {vocabulary : Vocabulary} {graph middle other : Graph}

/-! ### Requests on graphs of one shape -/

section Shape

variable (same : other.shape = graph.shape)
include same

theorem shape_openPipeline_congr (stat : Stat) :
    (other.openPipeline stat).shape = (graph.openPipeline stat).shape := by
  have opened (any : Graph) : (any.openPipeline stat).shape =
      { any.shape with pipelines := any.shape.pipelines.insert stat.id { stat } } := rfl
  rw [opened, opened, same]

theorem shape_ensurePipeline_congr (stat : Stat) :
    (other.ensurePipeline stat).shape = (graph.ensurePipeline stat).shape := by
  have pipelines : other.pipelines = graph.pipelines := congrArg Shape.pipelines same
  have behaviors : other.behaviors = graph.behaviors := congrArg Shape.behaviors same
  have enforced (any : Graph) : (any.enforce stat.id stat.behaviors).shape =
      { any.shape with behaviors := any.shape.behaviors.insert stat.id stat.behaviors } :=
    shape_invalidateTargets _ _
  rw [ensurePipeline_eq, ensurePipeline_eq, pipelines, behaviors]
  split
  · exact same
  · split
    · exact shape_openPipeline_congr same stat
    · rw [enforced, enforced, shape_openPipeline_congr same stat]

theorem shape_addStage_congr (stat : StatId) (stage : Stage) (path : Path) :
    (other.addStage stat stage path).1 = (graph.addStage stat stage path).1 ∧
      (other.addStage stat stage path).2.shape = (graph.addStage stat stage path).2.shape := by
  have added (any : Graph) : (any.addStage stat stage path).2.shape =
      { any.shape with
        address? := fun node => if node = ⟨any.shape.nextNode⟩
          then some (.pipeline stat stage path) else any.shape.address? node
        nextNode := any.shape.nextNode + 1
        pipelines := any.shape.pipelines.modify stat fun pipeline =>
          { pipeline with nodes := pipeline.nodes.insert (stage, path.id) ⟨any.shape.nextNode⟩ } } := by
    have address : (any.addStage stat stage path).2.addressOf? = fun node =>
        if node = ⟨any.shape.nextNode⟩ then some (.pipeline stat stage path)
        else any.shape.address? node :=
      funext (any.addressOf?_addNode (.pipeline stat stage path))
    rw [Graph.shape, address]
    rfl
  refine ⟨congrArg (fun shape : Shape => NodeId.mk shape.nextNode) same, ?_⟩
  rw [added, added, same]

theorem shape_obtain_congr (stat : Stat) (stage : Stage) (path : Path) :
    (other.obtain stat stage path).1 = (graph.obtain stat stage path).1 ∧
      (other.obtain stat stage path).2.shape = (graph.obtain stat stage path).2.shape := by
  have above (stages : List Stage) {other graph : Graph} (same : other.shape = graph.shape) :
      (stages.foldl (fun grown above => grown.ensureStage stat.id above ((path.at stage).at above))
        other).shape = (stages.foldl (fun grown above =>
          grown.ensureStage stat.id above ((path.at stage).at above)) graph).shape := by
    induction stages generalizing other graph with
    | nil => exact same
    | cons above rest inductionHypothesis =>
        refine inductionHypothesis ?_
        show (other.ensureStage _ _ _).shape = (graph.ensureStage _ _ _).shape
        unfold ensureStage
        rw [node?_of_shape same]
        split
        · exact same
        · exact (shape_addStage_congr same _ _ _).2
  have ready := shape_ensurePipeline_congr same stat
  rw [obtain, obtain]
  dsimp only
  rw [node?_of_shape ready]
  split
  · exact ⟨rfl, ready⟩
  · obtain ⟨node, added⟩ := shape_addStage_congr ready stat.id stage (path.at stage)
    exact ⟨node, above stage.above added⟩

/-- A request leads to the same node, or is refused in the same way, and makes the same nodes. -/
theorem shape_locate_congr (query : Query) :
    (other.locate query).1 = (graph.locate query).1 ∧
      (other.locate query).2.shape = (graph.locate query).2.shape := by
  cases query with
  | node stat stage path =>
      rw [locate_node, locate_node]
      split
      · obtain ⟨node, grown⟩ := shape_obtain_congr same stat stage path
        exact ⟨congrArg Except.ok node, grown⟩
      · exact ⟨rfl, same⟩
  | contribution modifier =>
      have contributions : other.contributions = graph.contributions :=
        congrArg Shape.contributions same
      rw [locate_contribution, locate_contribution, contributions]
      split <;> exact ⟨rfl, same⟩

theorem transformsFor_of_shape (stat : StatId) (stage : Stage) (path : PathId) :
    other.transformsFor stat stage path = graph.transformsFor stat stage path := by
  rw [transformsFor, transformsFor, show other.behaviors = graph.behaviors from
    congrArg Shape.behaviors same]

end Shape

/-! ### Twins -/

/-- Graphs of one shape with right values, whichever of them are cached. -/
structure Twins (vocabulary : Vocabulary) (graph other : Graph) : Prop where
  shape : other.shape = graph.shape
  formed : graph.WellFormed vocabulary
  stacked : graph.Stacked
  otherStacked : other.Stacked
  coherent : graph.Coherent Clean
  otherCoherent : other.Coherent Clean

namespace Twins

theorem symm (twins : Twins vocabulary graph other) : Twins vocabulary other graph where
  shape := twins.shape.symm
  formed := twins.formed.of_shape twins.shape
  stacked := twins.otherStacked
  otherStacked := twins.stacked
  coherent := twins.otherCoherent
  otherCoherent := twins.coherent

end Twins

/-- What a plan yields on two graphs of one shape is the same if they agree on what it reads. -/
theorem yields_agree (same : other.shape = graph.shape) {plan : Plan (Option Value)}
    {value again : Option Value} {reads others : List NodeId} (yields : plan.Yields graph value reads)
    (agree : ∀ producer ∈ reads, ∀ cached there, graph.known producer = some cached →
      other.known producer = some there → there = cached)
    (yieldsAgain : plan.Yields other again others) : again = value := by
  induction yields generalizing others with
  | finish =>
      cases yieldsAgain
      rfl
  | note _ inductionHypothesis =>
      cases yieldsAgain with
      | note rest => exact inductionHypothesis agree rest
  | consult _ inductionHypothesis =>
      cases yieldsAgain with
      | consult rest =>
        rw [transformsFor_of_shape same] at rest
        exact inductionHypothesis agree rest
  | @read query resume node cached value reads found known _ inductionHypothesis =>
      cases yieldsAgain with
      | read foundAgain knownAgain rest =>
        rw [located_of_shape same, found] at foundAgain
        cases foundAgain
        cases agree node List.mem_cons_self cached _ known knownAgain
        exact inductionHypothesis (fun producer member =>
          agree producer (List.mem_cons_of_mem node member)) rest

/-- Twins agree on what both have cached. -/
theorem Twins.agree (twins : Twins vocabulary graph other) {node : NodeId}
    (grounded : graph.Grounded node) : ∀ {value again : Option Value},
      graph.known node = some value → other.known node = some again → again = value := by
  induction grounded with
  | @intro node _ _ _ inductionHypothesis =>
    intro value again known knownAgain
    obtain ⟨address, reads, place, yields, fed⟩ := twins.coherent.justified node value known id
    obtain ⟨address', others, place', yieldsAgain, _⟩ :=
      twins.otherCoherent.justified node again knownAgain id
    rw [addressOf?_of_shape twins.shape, place] at place'
    cases place'
    rw [planOf_of_shape twins.shape] at yieldsAgain
    exact yields_agree twins.shape yields (fun producer member cached there held heldThere =>
      inductionHypothesis producer ((fed producer).mp member) held heldThere) yieldsAgain

/-! ### Steps of twins -/

theorem Twins.record (twins : Twins vocabulary graph other) {entry : Record}
    (inward : entry.isAnnouncement = false) :
    Twins vocabulary (graph.record entry) (other.record entry) := by
  have noted := proceeds_record twins.formed twins.stacked twins.coherent inward
  have otherNoted := proceeds_record twins.symm.formed twins.otherStacked twins.otherCoherent inward
  exact ⟨twins.shape, noted.advances.formed, noted.advances.stacked, otherNoted.advances.stacked,
    noted.settles.coherent, otherNoted.settles.coherent⟩

theorem Twins.locate (twins : Twins vocabulary graph other) {query : Query}
    (asked : (statedScope vocabulary).query query) :
    Twins vocabulary (graph.locate query).2 (other.locate query).2 := by
  have located := proceeds_locate twins.formed twins.stacked twins.coherent asked
  have otherLocated := proceeds_locate twins.symm.formed twins.otherStacked twins.otherCoherent asked
  exact ⟨(shape_locate_congr twins.shape query).2, located.advances.formed, located.advances.stacked,
    otherLocated.advances.stacked, located.settles.coherent, otherLocated.settles.coherent⟩

theorem Twins.enterOther (twins : Twins vocabulary graph other) {node : NodeId} {present : Node}
    (found : other.nodes.get? node = some present) (stale : present.cache = .stale) :
    Twins vocabulary graph (other.enter node) where
  shape := (shape_enter other node).trans twins.shape
  formed := twins.formed
  stacked := twins.stacked
  otherStacked := twins.otherStacked.enter found stale
  coherent := twins.coherent
  otherCoherent := (proceeds_enter twins.symm.formed twins.otherCoherent found stale).1

/-- After a calculation on one of the twins that leaves its shape as it was they are twins still. -/
theorem Twins.evaluateOther (propagating : vocabulary.Propagating)
    (twins : Twins vocabulary graph other) {node : NodeId} {reply : Reply} {after : Graph}
    (existing : ∃ address, other.addressOf? node = some address)
    (evaluates : Evaluates node other reply after) (same : after.shape = other.shape) :
    Twins vocabulary graph after where
  shape := same.trans twins.shape
  formed := twins.formed
  stacked := twins.stacked
  otherStacked := (evaluates.advances twins.symm.formed twins.otherStacked).stacked
  coherent := twins.coherent
  otherCoherent := (evaluates.settles propagating twins.symm.formed twins.otherStacked
    twins.otherCoherent existing).1.coherent

/-! ### What one twin has cached, the other calculates -/

/-- A plan that yields a value on one twin comes to it on the other, if what it reads does. -/
theorem runs_of_yields {plan : Plan (Option Value)} {value : Option Value} {reads : List NodeId}
    (yields : plan.Yields graph value reads) {frame after : Frame} {reply : Reply}
    (twins : Twins vocabulary graph frame.graph) (asks : plan.Asks (statedScope vocabulary))
    (comes : ∀ producer ∈ reads, ∀ cached, graph.known producer = some cached →
      ∀ (other again : Graph) (answer : Reply), Twins vocabulary graph other →
        other.evaluating = frame.graph.evaluating → Evaluates producer other answer again →
          answer = .ok cached ∧ Twins vocabulary graph again)
    (runs : Runs plan frame reply after) :
    reply = .ok value ∧ Twins vocabulary graph after.graph := by
  induction yields generalizing frame with
  | finish =>
      cases runs
      exact ⟨rfl, twins⟩
  | @note entry _ _ _ _ inductionHypothesis =>
      cases runs with
      | note rest =>
        have noted := proceeds_record twins.symm.formed twins.otherStacked twins.otherCoherent
          (Record.inward_of_note asks.1)
        have later : Twins vocabulary graph (frame.graph.record entry) :=
          ⟨twins.shape, twins.formed, twins.stacked, noted.advances.stacked, twins.coherent,
            noted.settles.coherent⟩
        exact @inductionHypothesis { frame with graph := frame.graph.record entry } later asks.2
          comes rest
  | consult _ inductionHypothesis =>
      cases runs with
      | consult rest =>
        rw [transformsFor_of_shape twins.shape] at rest
        exact inductionHypothesis twins (asks.2 _ twins.formed.transforms_within) comes rest
  | @read query resume node cached value reads found known _ inductionHypothesis =>
      have place : frame.graph.located query = some node :=
        (congrFun (located_of_shape twins.shape) query).trans found
      cases runs with
      | answered refused =>
        rw [locate_of_located place] at refused
        cases refused
      | read located evaluates rest =>
        rw [locate_of_located place] at located
        cases located
        obtain ⟨rfl, later⟩ :=
          comes node List.mem_cons_self cached known _ _ _ twins rfl evaluates
        have evaluating := (evaluates.advances twins.symm.formed twins.otherStacked).evaluating
        exact inductionHypothesis later (asks.2 _)
          (fun producer member cached held other again answer twins same =>
            comes producer (List.mem_cons_of_mem node member) cached held other again answer twins
              (same.trans evaluating)) rest

/-- What one twin has cached, the other has cached too, or it calculates the same. -/
theorem Grounded.evaluates (propagating : vocabulary.Propagating) {node : NodeId}
    (grounded : graph.Grounded node) : ∀ {value : Option Value} {other after : Graph} {reply : Reply},
      graph.known node = some value → Twins vocabulary graph other →
        (∀ lower, Relation.ReflTransGen graph.Feeds lower node → lower ∉ other.evaluating) →
          Evaluates node other reply after → reply = .ok value ∧ Twins vocabulary graph after := by
  have itself := grounded
  induction grounded with
  | @intro node _ _ producers inductionHypothesis =>
    intro value other after reply known twins apart evaluates
    obtain ⟨address, reads, place, yields, fed⟩ := twins.coherent.justified node value known id
    have there : other.addressOf? node = some address := by
      rw [addressOf?_of_shape twins.shape]
      exact place
    cases evaluates with
    | absent missing =>
        rw [addressOf?, missing] at there
        contradiction
    | cached found ready =>
        have held := known_eq_some_iff.mpr ⟨_, found, ready⟩
        exact ⟨congrArg Except.ok (twins.agree itself known held), twins⟩
    | circular found computing =>
        exact absurd ((twins.otherStacked.computing node).mp ⟨_, found, computing⟩) (apart node .refl)
    | @calculated _ _ present _ frame found stale runs =>
        have inside := twins.enterOther found stale
        have entered : present.address = address := by
          rw [addressOf?, found] at there
          exact Option.some.inj there
        have same : (other.enter node).planOf present.address = graph.planOf address := by
          rw [entered, planOf_of_shape inside.shape]
        rw [same] at runs
        have asks := (planOf_asks twins.formed place).stated twins.formed
        -- nothing below the node is being calculated, and it does not rest on itself
        have below (producer : NodeId) (feeds : graph.Feeds producer node) (lower : NodeId)
            (reaches : Relation.ReflTransGen graph.Feeds lower producer) :
            lower ∉ (other.enter node).evaluating := by
          have deeper : Relation.TransGen graph.Feeds lower node := .tail' reaches feeds
          intro member
          rcases List.mem_cons.mp member with rfl | running
          · exact itself.irreflexive deeper
          · exact apart lower deeper.to_reflTransGen running
        have comes : ∀ producer ∈ reads, ∀ cached, graph.known producer = some cached →
            ∀ (later again : Graph) (answer : Reply), Twins vocabulary graph later →
              later.evaluating = (other.enter node).evaluating →
                Evaluates producer later answer again →
                  answer = .ok cached ∧ Twins vocabulary graph again := by
          intro producer member cached held later again answer twins evaluating evaluates
          have feeds := (fed producer).mp member
          exact inductionHypothesis producer feeds (itself.producer feeds) held twins
            (fun lower reaches => evaluating ▸ below producer feeds lower reaches) evaluates
        obtain ⟨rfl, later⟩ := runs_of_yields yields inside asks comes runs
        refine ⟨rfl, twins.evaluateOther propagating ⟨address, there⟩
          (.calculated found stale (by rw [same]; exact runs)) ?_⟩
        rw [shape_leave, later.shape, twins.shape]

/-- Nothing that a grounded value rests on is being calculated. -/
theorem Grounded.apart (stacked : graph.Stacked) {node : NodeId} (grounded : graph.Grounded node)
    {lower : NodeId} (reaches : Relation.ReflTransGen graph.Feeds lower node) :
    lower ∉ graph.evaluating := by
  intro running
  have settled : graph.Grounded lower := by
    rcases Relation.reflTransGen_iff_eq_or_transGen.mp reaches with rfl | below
    · exact grounded
    · exact grounded.beneath below
  obtain ⟨value, known⟩ := settled.known
  exact stacked.not_known running known

end Graph

open CharacterSheet.Graph

/-! ### Calculations on twins -/

section Induction

variable {vocabulary : Vocabulary}

mutual

/-- Calculations of one node on twins have the same reply and leave twins. -/
theorem Evaluates.twins (propagating : vocabulary.Propagating) {node : NodeId}
    {graph after : Graph} {reply : Reply} :
    Evaluates node graph reply after → ∀ (other again : Graph) (answer : Reply),
      Twins vocabulary graph other → other.evaluating = graph.evaluating →
        (∃ address, graph.addressOf? node = some address) → Evaluates node other answer again →
          reply = answer ∧ Twins vocabulary after again
  | .absent missing, _, _, _, _, _, existing, _ => by
      obtain ⟨address, found⟩ := existing
      rw [addressOf?, missing] at found
      contradiction
  | @Evaluates.cached _ _ present value found ready, _, _, _, twins, same, _, evaluates => by
      have known := known_eq_some_iff.mpr ⟨present, found, ready⟩
      have grounded := twins.coherent.grounded node value known
      obtain ⟨again, later⟩ := grounded.evaluates propagating known twins
        (fun lower reaches => same ▸ grounded.apart twins.stacked reaches) evaluates
      exact ⟨again.symm, later⟩
  | .circular found computing, _, _, _, twins, same, _, evaluates => by
      have running := (twins.stacked.computing node).mp ⟨_, found, computing⟩
      obtain ⟨rfl, rfl⟩ := evaluates_running twins.otherStacked (same ▸ running) evaluates
      exact ⟨congrArg Except.error (cycleFault_of_shape twins.shape same node).symm, twins⟩
  | @Evaluates.calculated _ _ present _ frame found stale runs, other, _, _, twins, same, existing,
      evaluates => by
      have whole := Evaluates.calculated found stale runs
      have place : graph.addressOf? node = some present.address := by
        rw [addressOf?, found]
        rfl
      have there : other.addressOf? node = some present.address :=
        (congrFun (addressOf?_of_shape twins.shape) node).trans place
      cases evaluates with
      | absent missing =>
          rw [addressOf?, missing] at there
          contradiction
      | cached here ready =>
          have known := known_eq_some_iff.mpr ⟨_, here, ready⟩
          have grounded := twins.otherCoherent.grounded node _ known
          obtain ⟨again, later⟩ := grounded.evaluates propagating known twins.symm
            (fun lower reaches => same ▸ grounded.apart twins.otherStacked reaches) whole
          exact ⟨again, later.symm⟩
      | circular here computing =>
          have running := (twins.otherStacked.computing node).mp ⟨_, here, computing⟩
          exact absurd (same ▸ running) (not_mem_evaluating twins.stacked found stale)
      | @calculated _ _ present' _ frame' here stale' runsAgain =>
          have begun : Twins vocabulary (graph.enter node) (other.enter node) :=
            (twins.enterOther here stale').symm.enterOther found stale |>.symm
          have address : (graph.enter node).addressOf? node = some present.address := by
            rw [addressOf?_of_shape (shape_enter graph node)]
            exact place
          have plan : (other.enter node).planOf present'.address =
              (graph.enter node).planOf present.address := by
            have equal : present'.address = present.address := by
              rw [addressOf?, here] at there
              exact Option.some.inj there
            rw [equal, planOf_of_shape begun.shape]
          have asks := (planOf_asks begun.formed address).stated begun.formed
          have wholeAgain := Evaluates.calculated here stale' runsAgain
          rw [plan] at runsAgain
          obtain ⟨rfl, later⟩ := runs.twins propagating { graph := other.enter node } _ _ begun
            (congrArg (node :: ·) same) asks runsAgain
          have left := whole.advances twins.formed twins.stacked
          exact ⟨rfl,
            { shape := by rw [shape_leave, shape_leave, later.shape]
              formed := left.formed
              stacked := left.stacked
              otherStacked := (wholeAgain.advances twins.symm.formed twins.otherStacked).stacked
              coherent := (whole.settles propagating twins.formed twins.stacked twins.coherent
                existing).1.coherent
              otherCoherent := (wholeAgain.settles propagating twins.symm.formed twins.otherStacked
                twins.otherCoherent ⟨_, there⟩).1.coherent }⟩

/-- Runs of one plan on twins have the same reply and leave twins. -/
theorem Runs.twins (propagating : vocabulary.Propagating) {plan : Plan (Option Value)}
    {frame after : Frame} {reply : Reply} :
    Runs plan frame reply after → ∀ (again last : Frame) (answer : Reply),
      Twins vocabulary frame.graph again.graph → again.graph.evaluating = frame.graph.evaluating →
        plan.Asks (statedScope vocabulary) → Runs plan again answer last →
          reply = answer ∧ Twins vocabulary after.graph last.graph
  | .finish, _, _, _, twins, _, _, runs => by
      cases runs
      exact ⟨rfl, twins⟩
  | @Runs.note entry _ _ _ _ rest, again, _, _, twins, same, asks, runs => by
      cases runs with
      | note restAgain =>
        exact rest.twins propagating { again with graph := again.graph.record entry } _ _
          (twins.record (Record.inward_of_note asks.1)) same asks.2 restAgain
  | @Runs.consult stat stage path resume frame _ after rest, _, _, _, twins, same, asks, runs => by
      cases runs with
      | consult restAgain =>
        rw [transformsFor_of_shape twins.shape] at restAgain
        exact rest.twins propagating _ _ _ twins same (asks.2 _ twins.formed.transforms_within)
          restAgain
  | @Runs.answered query _ _ _ _ _ _ refused rest, again, _, _, twins, same, asks, runs => by
      have alike := (shape_locate_congr twins.shape query).1.symm
      have located := twins.locate asks.1
      have advances := advances_locate twins.formed twins.stacked asks.1
      have otherAdvances := advances_locate twins.symm.formed twins.otherStacked asks.1
      cases runs with
      | answered refusedAgain restAgain =>
          rw [refused, refusedAgain] at alike located
          rw [refused] at advances
          rw [refusedAgain] at otherAdvances
          cases alike
          exact rest.twins propagating { again with graph := _ } _ _ located
            (otherAdvances.evaluating.trans (same.trans advances.evaluating.symm)) (asks.2 _) restAgain
      | read found =>
          rw [refused, found] at alike
          cases alike
  | @Runs.read query _ _ node _ _ _ _ _ found evaluates rest, again, _, _, twins, same, asks, runs => by
      have alike := (shape_locate_congr twins.shape query).1.symm
      have located := twins.locate asks.1
      have advances := advances_locate twins.formed twins.stacked asks.1
      have otherAdvances := advances_locate twins.symm.formed twins.otherStacked asks.1
      have place := located_locate twins.formed twins.stacked asks.1 found
      cases runs with
      | answered refusedAgain =>
          rw [found, refusedAgain] at alike
          cases alike
      | read foundAgain evaluatesAgain restAgain =>
          rw [found, foundAgain] at alike located
          rw [found] at advances
          rw [foundAgain] at otherAdvances
          cases alike
          have level := otherAdvances.evaluating.trans (same.trans advances.evaluating.symm)
          obtain ⟨rfl, later⟩ := evaluates.twins propagating _ _ _ located level
            (located.formed.located_addressed place) evaluatesAgain
          have further := evaluates.advances located.formed located.stacked
          have otherFurther := evaluatesAgain.advances located.symm.formed located.otherStacked
          exact rest.twins propagating (again.after node _) _ _ later
            (otherFurther.evaluating.trans (level.trans further.evaluating.symm)) (asks.2 _) restAgain

end

end Induction

/-! ### Reads without cached values -/

namespace Graph

variable {vocabulary : Vocabulary} {graph : Graph}

/-- The graph with no value cached. -/
def uncached (graph : Graph) : Graph :=
  { graph with
    nodes := graph.nodes.modifyWhere (fun _ => true) fun node =>
      { node with cache := node.cache.invalidate } }

theorem get?_uncached (graph : Graph) (node : NodeId) :
    graph.uncached.nodes.get? node =
      (graph.nodes.get? node).map fun present => { present with cache := present.cache.invalidate } :=
  graph.nodes.get?_modifyWhere (fun _ => true) _ node

theorem known_uncached (graph : Graph) (node : NodeId) : graph.uncached.known node = none := by
  rw [known, get?_uncached]
  cases graph.nodes.get? node with
  | none => rfl
  | some present => exact present.cache.value?_invalidate

theorem shape_uncached (graph : Graph) : graph.uncached.shape = graph.shape := by
  have address : graph.uncached.addressOf? = graph.addressOf? :=
    funext (graph.addressOf?_modifyWhere (fun _ => true) _ fun _ => rfl)
  rw [shape, address]
  rfl

theorem resting_uncached (resting : graph.Resting vocabulary) : graph.uncached.Resting vocabulary where
  formed := resting.formed.of_shape graph.shape_uncached
  idle := resting.idle
  stacked :=
    { computing := fun node => by
        rw [show graph.uncached.evaluating = graph.evaluating from rfl, ← resting.stacked.computing,
          get?_uncached]
        cases graph.nodes.get? node with
        | none => simp
        | some present => cases cache : present.cache <;> simp [Cache.invalidate, cache]
      distinct := resting.stacked.distinct
      outdated := resting.stacked.outdated }

theorem twins_uncached (resting : graph.Resting vocabulary) (coherent : graph.Coherent Clean) :
    Twins vocabulary graph graph.uncached where
  shape := graph.shape_uncached
  formed := resting.formed
  stacked := resting.stacked
  otherStacked := (resting_uncached resting).stacked
  coherent := coherent
  otherCoherent := .of_unknown graph.known_uncached

end Graph

/-- Whatever reliable operations came before, links that came or went among them: a read replies
the same, fault or value, as if no value were cached. -/
theorem reads_do_without_caches (settings : Settings) (retention : Retention)
    (operations : List Operation) (within : ∀ operation ∈ operations, operation.Within .reliable)
    (stat : Stat) (stage : Stage) (path : Path) (named : stat.HeadWithin .reliable)
    (route : path.Within .reliable) :
    let sheet := Sheet.run { settings, retention } operations
    ((sheet.withGraph sheet.graph.uncached).value stat stage path).1 =
      (sheet.value stat stage path).1 := by
  intro sheet
  have intact : sheet.graph.Intact .reliable :=
    (Sheet.reachable_run (.new settings retention) within).intact Vocabulary.closed_reliable
  have coherent : sheet.graph.Coherent Clean :=
    intact.clean Vocabulary.faithful_reliable Vocabulary.flat_reliable
  have asks : (Plan.read stat stage path).Asks (statedScope .reliable) := Plan.asks_read ⟨named, route⟩
  obtain ⟨_, runs⟩ := runs_perform intact.toResting asks
  obtain ⟨_, runsAgain⟩ := runs_perform (resting_uncached intact.toResting) asks
  exact (runs.twins Vocabulary.faithful_reliable.propagating { graph := sheet.graph.uncached } _ _
    (twins_uncached intact.toResting coherent) rfl asks runsAgain).1.symm

section Smithy

variable {formula : Formula → Prop} {behavior : Behavior → Prop} {route : Path → Prop}
  {main : route .main}

theorem conversion_within_bounding (source target : String) :
    (Stat.conversion (.named source) (.named target)).Within (.bounding formula behavior route main) :=
  ⟨trivial, ⟨named_within_bounding source, named_within_bounding target⟩, trivial, trivial, trivial⟩

theorem constant_within_bounding {stat : Stat} (id : ModifierId) (amount : Number)
    (within : stat.Within (.bounding formula behavior route main))
    (heeded : ∀ value, formula (.constant value)) :
    (Modifier.baseAdd id stat amount).Within (.bounding formula behavior route main) where
  stats := by
    rintro other (_ | ⟨_, ⟨⟩⟩)
    exact within.headWithin
  value := ⟨heeded _, trivial⟩
  condition := fun _ none => nomatch none

end Smithy

theorem constant_propagates (value : Option Value) : (Formula.constant value).Propagates :=
  Formula.propagates_of_heeds _ rfl

/-- What comes from iron is asked for on a path, before any iron becomes steel. -/
def askingForIron (route : Path) : List Operation :=
  [.add (.baseAdd ⟨1⟩ (.named "Iron") 10), .value (.named "Steel") .base route]

/-- The conversion of iron into steel. -/
def smeltingIron : Modifier := .conversion ⟨2⟩ (.named "Iron") (.named "Steel") 50

/-- On the path for what comes from iron, half of it is there after the conversion was added. -/
theorem smelted_iron_shows :
    let route : Path := .convertedFrom (.named "Iron")
    let sheet := Sheet.run {} (askingForIron route ++ [.add smeltingIron])
    ((sheet.withGraph sheet.graph.uncached).value (.named "Steel") .base route).1 =
        (sheet.value (.named "Steel") .base route).1 ∧
      (sheet.value (.named "Steel") .base route).1 = .ok (some (.scalar 5)) := by
  intro route sheet
  have open' : route.Within .reliable := ⟨fun _ => rfl, named_within_bounding _, trivial⟩
  refine ⟨reads_do_without_caches {} {} _ ?_ _ _ _ (named_within_bounding _).headWithin open', ?_⟩
  · rintro operation (_ | ⟨_, _ | ⟨_, _ | ⟨_, ⟨⟩⟩⟩⟩)
    · exact constant_within_bounding _ _ (named_within_bounding _) constant_propagates
    · exact ⟨(named_within_bounding _).headWithin, open'⟩
    · exact constant_within_bounding _ _ (conversion_within_bounding _ _) constant_propagates
  · decide +kernel

/-- A path for what comes from iron that belongs to an item does not hear of the conversion. -/
theorem smelted_iron_missed : ¬ ∀ settings retention operations last source target route,
    settings.sweepAfterBatch = false →
      ((∃ modifier, last = Operation.add modifier) ∨ ∃ id, last = .remove id) →
        let vocabulary := Vocabulary.bounding Formula.Propagates (fun _ => False) (fun _ => True) trivial
        (∀ operation ∈ operations ++ [last], operation.Within vocabulary) →
          target.HeadWithin vocabulary → route.Within vocabulary → route.conversions = [source] →
            let before := Sheet.run { settings, retention } operations
            let sheet := before.apply last
            sheet.graph.links.targets source.id ≠ before.graph.links.targets source.id →
              ((sheet.withGraph sheet.graph.uncached).value target .base route).1 =
                (sheet.value target .base route).1 := by
  intro same
  let route : Path := ⟨.item "Smithy", [.named "Iron"]⟩
  have again := same { sweepAfterBatch := false } {} (askingForIron route) (.add smeltingIron)
    (.named "Iron") (.named "Steel") route rfl (.inl ⟨_, rfl⟩)
    (by
      rintro operation (_ | ⟨_, _ | ⟨_, _ | ⟨_, ⟨⟩⟩⟩⟩)
      · exact constant_within_bounding _ _ (named_within_bounding _) constant_propagates
      · exact ⟨(named_within_bounding _).headWithin, trivial, named_within_bounding _, trivial⟩
      · exact constant_within_bounding _ _ (conversion_within_bounding _ _) constant_propagates)
    (named_within_bounding _).headWithin ⟨trivial, named_within_bounding _, trivial⟩ rfl
    (by decide +kernel)
  exact absurd again (by decide +kernel)

end CharacterSheet
