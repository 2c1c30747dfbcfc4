import CharacterSheet.Proofs.Subscription.Registries
import CharacterSheet.Proofs.Sweep.Sites

/-!
Contract: which graphs the functions of a sheet see while they run.

Owns:
- sights: the graph at each step of a calculation, those of the calculations that it makes on the way
  among them, and the graph at each call of a subscriber and at each of its reads;
- indexed graphs, in which every number that is kept somewhere leads to the node that it was kept for;
- tours, on which only indexed graphs are seen;
- calculations, reads and announcements are tours.

Reads make nodes in the middle of a calculation, and a graph is indexed even then.
-/

namespace CharacterSheet

/-! ### Sights -/

/-- What is seen while a node is calculated. -/
abbrev Onlooker := NodeId → Graph → List Graph

namespace Graph

/-- What is seen while a request is answered. -/
def sightsOf (look : Onlooker) (query : Query) (graph : Graph) : List Graph :=
  match graph.locate query with
  | (.error _, _) => []
  | (.ok node, grown) => look node grown

end Graph

/-- What is seen while a plan is run: the graph at each step, and in between what is seen while a
request is answered. -/
def Plan.sights {α : Type} (evaluator : Evaluator) (look : Onlooker) : Plan α → Frame → List Graph
  | .finish _, frame => [frame.graph]
  | .ask query resume, frame =>
      frame.graph :: (frame.graph.sightsOf look query ++
        match Frame.answer evaluator query frame with
        | none => []
        | some (reply, next) => (resume reply).sights evaluator look next)
  | .consult stat stage path resume, frame =>
      frame.graph :: (resume (frame.graph.transformsFor stat stage path)).sights evaluator look frame
  | .note record next, frame =>
      frame.graph :: next.sights evaluator look { frame with graph := frame.graph.record record }

namespace Graph

/-- What is seen while a node is calculated whose nested reads are made by means of `inner`. -/
def sightsBy (inner : Evaluator) (look : Onlooker) : Onlooker := fun node graph =>
  match graph.nodes.get? node with
  | none => []
  | some present =>
      match present.cache with
      | .ready _ | .computing => []
      | .stale =>
          ((graph.enter node).planOf present.address).sights inner look { graph := graph.enter node }

/-- What is seen while a node is calculated with a number of levels of nested reads. -/
def sights : Nat → Onlooker
  | 0 => fun _ _ => []
  | levels + 1 => sightsBy (evaluate levels) (sights levels)

/-- What is seen while a node is calculated from outside. -/
def valueSights (node : NodeId) (graph : Graph) : List Graph :=
  match evaluate usualLevels node graph, evaluate graph.levels node graph with
  | some _, _ => sights usualLevels node graph
  | none, some _ => sights graph.levels node graph
  | none, none => []

/-- What is seen while a plan is run from outside. -/
def performSights {α : Type} (plan : Plan α) (graph : Graph) : List Graph :=
  plan.sights (fun node graph => some (graph.valueOf node)) valueSights { graph }

/-- What is seen while one thing after the other is done. -/
def along {α : Type} (step : Graph → α → Graph) (look : Graph → α → List Graph) :
    Graph → List α → List Graph
  | _, [] => []
  | graph, item :: rest => look graph item ++ along step look (step graph item) rest

/-- What a subscriber sees: the graph when it is called, and all that is seen while it reads. -/
def tellSights (graph : Graph) (subscriber : Subscriber) : List Graph :=
  graph :: along (fun graph reading => (graph.readFor reading).2)
    (fun graph reading => graph.performSights (Plan.read reading.stat reading.stage reading.path))
    graph subscriber.reads

/-- What is seen while a node is announced. -/
def nodeSights (graph : Graph) (node : NodeId) : List Graph :=
  graph.valueSights node ++
    match (graph.settle node).nodes.get? node with
    | none => []
    | some present =>
        along (tell present.address.name) tellSights (graph.settle node) present.subscribers

/-- What the subscribers of a roster see. -/
def rosterSights (graph : Graph) (change : SlotId × Delta ModifierId) : List Graph :=
  match graph.roster? change.1 with
  | none => []
  | some roster =>
      along (fun told id => told.record
          (.rosterChanged id change.1.stat change.1.form change.1.path change.2))
        (fun told _ => [told]) graph roster.subscribers

/-- What is seen while all waiting changes are announced. -/
def flushSights (announceRosters : Bool) (graph : Graph) : List Graph :=
  (if announceRosters then along announceRoster rosterSights graph.begun graph.pending.changedSlots
    else []) ++
  along announceNode nodeSights (graph.announced announceRosters).2
    (graph.announced announceRosters).1

/-! ### Indexed graphs -/

/-- The node that the pipeline of a stat lists under a stage and a path. -/
def listed? (graph : Graph) (stat : StatId) (stage : Stage) (path : PathId) : Option NodeId :=
  (graph.pipelines.get? stat).bind (·.nodes.get? (stage, path))

/-- Every number that is kept somewhere leads to the node that it was kept for. -/
structure Indexed (graph : Graph) : Prop where
  /-- A node is listed under a name exactly if it has that name. -/
  listed : ∀ stat stage path node, graph.listed? stat stage path = some node ↔
    graph.nameOf? node = some (.pipeline stat stage path)
  /-- Stages of a whole stat are listed under the main path only. -/
  level : ∀ stat stage path node, graph.listed? stat stage path = some node →
    stage.isStatLevel = true → path = .main
  /-- At most one edge leads from a node to a node. -/
  single : graph.edges.Nodup
  numbered : ∀ node present, graph.nodes.get? node = some present → node.number < graph.nextNode
  /-- Different nodes stand in different places. -/
  placed : ∀ node other present another, graph.nodes.get? node = some present →
    graph.nodes.get? other = some another → present.place = another.place → node = other
  waiting : ∀ node ∈ graph.pending.nodes, graph.nodes.contains node = true
  targets : ∀ id node, graph.subscriptions.get? id = some (.node node) →
    graph.nodes.contains node = true

variable {vocabulary : Vocabulary} {graph middle other : Graph}

/-- What holds of a graph even in the middle of a calculation. -/
structure Live (vocabulary : Vocabulary) (graph : Graph) : Prop where
  formed : graph.WellFormed vocabulary
  stacked : graph.Stacked
  agrees : graph.Agrees
  tidy : graph.Tidy

theorem Live.indexed (live : graph.Live vocabulary) : graph.Indexed where
  listed := by
    intro stat stage path node
    simp only [listed?, nameOf?, Option.bind_eq_some_iff, Option.map_eq_some_iff]
    constructor
    · rintro ⟨pipeline, here, listed⟩
      obtain ⟨full, found, rfl, _⟩ := live.formed.listed stat pipeline stage path node here listed
      obtain ⟨present, found, address⟩ := Option.map_eq_some_iff.mp found
      exact ⟨present, found, congrArg Address.name address⟩
    · rintro ⟨present, found, name⟩
      have address : graph.addressOf? node = some present.address := congrArg (Option.map _) found
      generalize present.address = own at address name
      cases own with
      | contribution modifier => cases name
      | pipeline stat stage full =>
          cases name
          exact live.formed.named node stat stage full address
  level := by
    intro stat stage path node listed level
    obtain ⟨pipeline, here, listed⟩ := Option.bind_eq_some_iff.mp listed
    obtain ⟨_, _, _, place⟩ := live.formed.listed stat pipeline stage path node here listed
    rw [← place, PathOf.at, if_pos level]
  single := live.tidy.single
  numbered := fun node present found => live.tidy.orderly.numbered
    ⟨node, present.address, present.place⟩ ((graph.mem_sites_iff _).mpr ⟨present, found, rfl, rfl⟩)
  placed := by
    intro node other present another found there same
    have sites := live.tidy.orderly.distinct
    have first : ⟨node, present.address, present.place⟩ ∈ graph.ground.sites :=
      (graph.mem_sites_iff _).mpr ⟨present, found, rfl, rfl⟩
    have second : ⟨other, another.address, another.place⟩ ∈ graph.ground.sites :=
      (graph.mem_sites_iff _).mpr ⟨another, there, rfl, rfl⟩
    exact congrArg Site.node (List.inj_on_of_nodup_map sites first second same)
  waiting := live.tidy.waiting
  targets := by
    intro id node listed
    obtain ⟨present, found, _⟩ := live.agrees.followed listed
    exact Table.contains_iff.mpr ⟨present, found⟩

/-! ### Tours -/

/-- Indexed graphs that are seen one after the other between two graphs, while the ground evolves. -/
def Passes : Graph → List Graph → Graph → Prop
  | start, [], finish => start.ground.Evolves finish.ground
  | start, seen :: rest, finish =>
      start.ground.Evolves seen.ground ∧ seen.Indexed ∧ Passes seen rest finish

theorem Passes.after {seen : List Graph} (evolves : graph.ground.Evolves middle.ground)
    (passes : middle.Passes seen other) : graph.Passes seen other := by
  cases seen with
  | nil => exact evolves.trans passes
  | cons next rest => exact ⟨evolves.trans passes.1, passes.2⟩

theorem Passes.trans {seen more : List Graph} (first : graph.Passes seen middle)
    (second : middle.Passes more other) : graph.Passes (seen ++ more) other := by
  induction seen generalizing graph with
  | nil => exact second.after first
  | cons next rest inductionHypothesis => exact ⟨first.1, first.2.1, inductionHypothesis first.2.2⟩

/-- What happens between two graphs without any node going, while indexed graphs are seen. -/
structure Tours (vocabulary : Vocabulary) (graph : Graph) (seen : List Graph) (other : Graph) :
    Prop where
  live : other.Live vocabulary
  larger : graph.Extends other
  evaluating : other.evaluating = graph.evaluating
  passes : graph.Passes seen other

namespace Tours

variable {seen more : List Graph}

theorem refl (live : graph.Live vocabulary) : Tours vocabulary graph [] graph :=
  ⟨live, .refl graph, rfl, .refl _⟩

/-- Whatever runs now sees the graph as it is. -/
theorem look (live : graph.Live vocabulary) : Tours vocabulary graph [graph] graph :=
  ⟨live, .refl graph, rfl, .refl _, live.indexed, .refl _⟩

theorem trans (first : Tours vocabulary graph seen middle)
    (second : Tours vocabulary middle more other) : Tours vocabulary graph (seen ++ more) other :=
  ⟨second.live, first.larger.trans second.larger, second.evaluating.trans first.evaluating,
    first.passes.trans second.passes⟩

/-- What extends a graph and keeps it tidy, with nobody looking. -/
theorem unseen (live : graph.Live vocabulary) (maintains : graph.Maintains other)
    (larger : graph.Extends other) (formed : other.WellFormed vocabulary)
    (stacked : other.Stacked) (evaluating : other.evaluating = graph.evaluating) :
    Tours vocabulary graph [] other := by
  obtain ⟨tidy, evolves⟩ := maintains live.tidy
  exact ⟨⟨formed, stacked, live.agrees.keep (.of_extends larger), tidy⟩, larger, evaluating, evolves⟩

/-- To announce is to write to the journal. -/
theorem record (tours : Tours vocabulary graph seen other) (entry : Record) :
    Tours vocabulary graph seen (other.record entry) := by
  obtain ⟨formed, stacked, _, _⟩ := tours.live
  have notes : Tours vocabulary other [] (other.record entry) :=
    .unseen tours.live (maintains_record other entry) { Extends.refl other with }
      (formed.of_shape (shape_record other entry))
      ⟨stacked.computing, stacked.distinct, stacked.outdated⟩ rfl
  exact List.append_nil seen ▸ tours.trans notes

/-- A series of tours is a tour. -/
theorem along {α : Type} {step : Graph → α → Graph} {look : Graph → α → List Graph}
    {items : List α} (live : graph.Live vocabulary)
    (tours : ∀ graph : Graph, graph.Live vocabulary → ∀ item ∈ items,
      Tours vocabulary graph (look graph item) (step graph item)) :
    Tours vocabulary graph (Graph.along step look graph items) (items.foldl step graph) := by
  induction items generalizing graph with
  | nil => exact refl live
  | cons item rest inductionHypothesis =>
      have first := tours graph live item List.mem_cons_self
      exact first.trans (inductionHypothesis first.live fun graph live other member =>
        tours graph live other (List.mem_cons_of_mem item member))

end Tours

end Graph

open CharacterSheet.Graph

/-! ### Calculations -/

section Calculations

variable {vocabulary : Vocabulary} {evaluator : Evaluator} {look : Onlooker}

/-- An evaluator takes its onlooker on a tour. -/
def Guides (vocabulary : Vocabulary) (evaluator : Evaluator) (look : Onlooker) : Prop :=
  ∀ node graph reply after, evaluator node graph = some (reply, after) → graph.Live vocabulary →
    Tours vocabulary graph (look node graph) after

theorem Frame.nodup_after {frame : Frame} (distinct : frame.reads.Nodup) (node : NodeId)
    (graph : Graph) : (frame.after node graph).reads.Nodup := by
  unfold after addRead
  split
  · exact distinct
  · next unread =>
    refine List.nodup_append.mpr ⟨distinct, List.nodup_singleton node, ?_⟩
    rintro other member _ same rfl
    exact unread (List.mem_singleton.mp same ▸ member)

/-- To run a plan is a tour, and no node is read twice on it. -/
theorem tours_run (guides : Guides vocabulary evaluator look) {α : Type} {plan : Plan α}
    {frame after : Frame} {outcome : Except Fault α} (asks : plan.Asks (statedScope vocabulary))
    (live : frame.graph.Live vocabulary) (distinct : frame.reads.Nodup)
    (ran : plan.run (Frame.interpreter evaluator) frame = some (outcome, after)) :
    Tours vocabulary frame.graph (plan.sights evaluator look frame) after.graph ∧
      after.reads.Nodup := by
  induction plan generalizing frame with
  | finish result =>
      cases ran
      exact ⟨.look live, distinct⟩
  | ask query resume inductionHypothesis =>
      have advances := advances_locate live.formed live.stacked asks.1
      have locates : Tours vocabulary frame.graph [] (frame.graph.locate query).2 :=
        .unseen live (maintains_locate _ query) advances.grows.toExtends advances.formed
          advances.stacked advances.evaluating
      rw [Plan.run, show (Frame.interpreter evaluator).answer = Frame.answer evaluator from rfl] at ran
      rw [Plan.sights, sightsOf]
      rw [Frame.answer_eq] at ran ⊢
      rcases located : frame.graph.locate query with ⟨reply | node, grown⟩ <;>
        rw [located] at locates ran
      · obtain ⟨rest, last⟩ := @inductionHypothesis reply { frame with graph := grown }
          (asks.2 reply) locates.live distinct ran
        exact ⟨(Tours.look live).trans (locates.trans rest), last⟩
      · dsimp only at ran ⊢
        rcases answered : evaluator node grown with _ | ⟨reply, read⟩
        · rw [answered] at ran
          contradiction
        · rw [answered] at ran
          have reads := guides node grown reply read answered locates.live
          obtain ⟨rest, last⟩ := inductionHypothesis reply (asks.2 reply) reads.live
            (Frame.nodup_after distinct node read) ran
          exact ⟨(Tours.look live).trans ((locates.trans reads).trans rest), last⟩
  | consult stat stage path resume inductionHypothesis =>
      have heeds : (resume (frame.graph.transformsFor stat stage path)).Asks
          (statedScope vocabulary) := asks.2 _ live.formed.transforms_within
      obtain ⟨rest, last⟩ := inductionHypothesis _ heeds live distinct ran
      exact ⟨(Tours.look live).trans rest, last⟩
  | note entry next inductionHypothesis =>
      have notes := (Tours.refl live).record entry
      obtain ⟨rest, last⟩ := @inductionHypothesis
        { frame with graph := frame.graph.record entry } asks.2 notes.live distinct ran
      exact ⟨(Tours.look live).trans (notes.trans rest), last⟩

/-- Nothing is seen of a node that is not calculated. -/
theorem sightsBy_unmoved {node : NodeId} {graph : Graph}
    (unmoved : ∀ present, graph.nodes.get? node = some present → present.cache ≠ .stale) :
    sightsBy evaluator look node graph = [] := by
  unfold sightsBy
  split
  · rfl
  · next present found =>
    split
    · rfl
    · rfl
    · next stale => exact absurd stale (unmoved present found)

/-- To calculate a node is a tour if its nested reads are. -/
theorem guides_evaluateBy (guides : Guides vocabulary evaluator look) :
    Guides vocabulary (evaluateBy evaluator) (sightsBy evaluator look) := by
  intro node graph reply after evaluated live
  rcases evaluateBy_cases evaluated with ⟨rfl, unmoved⟩ | ⟨present, frame, found, cached, ran, rfl⟩
  · rw [sightsBy_unmoved unmoved]
    exact .refl live
  · simp only [sightsBy, found, cached]
    obtain ⟨entered, began⟩ := maintains_enter graph node live.tidy
    have grows := (graph.grows_enter node).toExtends
    have started : (graph.enter node).Live vocabulary :=
      { formed := live.formed.enter node
        stacked := live.stacked.enter found cached
        agrees := live.agrees.keep (.of_extends grows)
        tidy := entered }
    have address := addressOf?_enter found
    obtain ⟨tours, distinct⟩ := tours_run guides ((planOf_asks started.formed address).stated
      started.formed) started List.nodup_nil ran
    have existing : frame.graph.nodes.contains node = true :=
      contains_of_addressed (tours.larger.addressed address)
    have ends := (frame.graph.grows_leave node frame.reads reply).toExtends
    have top : frame.graph.evaluating = node :: graph.evaluating := tours.evaluating
    obtain ⟨tidy, ended⟩ := maintains_leave existing distinct reply tours.live.tidy
    have leaves : frame.graph.Passes [] (frame.graph.leave node frame.reads reply) := ended
    exact
      { live :=
          { formed := tours.live.formed.leave _ _ _
            stacked := tours.live.stacked.leave top _ _
            agrees := tours.live.agrees.keep (.of_extends ends)
            tidy }
        larger := (grows.trans tours.larger).trans ends
        evaluating := by
          rw [leave_eq]
          simp [top]
        passes := by simpa using (tours.passes.after began).trans leaves }

theorem guides_evaluate (levels : Nat) : Guides vocabulary (evaluate levels) (sights levels) := by
  induction levels with
  | zero => exact fun _ _ _ _ impossible => nomatch impossible
  | succ levels inductionHypothesis => exact guides_evaluateBy inductionHypothesis

theorem guides_valueOf :
    Guides vocabulary (fun node graph => some (graph.valueOf node)) valueSights := by
  intro node graph reply after evaluated live
  have outcome : graph.valueOf node = (reply, after) := Option.some.inj evaluated
  rw [valueOf] at outcome
  rw [valueSights]
  rcases usual : evaluate usualLevels node graph with _ | ⟨given, last⟩ <;> rw [usual] at outcome
  · rcases enough : evaluate graph.levels node graph with _ | ⟨given, last⟩ <;>
      rw [enough] at outcome <;> cases outcome
    · exact .refl live
    · exact guides_evaluate graph.levels node graph reply after enough live
  · cases outcome
    exact guides_evaluate usualLevels node graph reply after usual live

/-- What is performed from outside is a tour. -/
theorem tours_perform {graph : Graph} {α : Type} {plan : Plan α}
    (asks : plan.Asks (statedScope vocabulary)) (live : graph.Live vocabulary) :
    Tours vocabulary graph (graph.performSights plan) (graph.perform plan).2 := by
  have outcome := Option.some_get (Plan.run_isSome outside_answers plan { graph })
  exact (tours_run guides_valueOf asks live List.nodup_nil outcome.symm).1

end Calculations

end CharacterSheet
