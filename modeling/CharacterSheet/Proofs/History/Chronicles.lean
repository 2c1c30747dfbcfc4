import CharacterSheet.Proofs.History.Histories

/-!
Contract: what happens in the course of the operations on a sheet, in order.

Owns:
- events: pipelines that are made and removed, calculations that end, reads from outside of any
  calculation, announcements, and the moments at which a value function or a subscriber runs;
- the events of a calculation, of a read and of an announcement;
- the stats with a pipeline and the behaviors in force, which nothing but the making and the removal of
  pipelines changes;
- unfolding: events, one after the other, each on a well-formed graph.

Reads make pipelines in the middle of a calculation, so that the events of a calculation are told along
the steps of its plan.
-/

namespace CharacterSheet

/-! ### Events -/

/-- Something that happens, with the graph at that moment. -/
inductive Event where
  /-- A value function runs, a subscriber is called, or an operation is over. -/
  | look (graph : Graph)
  /-- The pipeline of a stat is about to be made. -/
  | opened (stat : Stat) (graph : Graph)
  /-- The pipeline of a stat is about to be removed. -/
  | closed (stat : StatId) (graph : Graph)
  /-- A calculation of a node has ended, after the reads of some nodes with their replies. -/
  | calculated (node : NodeId) (readings : List (NodeId × Reply)) (reply : Reply) (graph : Graph)
  /-- A node is about to be read from outside of any calculation. -/
  | read (node : NodeId) (graph : Graph)
  /-- All that waits is about to be announced. -/
  | flushed (announceRosters : Bool) (graph : Graph)

namespace Event

/-- The graph on which something happens. -/
def graph : Event → Graph
  | look graph | opened _ graph | closed _ graph | calculated _ _ _ graph | read _ graph
  | flushed _ graph => graph

/-- The graph after a pipeline was made or removed; what comes after another event is told by the
events that follow. -/
def after : Event → Graph
  | opened stat graph => graph.ensurePipeline stat
  | closed stat graph => graph.removePipeline stat
  | event => event.graph

end Event

/-- What happens while a node is calculated. -/
abbrev Teller := NodeId → Graph → List Event

namespace Graph

/-- What happens when the pipeline of a stat is asked for. -/
def opening (stat : Stat) (graph : Graph) : List Event :=
  if graph.pipelines.contains stat.id then [] else [.opened stat graph]

/-- What happens when the node that answers a request is found or made. -/
def locating (graph : Graph) : Query → List Event
  | .node stat _ _ => if stat.isResolved then graph.opening stat else []
  | .contribution _ => []

/-- What happens while a request is answered. -/
def answering (tell : Teller) (query : Query) (graph : Graph) : List Event :=
  graph.locating query ++
    match graph.locate query with
    | (.error _, _) => []
    | (.ok node, grown) => tell node grown

end Graph

namespace Plan

variable {α : Type}

/-- The existing nodes that a plan reads, in order, with the replies. -/
def readings (evaluator : Evaluator) : Plan α → Frame → List (NodeId × Reply)
  | finish _, _ => []
  | ask query resume, frame =>
      match frame.graph.locate query, Frame.answer evaluator query frame with
      | _, none => []
      | (.error _, _), some (reply, next) => (resume reply).readings evaluator next
      | (.ok node, _), some (reply, next) => (node, reply) :: (resume reply).readings evaluator next
  | consult stat stage path resume, frame =>
      (resume (frame.graph.transformsFor stat stage path)).readings evaluator frame
  | note record next, frame =>
      next.readings evaluator { frame with graph := frame.graph.record record }

/-- What happens while a plan is run. -/
def events (evaluator : Evaluator) (tell : Teller) : Plan α → Frame → List Event
  | finish _, frame => [.look frame.graph]
  | ask query resume, frame =>
      .look frame.graph :: (frame.graph.answering tell query ++
        match Frame.answer evaluator query frame with
        | none => []
        | some (reply, next) => (resume reply).events evaluator tell next)
  | consult stat stage path resume, frame =>
      .look frame.graph ::
        (resume (frame.graph.transformsFor stat stage path)).events evaluator tell frame
  | note record next, frame =>
      .look frame.graph ::
        next.events evaluator tell { frame with graph := frame.graph.record record }

end Plan

namespace Graph

/-- What happens while a node is calculated whose nested reads are made by means of `inner`. -/
def eventsBy (inner : Evaluator) (tell : Teller) : Teller := fun node graph =>
  match graph.nodes.get? node with
  | none => []
  | some present =>
      match present.cache with
      | .ready _ | .computing => []
      | .stale =>
          let plan := (graph.enter node).planOf present.address
          let frame : Frame := { graph := graph.enter node }
          plan.events inner tell frame ++
            match plan.run (Frame.interpreter inner) frame with
            | none => []
            | some (reply, last) =>
                [.calculated node (plan.readings inner frame) reply
                  (last.graph.leave node last.reads reply)]

/-- What happens while a node is calculated with a number of levels of nested reads. -/
def events : Nat → Teller
  | 0 => fun _ _ => []
  | levels + 1 => eventsBy (evaluate levels) (events levels)

/-- What happens while a node is calculated from outside of any calculation. -/
def diary (node : NodeId) (graph : Graph) : List Event :=
  match evaluate usualLevels node graph, evaluate graph.levels node graph with
  | some _, _ => events usualLevels node graph
  | none, some _ => events graph.levels node graph
  | none, none => []

/-- A read from outside of any calculation, and what happens in its course. -/
def reading (node : NodeId) (graph : Graph) : List Event := .read node graph :: graph.diary node

/-- What happens while a plan is run from outside of any calculation. -/
def performing {α : Type} (plan : Plan α) (graph : Graph) : List Event :=
  plan.events (fun node graph => some (graph.valueOf node)) reading { graph }

/-- What happens while one thing after the other is done. -/
def narrate {α : Type} (step : Graph → α → Graph) (tell : Graph → α → List Event) :
    Graph → List α → List Event
  | _, [] => []
  | graph, item :: rest => tell graph item ++ narrate step tell (step graph item) rest

/-- What happens when a subscriber is called, which then makes its reads. -/
def telling (graph : Graph) (subscriber : Subscriber) : List Event :=
  .look graph :: narrate (fun graph reading => (graph.readFor reading).2)
    (fun graph reading => graph.performing (Plan.read reading.stat reading.stage reading.path))
    graph subscriber.reads

/-- What happens while a node is announced. -/
def announcingNode (graph : Graph) (node : NodeId) : List Event :=
  graph.reading node ++
    match (graph.settle node).nodes.get? node with
    | none => []
    | some present =>
        narrate (tell present.address.name) telling (graph.settle node) present.subscribers

/-- What happens while the change of a roster is announced. -/
def announcingRoster (graph : Graph) (change : SlotId × Delta ModifierId) : List Event :=
  match graph.roster? change.1 with
  | none => []
  | some roster =>
      narrate (fun told id => told.record
          (.rosterChanged id change.1.stat change.1.form change.1.path change.2))
        (fun told _ => [.look told]) graph roster.subscribers

/-- What happens while all waiting changes are announced. -/
def flushing (announceRosters : Bool) (graph : Graph) : List Event :=
  .flushed announceRosters graph ::
    ((if announceRosters then
        narrate announceRoster announcingRoster graph.begun graph.pending.changedSlots else []) ++
      narrate announceNode announcingNode (graph.announced announceRosters).2
        (graph.announced announceRosters).1)

/-! ### Behaviors in force -/

variable {graph middle other : Graph}

/-- The stats with a pipeline, each as it was when its pipeline was made, in the order in which the
pipelines were made. -/
def carriers (graph : Graph) : List (StatId × Stat) :=
  graph.pipelines.entries.map fun entry => (entry.1, entry.2.stat)

/-- No pipeline is made or removed, and the same behaviors are in force. -/
structure SameForce (graph other : Graph) : Prop where
  behaviors : other.behaviors = graph.behaviors
  carriers : other.carriers = graph.carriers

namespace SameForce

theorem refl (graph : Graph) : graph.SameForce graph := ⟨rfl, rfl⟩

theorem trans (first : graph.SameForce middle) (second : middle.SameForce other) :
    graph.SameForce other :=
  ⟨second.behaviors.trans first.behaviors, second.carriers.trans first.carriers⟩

theorem of_shape (shape : other.shape = graph.shape) : graph.SameForce other where
  behaviors := congrArg Shape.behaviors shape
  carriers := by
    have same : other.pipelines = graph.pipelines := congrArg Shape.pipelines shape
    simp only [Graph.carriers, same]

theorem foldl {α : Type} {step : Graph → α → Graph}
    (keeps : ∀ graph item, SameForce graph (step graph item)) (items : List α) (graph : Graph) :
    graph.SameForce (items.foldl step graph) := by
  induction items generalizing graph with
  | nil => exact refl graph
  | cons item rest inductionHypothesis => exact (keeps graph item).trans (inductionHypothesis _)

end SameForce

theorem sameForce_record (graph : Graph) (entry : Record) : graph.SameForce (graph.record entry) :=
  ⟨rfl, rfl⟩

theorem sameForce_invalidateAll (graph : Graph) (starts : List NodeId) :
    graph.SameForce (graph.invalidateAll starts) := .of_shape (fades_invalidateAll graph starts).shape

/-- Whatever changes in a pipeline, its stat stays the one that it was made for. -/
theorem sameForce_modifyPipeline (graph : Graph) (stat : StatId) {change : Pipeline → Pipeline}
    (keeps : ∀ pipeline, (change pipeline).stat = pipeline.stat) :
    graph.SameForce (graph.modifyPipeline stat change) where
  behaviors := rfl
  carriers := by
    simp only [carriers, modifyPipeline, Table.modify, Table.modifyWhere, Table.changeIn,
      List.map_map]
    refine List.map_congr_left fun entry _ => ?_
    by_cases selected : entry.1 = stat <;> simp [selected, keeps]

theorem sameForce_addStage (graph : Graph) (stat : StatId) (stage : Stage) (path : Path) :
    graph.SameForce (graph.addStage stat stage path).2 := by
  have added : graph.SameForce (graph.addNode (.pipeline stat stage path)).2 := ⟨rfl, rfl⟩
  exact added.trans (sameForce_modifyPipeline _ stat fun _ => rfl)

/-- Once its pipeline is there, the making of a node puts nothing in force. -/
theorem sameForce_obtain (graph : Graph) (stat : Stat) (stage : Stage) (path : Path) :
    (graph.ensurePipeline stat).SameForce (graph.obtain stat stage path).2 :=
  obtain_induction stage (.refl _) fun _ other place same _ _ _ =>
    same.trans (sameForce_addStage _ stat.id other place)

theorem sameForce_removeNodes (graph : Graph) (nodes : List NodeId) :
    graph.SameForce (graph.removeNodes nodes) := by
  have unlists (graph : Graph) (node : Node) : graph.SameForce (graph.unlist node.address) := by
    cases node.address with
    | contribution modifier => exact .refl graph
    | pipeline stat stage path => exact sameForce_modifyPipeline graph stat fun _ => rfl
  unfold removeNodes
  dsimp only
  split
  · exact .refl graph
  · have marks := SameForce.of_shape (fades_markStale graph (nodes.flatMap graph.consumption.next)).shape
    refine SameForce.trans ?_ (SameForce.foldl unlists _ _)
    exact ⟨marks.behaviors, marks.carriers⟩

theorem sameForce_relax (graph : Graph) (node : NodeId) : graph.SameForce (graph.relax node) := by
  unfold relax
  split
  · exact .refl graph
  · split <;> exact ⟨rfl, rfl⟩

/-- Up to the removal of pipelines a sweep leaves the same behaviors in force. -/
theorem sameForce_relaxed (graph : Graph) (rules : Retention) :
    graph.SameForce (graph.relaxed rules) := by
  have empties (graph : Graph) (slot : SlotId) : graph.SameForce (graph.removeSlot slot) :=
    sameForce_modifyPipeline graph slot.stat fun _ => rfl
  have thins : graph.SameForce (graph.thinned rules) :=
    (sameForce_removeNodes graph _).trans (.foldl empties _ _)
  exact thins.trans (.foldl sameForce_relax _ _)

end Graph

/-! ### Unfolding -/

/-- What is known of the graph on which something happens. -/
def Event.Fits : Event → Prop
  | opened stat graph => graph.pipelines.get? stat.id = none
  | closed stat graph => ∃ pipeline, graph.pipelines.get? stat = some pipeline ∧
      pipeline.isEmpty = true
  | read _ graph => graph.evaluating = []
  | flushed _ graph => graph.Intact .everything
  | look _ | calculated _ _ _ _ => True

/-- Something happens on a well-formed graph, on which exactly the nodes on the stack are being
calculated. -/
structure Event.Proper (event : Event) : Prop where
  formed : event.graph.WellFormed .everything
  stacked : event.graph.Stacked
  fits : event.Fits

namespace Graph

variable {graph middle other : Graph} {events more : List Event}

/-- Events between two graphs, each on a proper graph, and no behaviors that come into force or are
lifted in between. -/
def Unfolds : Graph → List Event → Graph → Prop
  | start, [], finish => start.SameForce finish
  | start, event :: rest, finish =>
      start.SameForce event.graph ∧ event.Proper ∧ Unfolds event.after rest finish

namespace Unfolds

theorem before (same : graph.SameForce middle) (unfolds : middle.Unfolds events other) :
    graph.Unfolds events other := by
  cases events with
  | nil => exact same.trans unfolds
  | cons event rest => exact ⟨same.trans unfolds.1, unfolds.2⟩

theorem trans (first : graph.Unfolds events middle) (second : middle.Unfolds more other) :
    graph.Unfolds (events ++ more) other := by
  induction events generalizing graph with
  | nil => exact second.before first
  | cons event rest inductionHypothesis => exact ⟨first.1, first.2.1, inductionHypothesis first.2.2⟩

theorem later (unfolds : graph.Unfolds events middle) (same : middle.SameForce other) :
    graph.Unfolds events other := by
  have last : middle.Unfolds [] other := same
  exact List.append_nil events ▸ unfolds.trans last

/-- What happens before an event, the event itself, and what happens afterwards. -/
theorem cut {event : Event} (unfolds : graph.Unfolds (events ++ event :: more) other) :
    graph.Unfolds events event.graph ∧ event.Proper ∧ event.after.Unfolds more other := by
  induction events generalizing graph with
  | nil => exact unfolds
  | cons first rest inductionHypothesis =>
      obtain ⟨same, proper, later⟩ := unfolds
      obtain ⟨earlier, event⟩ := inductionHypothesis later
      exact ⟨⟨same, proper, earlier⟩, event⟩

theorem proper (unfolds : graph.Unfolds events other) : ∀ event ∈ events, event.Proper := by
  intro event member
  obtain ⟨earlier, later, rfl⟩ := List.append_of_mem member
  exact unfolds.cut.2.1

theorem look (formed : graph.WellFormed .everything) (stacked : graph.Stacked) :
    graph.Unfolds [.look graph] graph := ⟨.refl graph, ⟨formed, stacked, trivial⟩, .refl graph⟩

end Unfolds

/-- A pipeline is made if it is missing. -/
theorem unfolds_opening (formed : graph.WellFormed .everything) (stacked : graph.Stacked)
    (stat : Stat) : graph.Unfolds (graph.opening stat) (graph.ensurePipeline stat) := by
  unfold opening
  split
  · next present =>
    rw [ensurePipeline_eq, if_pos present]
    exact SameForce.refl graph
  · next absent =>
    have missing : graph.pipelines.get? stat.id = none := by simpa [Table.contains] using absent
    exact ⟨.refl graph, ⟨formed, stacked, missing⟩, SameForce.refl _⟩

theorem unfolds_locating (formed : graph.WellFormed .everything) (stacked : graph.Stacked)
    (query : Query) : graph.Unfolds (graph.locating query) (graph.locate query).2 := by
  cases query with
  | node stat stage path =>
      rw [locating, locate_node]
      split
      · exact (unfolds_opening formed stacked stat).later (sameForce_obtain graph stat stage path)
      · exact SameForce.refl graph
  | contribution modifier =>
      rw [locating, locate_contribution]
      split <;> exact SameForce.refl graph

end Graph

open CharacterSheet.Graph

/-! ### Calculations -/

section Calculations

variable {fits : List NodeId → Prop} {evaluator : Evaluator} {tell : Teller}

/-- An evaluator advances well-formed graphs with a fitting stack, and that unfolds as it is told. -/
def Narrates (fits : List NodeId → Prop) (evaluator : Evaluator) (tell : Teller) : Prop :=
  ∀ node graph reply after, evaluator node graph = some (reply, after) →
    graph.WellFormed .everything → graph.Stacked → fits graph.evaluating →
      Advances .everything graph after ∧ graph.Unfolds (tell node graph) after

/-- The run of a plan unfolds as it is told if its reads do. -/
theorem unfolds_run (narrates : Narrates fits evaluator tell) {α : Type} {plan : Plan α}
    {frame after : Frame} {outcome : Except Fault α} (asks : plan.Asks (statedScope .everything))
    (formed : frame.graph.WellFormed .everything) (stacked : frame.graph.Stacked)
    (suits : fits frame.graph.evaluating)
    (ran : plan.run (Frame.interpreter evaluator) frame = some (outcome, after)) :
    Advances .everything frame.graph after.graph ∧
      frame.graph.Unfolds (plan.events evaluator tell frame) after.graph := by
  have looks := Unfolds.look formed stacked
  induction plan generalizing frame with
  | finish result =>
      cases ran
      exact ⟨.refl formed stacked, looks⟩
  | ask query resume inductionHypothesis =>
      have advances := advances_locate formed stacked asks.1
      have locates := unfolds_locating formed stacked query
      rw [Plan.run, show (Frame.interpreter evaluator).answer = Frame.answer evaluator from rfl] at ran
      rw [Plan.events, answering]
      rw [Frame.answer_eq] at ran ⊢
      rcases located : frame.graph.locate query with ⟨reply | node, grown⟩ <;>
        rw [located] at locates advances ran
      · obtain ⟨rest, told⟩ := @inductionHypothesis reply { frame with graph := grown }
          (asks.2 reply) advances.formed advances.stacked (advances.evaluating ▸ suits) ran
          (.look advances.formed advances.stacked)
        refine ⟨advances.trans rest, looks.trans (Unfolds.trans ?_ told)⟩
        rwa [List.append_nil]
      · dsimp only at ran ⊢
        rcases answered : evaluator node grown with _ | ⟨reply, read⟩
        · rw [answered] at ran
          contradiction
        · rw [answered] at ran
          have kept : fits grown.evaluating := advances.evaluating ▸ suits
          obtain ⟨reads, told⟩ := narrates node grown reply read answered advances.formed
            advances.stacked kept
          obtain ⟨rest, last⟩ := inductionHypothesis reply (asks.2 reply) reads.formed reads.stacked
            (reads.evaluating ▸ kept) ran (.look reads.formed reads.stacked)
          exact ⟨(advances.trans reads).trans rest,
            looks.trans ((locates.trans told).trans last)⟩
  | consult stat stage path resume inductionHypothesis =>
      have heeds : (resume (frame.graph.transformsFor stat stage path)).Asks
          (statedScope .everything) := asks.2 _ formed.transforms_within
      obtain ⟨rest, told⟩ := inductionHypothesis _ heeds formed stacked suits ran looks
      exact ⟨rest, looks.trans told⟩
  | note entry next inductionHypothesis =>
      have notes := Advances.record formed stacked (Record.inward_of_note asks.1)
      obtain ⟨rest, told⟩ := @inductionHypothesis
        { frame with graph := frame.graph.record entry } asks.2 notes.formed notes.stacked suits ran
        (.look notes.formed notes.stacked)
      exact ⟨notes.trans rest, looks.trans (told.before (sameForce_record _ entry))⟩

/-- Nothing happens while a node is read that is not calculated. -/
theorem eventsBy_unmoved {node : NodeId} {graph : Graph}
    (unmoved : ∀ present, graph.nodes.get? node = some present → present.cache ≠ .stale) :
    eventsBy evaluator tell node graph = [] := by
  unfold eventsBy
  split
  · rfl
  · next present found =>
    split
    · rfl
    · rfl
    · next stale => exact absurd stale (unmoved present found)

/-- A calculation is told after all that happens while its plan is run. -/
theorem eventsBy_calculated {node : NodeId} {graph : Graph} {present : Node} {reply : Reply}
    {frame : Frame} (found : graph.nodes.get? node = some present) (cached : present.cache = .stale)
    (ran : ((graph.enter node).planOf present.address).run (Frame.interpreter evaluator)
      { graph := graph.enter node } = some (reply, frame)) :
    eventsBy evaluator tell node graph =
      ((graph.enter node).planOf present.address).events evaluator tell { graph := graph.enter node } ++
        [.calculated node (((graph.enter node).planOf present.address).readings evaluator
          { graph := graph.enter node }) reply (frame.graph.leave node frame.reads reply)] := by
  simp only [eventsBy, found, cached, ran]

/-- A calculation unfolds as it is told if its nested reads do. -/
theorem unfolds_evaluateBy (narrates : Narrates (fun _ => True) evaluator tell) {node : NodeId}
    {graph after : Graph} {reply : Reply}
    (evaluated : evaluateBy evaluator node graph = some (reply, after))
    (formed : graph.WellFormed .everything) (stacked : graph.Stacked) :
    graph.Unfolds (eventsBy evaluator tell node graph) after := by
  rcases evaluateBy_cases evaluated with ⟨rfl, unmoved⟩ | ⟨present, frame, found, cached, ran, rfl⟩
  · rw [eventsBy_unmoved unmoved]
    exact SameForce.refl after
  · rw [eventsBy_calculated found cached ran]
    have entered := formed.enter node
    have address := addressOf?_enter found
    obtain ⟨inner, told⟩ := unfolds_run narrates ((planOf_asks entered address).stated entered)
      entered (stacked.enter found cached) trivial ran
    have top : frame.graph.evaluating = node :: graph.evaluating := inner.evaluating
    have begins := SameForce.of_shape (shape_enter graph node)
    have ends := SameForce.of_shape (shape_leave frame.graph node frame.reads reply)
    refine (told.before begins).trans ⟨ends, ⟨?_, ?_, trivial⟩, SameForce.refl _⟩
    · exact inner.formed.leave _ _ _
    · exact inner.stacked.leave top _ _

theorem narrates_evaluate (levels : Nat) :
    Narrates (fun _ => True) (evaluate levels) (events levels) := by
  induction levels with
  | zero => exact fun _ _ _ _ impossible => nomatch impossible
  | succ levels inductionHypothesis =>
      exact fun node graph reply after evaluated formed stacked _ =>
        ⟨(evaluate_sound evaluated).advances formed stacked,
          unfolds_evaluateBy inductionHypothesis evaluated formed stacked⟩

/-- A read from outside of any calculation is a calculation with enough levels, if any suffices. -/
theorem valueOf_cases (node : NodeId) (graph : Graph) :
    (∃ levels, evaluate levels node graph = some (graph.valueOf node) ∧
        graph.diary node = events levels node graph) ∨
      graph.valueOf node = (.ok none, graph) ∧ graph.diary node = [] := by
  unfold valueOf diary
  rcases usual : evaluate usualLevels node graph with _ | outcome
  · rcases enough : evaluate graph.levels node graph with _ | outcome
    · exact .inr ⟨rfl, rfl⟩
    · exact .inl ⟨graph.levels, enough, rfl⟩
  · exact .inl ⟨usualLevels, usual, rfl⟩

theorem narrates_valueOf :
    Narrates (· = []) (fun node graph => some (graph.valueOf node)) reading := by
  intro node graph reply after evaluated formed stacked idle
  have outcome : graph.valueOf node = (reply, after) := Option.some.inj evaluated
  have value : Advances .everything graph after ∧ graph.Unfolds (graph.diary node) after := by
    rcases valueOf_cases node graph with ⟨levels, evaluated, told⟩ | ⟨same, told⟩
    · rw [told]
      exact narrates_evaluate levels node graph reply after (outcome ▸ evaluated) formed stacked
        trivial
    · rw [told]
      cases outcome.symm.trans same
      exact ⟨.refl formed stacked, SameForce.refl graph⟩
  exact ⟨value.1, .refl graph, ⟨formed, stacked, idle⟩, value.2⟩

end Calculations

/-! ### Announcements -/

namespace Graph

variable {graph middle other : Graph}

/-- Between two graphs at rest things unfold as they are told. -/
def Recounts (graph : Graph) (events : List Event) (other : Graph) : Prop :=
  graph.Resting .everything → other.Resting .everything ∧ graph.Unfolds events other

namespace Recounts

variable {events more : List Event}

theorem refl (graph : Graph) : graph.Recounts [] graph := fun resting => ⟨resting, SameForce.refl graph⟩

theorem trans (first : graph.Recounts events middle) (second : middle.Recounts more other) :
    graph.Recounts (events ++ more) other := by
  intro resting
  obtain ⟨between, told⟩ := first resting
  obtain ⟨last, later⟩ := second between
  exact ⟨last, told.trans later⟩

theorem look (graph : Graph) : graph.Recounts [.look graph] graph := fun resting =>
  ⟨resting, .look resting.formed resting.stacked⟩

theorem record (graph : Graph) (entry : Record) : graph.Recounts [] (graph.record entry) :=
  fun resting => ⟨⟨resting.formed.of_shape (shape_record graph entry),
    ⟨resting.stacked.computing, resting.stacked.distinct, resting.stacked.outdated⟩, resting.idle⟩,
    sameForce_record graph entry⟩

theorem narrate {α : Type} {step : Graph → α → Graph} {tell : Graph → α → List Event}
    (recounts : ∀ graph item, Recounts graph (tell graph item) (step graph item)) (graph : Graph)
    (items : List α) : graph.Recounts (Graph.narrate step tell graph items) (items.foldl step graph) := by
  induction items generalizing graph with
  | nil => exact refl graph
  | cons item rest inductionHypothesis => exact (recounts graph item).trans (inductionHypothesis _)

end Recounts

theorem recounts_perform (graph : Graph) {α : Type} {plan : Plan α}
    (asks : plan.Asks (statedScope .everything)) :
    graph.Recounts (graph.performing plan) (graph.perform plan).2 := by
  intro resting
  have outcome := Option.some_get (Plan.run_isSome outside_answers plan { graph })
  obtain ⟨advances, told⟩ := unfolds_run narrates_valueOf asks resting.formed resting.stacked
    resting.idle outcome.symm
  exact ⟨resting.advance advances, told⟩

theorem recounts_settle (graph : Graph) (node : NodeId) :
    graph.Recounts (graph.reading node) (graph.settle node) := by
  have reads : graph.Recounts (graph.reading node) (graph.valueOf node).2 := fun resting =>
    let ⟨advances, told⟩ := narrates_valueOf node graph _ _ rfl resting.formed resting.stacked
      resting.idle
    ⟨resting.advance advances, told⟩
  unfold settle
  generalize graph.valueOf node = outcome at reads ⊢
  rcases outcome with ⟨fault | value, after⟩
  · dsimp only at reads ⊢
    split
    · exact List.append_nil (graph.reading node) ▸ reads.trans (.record _ _)
    · exact reads
  · exact reads

/-- A subscriber that is called reads what it likes. -/
theorem recounts_tell (name : NodeName) (graph : Graph) (subscriber : Subscriber) :
    graph.Recounts (graph.telling subscriber) (tell name graph subscriber) := by
  have asks (reading : Reading) :
      (Plan.read reading.stat reading.stage reading.path).Asks (statedScope .everything) :=
    Plan.asks_read ⟨reading.stat.within_everything.headWithin, reading.path.within_everything⟩
  have told : tell name graph subscriber = (graph.readAll subscriber.reads).2.record
      (.valueChanged subscriber.id name (graph.readAll subscriber.reads).1) := rfl
  have reads := Recounts.narrate (fun graph (reading : Reading) => graph.recounts_perform (asks reading))
    graph subscriber.reads
  rw [told, readAll_eq, ← List.append_nil (graph.telling subscriber)]
  exact ((Recounts.look graph).trans reads).trans (.record _ _)

theorem recounts_announceNode (graph : Graph) (node : NodeId) :
    graph.Recounts (graph.announcingNode node) (graph.announceNode node) := by
  have settles := graph.recounts_settle node
  unfold announcingNode announceNode
  dsimp only
  cases (graph.settle node).nodes.get? node with
  | none =>
      rw [List.append_nil]
      exact settles
  | some present => exact settles.trans (Recounts.narrate (recounts_tell _) _ _)

theorem recounts_announceRoster (graph : Graph) (change : SlotId × Delta ModifierId) :
    graph.Recounts (graph.announcingRoster change) (graph.announceRoster change) := by
  unfold announcingRoster announceRoster
  cases graph.roster? change.1 with
  | none => exact .refl graph
  | some roster =>
      exact .narrate (fun graph _ => (Recounts.look graph).trans (.record graph _)) graph
        roster.subscribers

/-- Nothing waits any more once an announcement has begun. -/
theorem recounts_begun (graph : Graph) : graph.Recounts [] graph.begun := by
  have clears : graph.Recounts [] (graph.modifyPending Pending.cleared) := fun resting =>
    ⟨⟨resting.formed.of_shape (shape_modifyPending graph _),
      ⟨resting.stacked.computing, resting.stacked.distinct, resting.stacked.outdated⟩, resting.idle⟩,
      rfl, rfl⟩
  exact clears.trans (.record _ _)

theorem unfolds_flush (intact : graph.Intact .everything) (announceRosters : Bool) :
    graph.Unfolds (graph.flushing announceRosters) (graph.flush announceRosters) := by
  refine ⟨.refl graph, ⟨intact.formed, intact.stacked, intact⟩, ?_⟩
  by_cases settled : graph.Settled
  · rw [flush_settled settled]
    have none : (if announceRosters = true then
        narrate announceRoster announcingRoster graph.begun graph.pending.changedSlots else []) ++
          narrate announceNode announcingNode (graph.announced announceRosters).2
            (graph.announced announceRosters).1 = [] := by
      simp [settled.1, settled.2, announced, announcementOrder, narrate]
    rw [none]
    exact ⟨rfl, rfl⟩
  · rw [flush_unsettled settled]
    have informs : graph.begun.Recounts
        (if announceRosters = true then
          narrate announceRoster announcingRoster graph.begun graph.pending.changedSlots else [])
        (graph.informed announceRosters) := by
      unfold informed
      split
      · exact .narrate recounts_announceRoster _ _
      · exact .refl _
    have orders : (graph.informed announceRosters).Recounts [] (graph.announced announceRosters).2 := by
      unfold announced
      rcases announcementOrder_graph (graph.informed announceRosters) (graph.pending.nodes.filter
        fun node => 0 < (graph.informed announceRosters).subscriberCount node) with same | same
      · rw [same]
        exact .refl _
      · rw [same]
        exact .record _ _
    exact ((graph.recounts_begun.trans informs).trans
      (orders.trans (.narrate recounts_announceNode _ _)) intact.toResting).2

end Graph

end CharacterSheet
