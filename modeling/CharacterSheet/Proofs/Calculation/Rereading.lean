import CharacterSheet.Proofs.Calculation.Heeding
import CharacterSheet.Proofs.Announcement.Waiting

/-!
Contract: when a read that is made again gives the same reply.

Owns:
- how often behaviors came into force;
- graphs that are alike for every calculation;
- a calculation that puts no behavior in force ends with the same value or the same fault if it
  is made again on a graph like the one that it left;
- without subscriptions, two reads in a row give the same reply unless the first one puts
  behaviors in force.
-/

namespace CharacterSheet

theorem Table.isEmpty_iff {κ α : Type} {table : Table κ α} : table.isEmpty ↔ table = .empty := by
  obtain ⟨entries, distinct⟩ := table
  simp [isEmpty, empty]

namespace Graph

variable {vocabulary : Vocabulary} {graph middle other : Graph} {result : Prop}

/-! ### How often behaviors came into force -/

/-- How often behaviors came into force since the journal was started. -/
def registrations (graph : Graph) : Nat := graph.journal.countP Record.isRegistration

theorem Logs.registrations_le (logs : graph.Logs other result) :
    graph.registrations ≤ other.registrations := by
  obtain ⟨added, journal, _⟩ := logs
  rw [registrations, registrations, journal, List.countP_append]
  exact Nat.le_add_right _ _

/-- If no behavior came into force, nothing was lost. -/
theorem Logs.calm (logs : graph.Logs other result)
    (same : other.registrations ≤ graph.registrations) : graph.Untouched other ∧ result := by
  obtain ⟨added, journal, _, ⟨entry, member, registers⟩ | calm⟩ := logs
  · have some : 0 < added.countP Record.isRegistration :=
      List.countP_pos_iff.mpr ⟨entry, member, registers⟩
    rw [registrations, registrations, journal, List.countP_append] at same
    omega
  · exact calm

/-! ### Graphs that are alike -/

/-- Graphs on which every calculation ends in the same way. -/
structure Alike (graph other : Graph) : Prop where
  shape : other.shape = graph.shape
  known : other.known = graph.known
  evaluating : other.evaluating = graph.evaluating

theorem Alike.record (alike : graph.Alike other) (entry : Record) :
    graph.Alike (other.record entry) :=
  ⟨alike.shape, alike.known, alike.evaluating⟩

/-- The fault of a circle names the nodes that are being calculated. -/
theorem cycleFault_of_shape (shape : other.shape = graph.shape)
    (evaluating : other.evaluating = graph.evaluating) (node : NodeId) :
    other.cycleFault node = graph.cycleFault node := by
  have names : other.nameOf? = graph.nameOf? := by
    funext own
    have address : other.addressOf? own = graph.addressOf? own :=
      congrFun (addressOf?_of_shape shape) own
    have named (any : Graph) : any.nameOf? own = (any.addressOf? own).map Address.name := by
      rw [nameOf?, addressOf?, Option.map_map]
      rfl
    rw [named, named, address]
  rw [Graph.cycleFault, Graph.cycleFault, evaluating, names]

/-- A request for a node that is there changes nothing. -/
theorem locate_of_located {query : Query} {node : NodeId}
    (found : graph.located query = some node) : graph.locate query = (.ok node, graph) := by
  cases query with
  | node stat stage path =>
      rw [located] at found
      split at found
      · next resolved =>
        obtain ⟨pipeline, here, listed⟩ := Option.bind_eq_some_iff.mp found
        have ready : graph.ensurePipeline stat = graph := by
          rw [ensurePipeline, if_pos]
          rw [Table.contains, here]
          rfl
        have present : graph.node? stat.id stage (path.at stage).id = some node := by
          rw [PathOf.id_at, node?_at]
          exact found
        rw [locate_node, if_pos resolved, obtain, ready]
        dsimp only
        rw [present]
      · contradiction
  | contribution modifier =>
      rw [locate_contribution, show graph.contributions.get? modifier = some node from found]

/-- A refusal does not depend on what other nodes there are. -/
theorem locate_of_refused {query : Query} {reply : Reply} {same : Graph}
    (refused : graph.locate query = (.error reply, same))
    (contributions : other.contributions = graph.contributions) :
    other.locate query = (.error reply, other) := by
  obtain ⟨-, ⟨stat, stage, path, rfl, unresolved, rfl⟩ | ⟨modifier, rfl, missing, rfl⟩⟩ :=
    refused_locate refused
  · rw [locate_node, if_neg (by simp [unresolved])]
  · rw [locate_contribution, contributions, missing]

theorem evaluates_known {node : NodeId} {value : Option Value} {reply : Reply}
    (known : graph.known node = some value) (evaluates : Evaluates node graph reply other) :
    reply = .ok value ∧ other = graph := by
  obtain ⟨present, found, ready⟩ := known_eq_some_iff.mp known
  cases evaluates with
  | absent missing =>
      rw [found] at missing
      cases missing
  | cached here cache =>
      rw [found] at here
      cases here
      rw [ready] at cache
      cases cache
      exact ⟨rfl, rfl⟩
  | circular here cache | calculated here cache =>
      rw [found] at here
      cases here
      rw [ready] at cache
      cases cache

/-- To find a node that is being calculated is to find a circle. -/
theorem evaluates_running (stacked : graph.Stacked) {node : NodeId} {reply : Reply}
    (running : node ∈ graph.evaluating) (evaluates : Evaluates node graph reply other) :
    reply = .error (graph.cycleFault node) ∧ other = graph := by
  obtain ⟨present, found, computing⟩ := (stacked.computing node).mpr running
  cases evaluates with
  | absent missing =>
      rw [found] at missing
      cases missing
  | circular => exact ⟨rfl, rfl⟩
  | cached here cache | calculated here cache =>
      rw [found] at here
      cases here
      rw [computing] at cache
      cases cache

/-- A node without a value that is not being calculated is about to be. -/
theorem stale_of_unknown (stacked : graph.Stacked) {node : NodeId} {present : Node}
    (found : graph.nodes.get? node = some present) (unknown : graph.known node = none)
    (idle : node ∉ graph.evaluating) : present.cache = .stale := by
  rw [known, found] at unknown
  cases cache : present.cache with
  | stale => rfl
  | computing => exact absurd ((stacked.computing node).mp ⟨present, found, cache⟩) idle
  | ready value =>
      rw [Option.bind_some, cache] at unknown
      cases unknown

/-- A calculation that ended in a fault begins again on a graph like the one on which it ended. -/
theorem Alike.enter {node : NodeId} {present : Node} {reads : List NodeId} {fault : Fault}
    {rest : List NodeId} (stacked : graph.Stacked) (top : graph.evaluating = node :: rest)
    (alike : (graph.leave node reads (.error fault)).Alike other)
    (found : other.nodes.get? node = some present) (stale : present.cache = .stale) :
    graph.Alike (other.enter node) where
  shape := (shape_enter other node).trans (alike.shape.trans (shape_leave ..))
  known := by
    rw [known_enter found stale, alike.known]
    funext own
    by_cases same : own = node
    · subst same
      obtain ⟨running, here, computing⟩ := (stacked.computing own).mpr (top ▸ List.mem_cons_self)
      have unknown : graph.known own = none := by
        rw [Graph.known, here, Option.bind_some, computing]
        rfl
      rw [unknown, Graph.known, get?_leave, if_pos rfl, here]
      rfl
    · exact known_leave graph node reads (.error fault) same
  evaluating := by
    show node :: other.evaluating = graph.evaluating
    rw [alike.evaluating, leave_eq, top]
    rfl

end Graph

open CharacterSheet.Graph

/-! ### Reads that put no behavior in force -/

/-- The three parts of a read that puts no behavior in force: `grown` has the node that was asked for,
`middle` is what its calculation left, and `after` is what the rest of the plan left. The node keeps the
value that it answered. -/
structure CalmRead (vocabulary : Vocabulary) (query : Query) (node : NodeId) (reply : Reply)
    (graph grown middle after : Graph) : Prop where
  making : Advances vocabulary graph grown
  addressed : ∃ address, grown.addressOf? node = some address
  evaluated : Advances vocabulary grown middle
  rest : Advances vocabulary middle after
  calmMaking : grown.registrations ≤ graph.registrations
  calmInside : middle.registrations ≤ grown.registrations
  calmRest : after.registrations ≤ middle.registrations
  located : after.located query = some node
  known : ∀ cached, reply = .ok cached → after.known node = some cached

theorem calmRead_of_runs {vocabulary : Vocabulary} {query : Query} {node : NodeId} {answer reply : Reply}
    {resume : Reply → Plan (Option Value)} {grown middle : Graph} {frame after : Frame}
    (formed : frame.graph.WellFormed vocabulary) (stacked : frame.graph.Stacked)
    (asked : (statedScope vocabulary).query query)
    (found : frame.graph.locate query = (.ok node, grown)) (evaluates : Evaluates node grown answer middle)
    (runs : Runs (resume answer) (frame.after node middle) reply after)
    (asks : (resume answer).Asks (statedScope vocabulary))
    (calm : after.graph.registrations ≤ frame.graph.registrations) :
    CalmRead vocabulary query node answer frame.graph grown middle after.graph := by
  have making := advances_locate formed stacked asked
  have locating := (logs_locate formed stacked asked).registrations_le
  have place := located_locate formed stacked asked found
  rw [found] at making locating
  have addressed := making.formed.located_addressed place
  have evaluated := evaluates.advances making.formed making.stacked
  have calculating := evaluates.logs making.formed making.stacked addressed
  have rest := runs.advances evaluated.formed evaluated.stacked asks
  have going := runs.logs evaluated.formed evaluated.stacked asks
  have calmRest : after.graph.registrations ≤ middle.registrations :=
    Nat.le_trans calm (Nat.le_trans locating calculating.registrations_le)
  have calmInside : middle.registrations ≤ grown.registrations :=
    Nat.le_trans going.registrations_le (Nat.le_trans calm locating)
  exact
    { making, addressed, evaluated, rest, calmRest, calmInside
      calmMaking := Nat.le_trans calculating.registrations_le
        (Nat.le_trans going.registrations_le calm)
      located := rest.grows.located (evaluated.grows.located place)
      known := fun cached same => (going.calm calmRest).1.known node cached
        ((calculating.calm calmInside).2 cached same) }

/-! ### Calculations made again -/

section Induction

variable {vocabulary : Vocabulary}

mutual

/-- A calculation that puts no behavior in force ends in the same way if it is made again. -/
theorem Evaluates.repeats (propagating : vocabulary.Propagating) {node : NodeId}
    {graph after : Graph} {reply : Reply} :
    Evaluates node graph reply after → graph.WellFormed vocabulary → graph.Stacked →
      (∃ address, graph.addressOf? node = some address) →
        after.registrations ≤ graph.registrations → ∀ (again last : Graph) (answer : Reply),
          after.Alike again → again.Stacked → Evaluates node again answer last → answer = reply
  | .absent missing, _, _, existing, _ => by
      obtain ⟨address, found⟩ := existing
      rw [addressOf?, missing] at found
      contradiction
  | @Evaluates.cached _ _ present value found ready, _, _, _, _ => by
      intro again last answer alike _ evaluates
      have known : again.known node = some value := by
        rw [alike.known]
        exact known_eq_some_iff.mpr ⟨present, found, ready⟩
      exact (evaluates_known known evaluates).1
  | .circular found computing, _, stacked, _, _ => by
      intro again last answer alike againStacked evaluates
      have running : node ∈ again.evaluating := by
        rw [alike.evaluating]
        exact (stacked.computing node).mp ⟨_, found, computing⟩
      rw [(evaluates_running againStacked running evaluates).1, cycleFault_of_shape alike.shape alike.evaluating]
  | @Evaluates.calculated _ _ present (.ok value) frame found stale runs, formed, stacked,
      existing, calm => by
      intro again last answer alike _ evaluates
      have logs := (Evaluates.calculated found stale runs).logs formed stacked existing
      have known : again.known node = some value := by
        rw [alike.known]
        exact (logs.calm calm).2 value rfl
      exact (evaluates_known known evaluates).1
  | @Evaluates.calculated _ _ present (.error fault) frame found stale runs, formed, stacked,
      existing, calm => by
      intro again last answer alike againStacked evaluates
      have entered := formed.enter node
      have enteredStack := stacked.enter found stale
      have address := addressOf?_enter found
      have asks := (planOf_asks entered address).stated entered
      have advances := runs.advances entered enteredStack asks
      have top : frame.graph.evaluating = node :: graph.evaluating := advances.evaluating
      have idle : node ∉ again.evaluating := by
        rw [alike.evaluating, leave_eq, top]
        exact not_mem_evaluating stacked found stale
      have kept : frame.graph.addressOf? node = some present.address :=
        advances.grows.addressed address
      obtain ⟨found', there, same⟩ : ∃ found', again.nodes.get? node = some found' ∧
          found'.address = present.address := by
        have addressed : again.addressOf? node = some present.address := by
          rw [addressOf?_of_shape (alike.shape.trans (shape_leave ..))]
          exact kept
        exact Option.map_eq_some_iff.mp addressed
      have unknown : again.known node = none := by
        rw [alike.known, Graph.known, get?_leave, if_pos rfl]
        cases frame.graph.nodes.get? node <;> rfl
      have stale' := stale_of_unknown againStacked there unknown idle
      have begun : frame.graph.Alike (again.enter node) :=
        alike.enter advances.stacked top there stale'
      have plan : (again.enter node).planOf found'.address =
          (graph.enter node).planOf present.address := by
        rw [same, planOf_of_shape begun.shape]
        exact advances.grows.planOf entered address
      cases evaluates with
      | absent missing =>
          rw [there] at missing
          cases missing
      | cached here cache | circular here cache =>
          rw [there] at here
          cases here
          rw [stale'] at cache
          cases cache
      | calculated here _ runsAgain =>
          rw [there] at here
          cases here
          rw [plan] at runsAgain
          exact runs.repeats propagating entered enteredStack asks
            (planOf_propagates propagating entered present.address) calm _ _ _ begun
            (againStacked.enter there stale') runsAgain

/-- The run of a plan that puts no behavior in force ends in the same way if it is made again. -/
theorem Runs.repeats (propagating : vocabulary.Propagating) {plan : Plan (Option Value)}
    {frame after : Frame} {reply : Reply} :
    Runs plan frame reply after → frame.graph.WellFormed vocabulary → frame.graph.Stacked →
      plan.Asks (statedScope vocabulary) →
        plan.Propagates Transform.Propagates (fun fault => fault.isLocal = false) →
          after.graph.registrations ≤ frame.graph.registrations →
            ∀ (again last : Frame) (answer : Reply), after.graph.Alike again.graph →
              again.graph.Stacked → Runs plan again answer last → answer = reply
  | .finish, _, _, _, _, _ => by
      intro again last answer _ _ runs
      cases runs
      rfl
  | @Runs.note entry _ frame _ _ rest, formed, stacked, asks, propagates, calm => by
      intro again last answer alike againStacked runs
      have noted := Advances.record formed stacked (Record.inward_of_note asks.1)
      have logged := (logs_record frame.graph (Record.isFlush_of_inward (Record.inward_of_note asks.1))).registrations_le
      cases runs with
      | note restAgain =>
        exact rest.repeats propagating noted.formed noted.stacked asks.2 propagates
          (Nat.le_trans calm logged) { again with graph := again.graph.record entry } _ _
          (alike.record entry)
          ⟨againStacked.computing, againStacked.distinct, againStacked.outdated⟩ restAgain
  | @Runs.consult stat stage path resume frame _ after rest, formed, stacked, asks, propagates,
      calm => by
      intro again last answer alike againStacked runs
      cases runs with
      | consult restAgain =>
        have asksLater := asks.2 (frame.graph.transformsFor stat stage path) formed.transforms_within
        have behaviors : again.graph.behaviors = frame.graph.behaviors :=
          (congrArg Shape.behaviors alike.shape).trans
            ((rest.logs formed stacked asksLater).calm calm).1.behaviors
        have inForce : again.graph.transformsFor stat stage path =
            frame.graph.transformsFor stat stage path := by
          rw [transformsFor, transformsFor, behaviors]
        rw [inForce] at restAgain
        exact rest.repeats propagating formed stacked asksLater
          (propagates _ fun transform member => formed.heeded propagating member) calm _ _ _ alike
          againStacked restAgain
  | @Runs.answered _ _ _ reply _ _ _ refused rest, formed, stacked, asks, propagates, calm => by
      intro again last answer alike againStacked runs
      have located := advances_locate formed stacked asks.1
      have logged := (logs_locate formed stacked asks.1).registrations_le
      have answered : Plain reply := refused_plain refused
      rw [refused] at located logged
      have advances := located.trans
        (rest.advances located.formed located.stacked (asks.2 reply))
      have contributions : again.graph.contributions = _ :=
        (congrArg Shape.contributions alike.shape).trans advances.grows.contributions
      have refusedAgain := locate_of_refused refused contributions
      cases runs with
      | answered second restAgain =>
        rw [refusedAgain] at second
        cases second
        exact rest.repeats propagating located.formed located.stacked (asks.2 reply)
          (propagates_resume propagates answered) (Nat.le_trans calm logged) _ _ _ alike
          againStacked restAgain
      | read second =>
        rw [refusedAgain] at second
        cases second
  | @Runs.read query _ frame node grown reply graph _ after here evaluates rest, formed, stacked,
      asks, propagates, calm => by
      intro again last answer alike againStacked runs
      have asksLater := asks.2 reply
      have read := calmRead_of_runs formed stacked asks.1 here evaluates rest asksLater calm
      have answered := evaluates.plain
      have placeAgain : again.graph.located query = some node := by
        rw [located_of_shape alike.shape]
        exact read.located
      have repeats := evaluates.repeats propagating read.making.formed read.making.stacked
        read.addressed read.calmInside again.graph
      have goesOn := rest.repeats propagating read.evaluated.formed read.evaluated.stacked asksLater
        (propagates_resume propagates answered) read.calmRest (again.after node again.graph)
      -- the second run finds the same node
      cases runs with
      | answered second =>
        rw [locate_of_located placeAgain] at second
        cases second
      | read second evaluatesAgain restAgain =>
        rw [locate_of_located placeAgain] at second
        cases second
        cases reply with
        | error fault =>
          -- the first run ended with the fault, on the graph that the calculation left
          rw [propagates.1 fault (answered fault rfl)] at rest
          cases rest
          have repeated := repeats _ _ alike againStacked evaluatesAgain
          subst repeated
          rw [propagates.1 fault (answered fault rfl)] at restAgain
          cases restAgain
          rfl
        | ok value =>
          -- the value is still cached, so the second run goes on from the same graph
          have known : again.graph.known node = some value := by
            rw [alike.known]
            exact read.known value rfl
          obtain ⟨rfl, rfl⟩ := evaluates_known known evaluatesAgain
          exact goesOn _ _ alike againStacked restAgain

end

end Induction

namespace Graph

variable {vocabulary : Vocabulary} {graph middle other : Graph}

/-! ### Announcements that nobody hears -/

/-- Nothing but the journal has changed, and it has grown. -/
def Notes (graph other : Graph) : Prop :=
  ∃ added, other = { graph with journal := graph.journal ++ added }

theorem Notes.refl (graph : Graph) : graph.Notes graph := ⟨[], by rw [List.append_nil]⟩

theorem Notes.record (notes : graph.Notes middle) (entry : Record) :
    graph.Notes (middle.record entry) := by
  obtain ⟨added, rfl⟩ := notes
  exact ⟨added ++ [entry], by rw [Graph.record, List.append_assoc]⟩

theorem Notes.foldl {α : Type} {step : Graph → α → Graph} (items : List α)
    (keeps : ∀ middle item, graph.Notes middle → graph.Notes (step middle item))
    (notes : graph.Notes middle) : graph.Notes (items.foldl step middle) := by
  induction items generalizing middle with
  | nil => exact notes
  | cons item rest inductionHypothesis => exact inductionHypothesis (keeps middle item notes)

theorem notes_announceRoster (notes : graph.Notes middle) (change : SlotId × Delta ModifierId) :
    graph.Notes (middle.announceRoster change) := by
  unfold announceRoster
  split
  · exact notes
  · exact Notes.foldl _ (fun told id told' => told'.record _) notes

/-- Without subscribers of nodes a flush calculates nothing. -/
theorem notes_flush (unwatched : ∀ node present, graph.nodes.get? node = some present →
      present.subscribers = []) (announceRosters : Bool) :
    (graph.modifyPending Pending.cleared).Notes (graph.flush announceRosters) := by
  by_cases settled : graph.Settled
  · rw [flush_settled settled]
    exact .refl _
  · have informed : (graph.modifyPending Pending.cleared).Notes (graph.informed announceRosters) := by
      have begun : (graph.modifyPending Pending.cleared).Notes graph.begun := (Notes.refl _).record _
      unfold Graph.informed
      split
      · exact Notes.foldl _ (fun told change told' => notes_announceRoster told' change) begun
      · exact begun
    have unheard : (graph.pending.nodes.filter fun node =>
        0 < (graph.informed announceRosters).subscriberCount node) = [] := by
      obtain ⟨added, same⟩ := informed
      have nobody (node : NodeId) : (graph.informed announceRosters).subscriberCount node = 0 := by
        rw [same, subscriberCount]
        split
        · next present found =>
          rw [unwatched node present found]
          rfl
        · rfl
      exact List.filter_eq_nil_iff.mpr fun node _ => by simp [nobody node]
    rw [flush_unsettled settled, announced, unheard]
    exact informed

end Graph

namespace Sheet

open CharacterSheet.Graph

variable {vocabulary : Vocabulary} {sheet : Sheet}

theorem flushIfIdle_idle {graph : Graph} (idle : ¬ 0 < graph.pending.depth) :
    (sheet.withGraph graph).flushIfIdle =
      sheet.withGraph (graph.flush sheet.settings.announceRosters) := by
  rw [flushIfIdle, if_neg (show ¬ 0 < (sheet.withGraph graph).batchDepth from idle)]
  rfl

/-- A read that puts no behavior in force gives the same reply again. -/
theorem value_repeats (propagating : vocabulary.Propagating) (intact : sheet.graph.Intact vocabulary)
    (idle : sheet.batchDepth = 0) (unwatched : sheet.graph.subscriptions.isEmpty) {stat : Stat}
    {stage : Stage} {path : Path} (within : stat.HeadWithin vocabulary)
    (route : path.Within vocabulary)
    (calm : (sheet.value stat stage path).2.graph.registrations = sheet.graph.registrations) :
    ((sheet.value stat stage path).2.value stat stage path).1 = (sheet.value stat stage path).1 := by
  have asks : (Plan.read stat stage path).Asks (statedScope vocabulary) :=
    Plan.asks_read ⟨within, route⟩
  have reads := explores_perform intact.toResting asks
  have grows := (reads.advances intact.toResting).grows
  have explored : (sheet.graph.perform (Plan.read stat stage path)).2.Intact vocabulary :=
    intact.explore reads
  have flushes : (sheet.value stat stage path).2.graph =
      (sheet.graph.perform (Plan.read stat stage path)).2.flush sheet.settings.announceRosters := by
    have quiet : ¬ 0 < (sheet.graph.perform (Plan.read stat stage path)).2.pending.depth := by
      rw [grows.depth, show sheet.graph.pending.depth = 0 from idle]
      exact Nat.lt_irrefl 0
    exact congrArg Sheet.graph (flushIfIdle_idle quiet)
  obtain ⟨added, notes⟩ := notes_flush
    (fun node present => explored.watched.unwatched
      (grows.subscriptions.trans (Table.isEmpty_iff.mp unwatched)))
    sheet.settings.announceRosters
  have rested := (intact_flush explored sheet.settings.announceRosters).toResting
  rw [← flushes] at notes rested
  have alike : (sheet.graph.perform (Plan.read stat stage path)).2.Alike
      (sheet.value stat stage path).2.graph := by
    rw [notes]
    exact ⟨rfl, rfl, rfl⟩
  have silent : (sheet.graph.perform (Plan.read stat stage path)).2.registrations ≤
      sheet.graph.registrations := by
    rw [← calm, notes, registrations, registrations, List.countP_append]
    exact Nat.le_add_right _ _
  obtain ⟨_, first⟩ := runs_perform intact.toResting asks
  obtain ⟨_, second⟩ := runs_perform rested asks
  exact first.repeats propagating intact.formed intact.stacked asks (Plan.propagates_read ..) silent
    _ _ _ alike rested.stacked second

end Sheet

/-- After any operations that swallow no fault, outside of any batch and without subscriptions, a
read gives the same reply again unless behaviors came into force while it was made. -/
theorem reads_repeat_without_new_behaviors (settings : Settings) (retention : Retention)
    (operations : List Operation)
    (within : ∀ operation ∈ operations, operation.Within .heeding)
    (stat : Stat) (stage : Stage) (path : Path) (named : stat.HeadWithin .heeding)
    (route : path.Within .heeding) :
    let sheet := Sheet.run { settings, retention } operations
    let first := sheet.value stat stage path
    sheet.batchDepth = 0 → sheet.graph.subscriptions.isEmpty →
      first.2.graph.registrations = sheet.graph.registrations →
        (first.2.value stat stage path).1 = first.1 := by
  intro sheet first idle unwatched calm
  have intact : sheet.graph.Intact .heeding :=
    (Sheet.reachable_run (.new settings retention) within).intact Vocabulary.closed_heeding
  exact Sheet.value_repeats Vocabulary.propagating_heeding intact idle unwatched named route calm

/-- A modifier that reads a total and then the stat that sets it. -/
def auraReader : Modifier :=
  { id := ⟨1⟩, stats := [.named "Reader"], form := .baseAdd
    value := .sum [.total (.named "Power"), .total aura] }

section Within

variable {formula : Formula → Prop} {behavior : Behavior → Prop} {path : Path → Prop}
  {main : path .main}

theorem named_within_bounding (name : String) :
    (Stat.named name).Within (.bounding formula behavior path main) := by
  simp [Stat.named, Stat.plain, Stat.Within, Role.Within, BoundWithin, BehaviorsWithin,
    Vocabulary.bounding]

theorem aura_within_bounding (allowed : ∀ present ∈ aura.behaviors, behavior present) :
    aura.Within (.bounding formula behavior path main) :=
  ⟨trivial, trivial, trivial, trivial, ⟨allowed _ List.mem_cons_self, trivial⟩, trivial⟩

theorem auraReader_within_bounding (allowed : ∀ present ∈ aura.behaviors, behavior present)
    (heeded : formula auraReader.value) :
    auraReader.Within (.bounding formula behavior path main) where
  stats := by
    rintro stat (_ | ⟨_, ⟨⟩⟩)
    exact (named_within_bounding "Reader").headWithin
  value := ⟨heeded, ⟨named_within_bounding "Power", main, trivial⟩,
    ⟨aura_within_bounding allowed, main, trivial⟩, trivial⟩
  condition := fun _ none => nomatch none

end Within

theorem aura_propagates : ∀ behavior ∈ aura.behaviors, behavior.transform.Propagates := by
  rintro behavior (_ | ⟨_, ⟨⟩⟩)
  exact Transform.propagates_of_heeds rfl

theorem auraReader_propagates : auraReader.value.Propagates := Formula.propagates_of_heeds _ rfl

/-- Once the stat that sets the total is on the sheet, reads repeat. -/
theorem reader_repeats :
    let sheet := Sheet.run {} [.add auraReader, .value aura .total .main]
    let first := sheet.value (.named "Reader") .total .main
    (first.2.value (.named "Reader") .total .main).1 = first.1 := by
  have within : ∀ operation ∈ [Operation.add auraReader, .value aura .total .main],
      operation.Within .heeding := by
    rintro operation (_ | ⟨_, _ | ⟨_, ⟨⟩⟩⟩)
    · exact auraReader_within_bounding aura_propagates auraReader_propagates
    · exact ⟨(aura_within_bounding aura_propagates).headWithin, .main⟩
  exact reads_repeat_without_new_behaviors {} {} _ within (.named "Reader") .total .main
    (named_within_bounding _).headWithin .main (by decide +kernel) (by decide +kernel)
    (by decide +kernel)

/-- A read hands out a value although a behavior that came into force meanwhile has changed it. -/
theorem reader_differs : ¬ ∀ settings retention operations,
    (∀ operation ∈ operations, operation.Within .heeding) →
      ∀ stat stage path, stat.HeadWithin .heeding → path.Within .heeding →
        let sheet := Sheet.run { settings, retention } operations
        let first := sheet.value stat stage path
        sheet.batchDepth = 0 → sheet.graph.subscriptions.isEmpty →
          (first.2.value stat stage path).1 = first.1 := by
  intro same
  have again := same {} {} [.add auraReader] (by
    rintro operation (_ | ⟨_, ⟨⟩⟩)
    exact auraReader_within_bounding aura_propagates auraReader_propagates) (.named "Reader") .total
    .main (named_within_bounding _).headWithin .main (by decide +kernel) (by decide +kernel)
  exact absurd again (by decide +kernel)

end CharacterSheet
