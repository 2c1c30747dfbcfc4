import CharacterSheet.Proofs.Change.Shifting
import CharacterSheet.Proofs.History.Sights

/-!
Contract: every number that a sheet keeps leads to the node that it was kept for.

Owns:
- announcements are tours of the subscribers that they call;
- the coming and going of modifiers, sweeps and the ends of batches keep a graph tidy;
- the history of a run: the graph behind a sheet between operations, and all graphs that value functions
  and subscribers see in the course of one;
- in every history all graphs are indexed, and a node that is there twice has neither been replaced
  nor moved in between.
-/

namespace CharacterSheet

open CharacterSheet.Graph

/-! ### Announcements -/

namespace Graph

variable {graph other : Graph}

theorem readAll_eq (graph : Graph) (readings : List Reading) :
    (graph.readAll readings).2 =
      readings.foldl (fun graph reading => (graph.readFor reading).2) graph := by
  induction readings generalizing graph with
  | nil => rfl
  | cons reading rest inductionHypothesis => exact inductionHypothesis (graph.readFor reading).2

theorem tours_settle (live : graph.Live .everything) (node : NodeId) :
    Tours .everything graph (graph.valueSights node) (graph.settle node) := by
  have reads : Tours .everything graph (graph.valueSights node) (graph.valueOf node).2 :=
    guides_valueOf node graph _ _ rfl live
  unfold settle
  generalize graph.valueOf node = outcome at reads ⊢
  rcases outcome with ⟨fault | value, after⟩
  · dsimp only at reads ⊢
    split
    · exact reads.record _
    · exact reads
  · exact reads

/-- A subscriber that is called reads what it likes. -/
theorem tours_tell (live : graph.Live .everything) (name : NodeName) (subscriber : Subscriber) :
    Tours .everything graph (graph.tellSights subscriber) (tell name graph subscriber) := by
  have asks (reading : Reading) :
      (Plan.read reading.stat reading.stage reading.path).Asks (statedScope .everything) :=
    Plan.asks_read ⟨reading.stat.within_everything.headWithin, reading.path.within_everything⟩
  have reads : Tours .everything graph
      (Graph.along (fun graph reading => (graph.readFor reading).2)
        (fun graph reading =>
          graph.performSights (Plan.read reading.stat reading.stage reading.path))
        graph subscriber.reads)
      (subscriber.reads.foldl (fun graph reading => (graph.readFor reading).2) graph) :=
    Tours.along live fun graph live reading _ => tours_perform (asks reading) live
  have told : tell name graph subscriber = (graph.readAll subscriber.reads).2.record
      (.valueChanged subscriber.id name (graph.readAll subscriber.reads).1) := rfl
  rw [told, readAll_eq]
  exact ((Tours.look live).trans reads).record _

theorem tours_announceNode (live : graph.Live .everything) (node : NodeId) :
    Tours .everything graph (graph.nodeSights node) (graph.announceNode node) := by
  have settles := tours_settle live node
  unfold nodeSights announceNode
  dsimp only
  cases (graph.settle node).nodes.get? node with
  | none =>
      rw [List.append_nil]
      exact settles
  | some present => exact settles.trans (Tours.along settles.live fun graph live subscriber _ =>
      tours_tell live _ subscriber)

theorem tours_announceRoster (live : graph.Live .everything)
    (change : SlotId × Delta ModifierId) :
    Tours .everything graph (graph.rosterSights change) (graph.announceRoster change) := by
  unfold rosterSights announceRoster
  cases graph.roster? change.1 with
  | none => exact .refl live
  | some roster => exact Tours.along live fun graph live id _ =>
      (Tours.look live).record _

/-- Nothing waits any more once an announcement has begun. -/
theorem tours_cleared (live : graph.Live .everything) :
    Tours .everything graph [] (graph.modifyPending Pending.cleared) :=
  .unseen live (.aside rfl rfl nofun) { Extends.refl graph with }
    (live.formed.of_shape (shape_modifyPending graph _))
    ⟨live.stacked.computing, live.stacked.distinct, live.stacked.outdated⟩ rfl

theorem tours_flush (live : graph.Live .everything) (announceRosters : Bool) :
    Tours .everything graph (graph.flushSights announceRosters) (graph.flush announceRosters) := by
  have clears := tours_cleared live
  by_cases settled : graph.Settled
  · rw [flush_settled settled]
    simpa [flushSights, settled.1, settled.2, announced, announcementOrder, Graph.along] using clears
  · rw [flush_unsettled settled]
    have begins : Tours .everything graph [] graph.begun :=
      clears.record _
    have informs : Tours .everything graph
        (if announceRosters then
          Graph.along announceRoster rosterSights graph.begun graph.pending.changedSlots else [])
        (graph.informed announceRosters) := by
      unfold informed
      split
      · exact begins.trans (Tours.along begins.live fun graph live change _ =>
          tours_announceRoster live change)
      · exact begins
    have orders : Tours .everything (graph.informed announceRosters) []
        (graph.announced announceRosters).2 := by
      unfold announced
      rcases announcementOrder_graph (graph.informed announceRosters) (graph.pending.nodes.filter
        fun node => 0 < (graph.informed announceRosters).subscriberCount node) with same | same
      · rw [same]
        exact .refl informs.live
      · rw [same]
        exact (Tours.refl informs.live).record _
    exact informs.trans (orders.trans (Tours.along orders.live fun graph live node _ =>
      tours_announceNode live node))

/-! ### Modifiers that come and go -/

variable {vocabulary : Vocabulary}

theorem maintains_shift (shift : Shift vocabulary graph other) : graph.Maintains other := by
  cases shift with
  | note => exact maintains_record graph _
  | introduce => exact (maintains_addNode graph _).trans (.aside rfl rfl fun _ => id)
  | obtain => exact maintains_obtain graph _ _ _
  | @amend slot filled pipeline change memberships widens =>
      have enters : graph.Maintains ((graph.enterRoster slot filled memberships).modifyPending
          (·.submitSlot slot change)) := by
        refine .aside rfl rfl fun node member => ?_
        have nodes : (graph.pending.submitSlot slot change).nodes = graph.pending.nodes := by
          unfold Pending.submitSlot
          split <;> rfl
        exact nodes ▸ member
      exact enters.trans (maintains_invalidateAll _ _)
  | @relink entry links source target =>
      have notes : graph.Maintains ({ graph with links }.record entry) := .aside rfl rfl fun _ => id
      rw [relink, linkChanged_eq]
      exact notes.trans (maintains_invalidateAll _ _)
  | @depart node _ modifiers contributions =>
      exact (maintains_removeNodes graph (List.nodup_singleton node)).trans
        (.aside rfl rfl fun _ => id)

theorem maintains_turnover (closed : vocabulary.Closed) (intact : graph.Intact vocabulary)
    {operation : Operation} (within : operation.Within vocabulary) :
    graph.Maintains (operation.turnover graph) :=
  (operation.shifts_turnover closed intact within).keeps .refl (fun _ _ _ => .trans)
    fun _ _ _ => maintains_shift

/-! ### Sweeps -/

/-- Every pipeline stands under the stat that it carries. -/
theorem WellFormed.stats_eq_keys (formed : graph.WellFormed vocabulary) :
    graph.pipelines.values.map (·.stat.id) = graph.pipelines.keys := by
  rw [Table.values, List.map_map, Table.keys]
  refine List.map_congr_left fun entry member => ?_
  exact (formed.pipelines entry.1 entry.2 ((Table.get?_eq_some_iff _ _ _).mpr member)).keyed

/-- A sweep removes no node twice, since every node is listed once. -/
theorem nodup_sweptNodes (formed : graph.WellFormed vocabulary) (rules : Retention) :
    (graph.sweptNodes rules).Nodup := by
  have listing {pipeline : Pipeline} (there : pipeline ∈ graph.pipelines.values)
      {stage : Stage} {path : PathId} {node : NodeId} (listed : ((stage, path), node) ∈ pipeline.nodes.entries) :
      graph.nameOf? node = some (.pipeline pipeline.stat.id stage path) := by
    obtain ⟨stat, here⟩ := (Table.mem_values_iff _ _).mp there
    obtain ⟨full, found, rfl, _⟩ := formed.listed stat pipeline stage path node here
      ((Table.get?_eq_some_iff _ _ _).mpr listed)
    obtain ⟨present, found, address⟩ := Option.map_eq_some_iff.mp found
    rw [nameOf?, found, Option.map_some, address, (formed.pipelines stat pipeline here).keyed]
    rfl
  have apart : (graph.pipelines.values.map (·.stat.id)).Nodup :=
    formed.stats_eq_keys ▸ graph.pipelines.nodup_keys
  refine List.nodup_flatMap.mpr ⟨fun pipeline considered => ?_, ?_⟩
  · have there := List.mem_of_mem_filter considered
    refine List.Nodup.map_on ?_ (pipeline.nodes.distinct.of_map.filter _)
    rintro ⟨⟨stage, path⟩, node⟩ member ⟨⟨level, place⟩, _⟩ another rfl
    have first := listing there (List.mem_of_mem_filter member)
    have second := listing there (List.mem_of_mem_filter another)
    cases first.symm.trans second
    rfl
  · refine ((List.pairwise_map.mp apart).filter _).imp_of_mem ?_
    intro pipeline another considered present differ node removed again
    obtain ⟨⟨⟨stage, path⟩, _⟩, member, rfl⟩ := List.mem_map.mp removed
    obtain ⟨⟨⟨level, place⟩, _⟩, listed, same⟩ := List.mem_map.mp again
    cases same
    have first := listing (List.mem_of_mem_filter considered) (List.mem_of_mem_filter member)
    have second := listing (List.mem_of_mem_filter present) (List.mem_of_mem_filter listed)
    exact differ (NodeName.pipeline.inj (Option.some.inj (first.symm.trans second))).1

theorem maintains_removeSlot (graph : Graph) (slot : SlotId) :
    graph.Maintains (graph.removeSlot slot) := .aside rfl rfl fun _ => id

theorem maintains_relax (graph : Graph) (node : NodeId) : graph.Maintains (graph.relax node) := by
  unfold relax
  split
  · exact .refl graph
  · split
    · exact .of_ground (ground_modifyNode _ node fun _ => ⟨rfl, rfl⟩) List.filter_sublist
        fun _ _ => .inl
    · exact .aside (graph.ground_modifyNode node fun _ => ⟨rfl, rfl⟩) rfl fun _ => id

theorem maintains_removePipeline (graph : Graph) (stat : StatId) :
    graph.Maintains (graph.removePipeline stat) := by
  have closes : graph.Maintains (graph.close stat) := .aside rfl rfl fun _ => id
  have lifts : graph.Maintains ((graph.close stat).lift stat) := .aside rfl rfl fun _ => id
  rw [removePipeline_eq]
  split
  · split
    · exact closes
    · split
      · exact lifts
      · exact (lifts.trans (maintains_record _ _)).trans (maintains_invalidateAll _ _)
  · exact .refl graph

theorem maintains_sweep (intact : graph.Intact vocabulary) (rules : Retention) :
    graph.Maintains (graph.sweep rules).2 := by
  have thins : graph.Maintains (graph.thinned rules) :=
    (maintains_removeNodes graph (nodup_sweptNodes intact.formed rules)).trans
      (.foldl _ (fun graph slot _ => maintains_removeSlot graph slot) _)
  have relaxes : graph.Maintains (graph.relaxed rules) :=
    thins.trans (.foldl _ (fun graph node _ => maintains_relax graph node) _)
  have sweeps : graph.Maintains (graph.swept rules) :=
    relaxes.trans (.foldl _ (fun graph stat _ => maintains_removePipeline graph stat) _)
  exact sweep_induction (.refl graph) sweeps fun _ entry swept =>
    swept.trans (maintains_record _ entry)

/-! ### Subscriptions and registrations -/

theorem maintains_subscribeRoster (graph : Graph) (stat : Stat) (form : Form) (path : Path) :
    graph.Maintains (graph.subscribeRoster stat form path).2 := by
  rw [subscribeRoster_eq]
  split
  · exact (maintains_ensurePipeline graph stat).trans (.aside rfl rfl fun _ => id)
  · exact .refl graph

theorem maintains_unsubscribe (graph : Graph) (id : SubscriptionId) :
    graph.Maintains (graph.unsubscribe id).2 := by
  unfold unsubscribe
  split
  · exact .refl graph
  · next target _ =>
    cases target with
    | node node => exact .aside (ground_modifyNode _ node fun _ => ⟨rfl, rfl⟩) rfl fun _ waits => waits
    | slot slot => exact .aside rfl rfl fun _ waits => waits

theorem maintains_obtain? (graph : Graph) (stat : Stat) (stage : Stage) (path : Path) :
    graph.Maintains (graph.obtain? stat stage path).2 := by
  unfold obtain?
  split
  · exact maintains_obtain graph stat stage path
  · exact .refl graph

theorem maintains_registering (graph : Graph) (stat : Stat) :
    graph.Maintains (Sheet.registering stat graph).2 := by
  have obtains := maintains_obtain? graph stat .total .main
  unfold Sheet.registering
  split
  · next outcome => rwa [outcome] at obtains
  · next grown outcome =>
    rw [outcome] at obtains
    split
    · exact obtains
    · exact obtains.trans (.aside rfl rfl fun _ => id)

/-! ### The ends of batches -/

/-- Between a tidy graph and another one that is tidy only indexed graphs are seen. -/
def Passage (graph : Graph) (seen : List Graph) (other : Graph) : Prop :=
  graph.Tidy → other.Tidy ∧ graph.Passes seen other

theorem Maintains.passage (maintains : graph.Maintains other) : graph.Passage [] other := maintains

theorem Passage.trans {middle : Graph} {seen more : List Graph}
    (first : graph.Passage seen middle) (second : middle.Passage more other) :
    graph.Passage (seen ++ more) other := by
  intro tidy
  obtain ⟨between, passes⟩ := first tidy
  obtain ⟨last, later⟩ := second between
  exact ⟨last, passes.trans later⟩

/-- A tour from a tidy graph is a passage. -/
theorem Passage.of_tours {seen : List Graph} (intact : graph.Intact .everything)
    (agrees : graph.Agrees)
    (tours : graph.Live .everything → Tours .everything graph seen other) :
    graph.Passage seen other := by
  intro tidy
  have toured := tours ⟨intact.formed, intact.stacked, agrees, tidy⟩
  exact ⟨toured.live.tidy, toured.passes⟩

/-- What is seen when the outermost batch ends. -/
def concludedSights (settings : Settings) (rules : Retention) (graph : Graph) : List Graph :=
  graph.flushSights settings.announceRosters ++
    if settings.sweepAfterBatch then
      let swept := ((graph.flush settings.announceRosters).sweep rules).2
      if swept.pending.isEmpty then [] else swept.flushSights settings.announceRosters
    else []

section Ending

variable (intact : graph.Intact .everything) (agrees : graph.Agrees)
include intact agrees

theorem passage_flush (announceRosters : Bool) :
    graph.Passage (graph.flushSights announceRosters) (graph.flush announceRosters) :=
  .of_tours intact agrees fun live => tours_flush live announceRosters

theorem passage_sweep (rules : Retention) :
    graph.Passage [] (graph.sweep rules).2 ∧ (graph.sweep rules).2.Intact .everything ∧
      (graph.sweep rules).2.Agrees :=
  ⟨maintains_sweep intact rules, intact_sweep rules intact,
    agrees.keep (sameSeats_sweep rules intact)⟩

theorem passage_concluded (settings : Settings) (rules : Retention) :
    graph.Passage (graph.concludedSights settings rules) (graph.concluded settings rules) := by
  have first := passage_flush intact agrees settings.announceRosters
  have flushed := intact_flush intact settings.announceRosters
  have agreed := agrees.keep (.of_extends (extends_flush intact settings.announceRosters))
  obtain ⟨sweeps, swept, kept⟩ := passage_sweep flushed agreed rules
  unfold concludedSights concluded
  dsimp only
  split
  · split
    · exact first.trans sweeps
    · exact first.trans (sweeps.trans (passage_flush swept kept settings.announceRosters))
  · rw [List.append_nil]
    exact first

end Ending

end Graph

/-! ### Operations -/

namespace Sheet

/-- What is seen when a batch is closed. -/
def endSights (sheet : Sheet) : List Graph :=
  match sheet.batchDepth with
  | 1 => (sheet.graph.modifyPending fun pending =>
      { pending with depth := 0 }).concludedSights sheet.settings sheet.retention
  | _ => []

/-- What is seen when a change is made in a batch of its own. -/
def batchSights (sheet : Sheet) (change : Graph → Graph) : List Graph :=
  (sheet.beginBatch.withGraph (change sheet.beginBatch.graph)).endSights

/-- What is seen when all changes that wait are announced, unless a batch is open. -/
def idleSights (sheet : Sheet) : List Graph :=
  if 0 < sheet.batchDepth then [] else sheet.graph.flushSights sheet.settings.announceRosters

/-- What is seen while a plan is run for a caller. -/
def readSights {α : Type} (sheet : Sheet) (plan : Plan α) : List Graph :=
  sheet.graph.performSights plan ++ (sheet.withGraph (sheet.graph.perform plan).2).idleSights

/-- What value functions and subscribers see in the course of an operation. -/
def sights (sheet : Sheet) : Operation → List Graph
  | .add modifier => sheet.batchSights fun graph => (graph.addModifier modifier).2
  | .addAll modifiers => sheet.batchSights fun graph => (addEach graph modifiers 0).2
  | .remove id => sheet.batchSights fun graph => (graph.removeModifier id).2
  | .removeAll ids => sheet.batchSights fun graph => (removeEach graph ids 0).2
  | .value stat stage path => sheet.readSights (Plan.read stat stage path)
  | .breakdown stat => sheet.readSights (sheet.graph.breakdownPlan stat)
  | .subscribe stat stage path reads =>
      if stat.isResolved then
        let node := (sheet.graph.obtain stat stage path).1
        let watched := sheet.graph.obtainWatched stat stage path reads
        watched.valueSights node ++ (sheet.withGraph (watched.settle node)).idleSights
      else []
  | .register stat => sheet.batchSights fun graph => (registering stat graph).2
  | .unregister stat => sheet.batchSights fun graph =>
      { graph with registered := graph.registered.filter (· ≠ stat) }
  | .endBatch | .closeBlock => sheet.endSights
  | .sweep =>
      match sheet.sweepOnly with
      | (.error _, _) => []
      | (.ok _, swept) => swept.graph.flushSights swept.settings.announceRosters
  | .subscribeRoster .. | .unsubscribe _ | .beginBatch | .retain _ => []

variable {sheet : Sheet} {registry : Registry}

theorem passage_endBatch (intact : sheet.graph.Intact .everything) (agrees : sheet.graph.Agrees) :
    sheet.graph.Passage sheet.endSights sheet.endBatch.2.graph := by
  have deepens (depth : Nat) : sheet.graph.Passage []
      (sheet.graph.modifyPending fun pending => { pending with depth }) :=
    Maintains.aside rfl rfl fun _ => id
  rw [endBatch_eq intact, endSights]
  rcases sheet.batchDepth with _ | _ | depth
  · exact Maintains.refl sheet.graph
  · exact (deepens 0).trans (passage_concluded (intact.deepen 0)
      (agrees.keep (.of_same rfl rfl rfl rfl)) sheet.settings sheet.retention)
  · exact deepens (depth + 1)

/-- A change that keeps a graph tidy may be made in a batch of its own. -/
theorem passage_inBatch {α : Type} {change : Graph → Except Fault α × Graph}
    (intact : (change sheet.beginBatch.graph).2.Intact .everything)
    (agrees : (change sheet.beginBatch.graph).2.Agrees)
    (maintains : sheet.beginBatch.graph.Maintains (change sheet.beginBatch.graph).2) :
    sheet.graph.Passage (sheet.batchSights fun graph => (change graph).2)
      (sheet.inBatch change).2.graph := by
  have begins : sheet.graph.Passage [] sheet.beginBatch.graph :=
    Maintains.aside rfl rfl fun _ => id
  have ends : (sheet.beginBatch.withGraph (change sheet.beginBatch.graph).2).graph.Passage
      (sheet.batchSights fun graph => (change graph).2) (sheet.inBatch change).2.graph :=
    passage_endBatch intact agrees
  exact begins.trans (maintains.passage.trans ends)

theorem passage_flushIfIdle (intact : sheet.graph.Intact .everything)
    (agrees : sheet.graph.Agrees) :
    sheet.graph.Passage sheet.idleSights sheet.flushIfIdle.graph := by
  unfold idleSights flushIfIdle
  split
  · exact Maintains.refl sheet.graph
  · exact passage_flush intact agrees sheet.settings.announceRosters

theorem passage_read (intact : sheet.graph.Intact .everything) (agrees : sheet.graph.Agrees)
    {α : Type} {plan : Plan α} (asks : plan.Asks (statedScope .everything)) :
    sheet.graph.Passage (sheet.readSights plan)
      (sheet.withGraph (sheet.graph.perform plan).2).flushIfIdle.graph := by
  have explores := explores_perform intact.toResting asks
  have reads : sheet.graph.Passage (sheet.graph.performSights plan) (sheet.graph.perform plan).2 :=
    .of_tours intact agrees (tours_perform asks)
  have last : (sheet.withGraph (sheet.graph.perform plan).2).graph.Passage
      (sheet.withGraph (sheet.graph.perform plan).2).idleSights
      (sheet.withGraph (sheet.graph.perform plan).2).flushIfIdle.graph :=
    passage_flushIfIdle (intact.explore explores) (agrees.keep (.of_explores intact explores))
  exact reads.trans last

/-- A new subscriber has its node calculated, and what waits may be announced. -/
theorem passage_subscribe (intact : sheet.graph.Intact .everything)
    (honors : sheet.graph.Honors registry) (stat : Stat) (stage : Stage) (path : Path)
    (reads : List Reading) :
    sheet.graph.Passage (sheet.sights (.subscribe stat stage path reads))
      (sheet.subscribe stat stage path reads).2.graph := by
  have named : stat.HeadWithin .everything := stat.within_everything.headWithin
  have route : path.Within .everything := path.within_everything
  have readings (reading : Reading) (_ : reading ∈ reads) : reading.Within .everything :=
    ⟨reading.stat.within_everything.headWithin, reading.path.within_everything⟩
  unfold sights subscribe
  rw [subscribe_eq]
  by_cases resolved : stat.isResolved = true
  · simp only [if_pos resolved]
    have watches : sheet.graph.Maintains (sheet.graph.obtainWatched stat stage path reads) :=
      (maintains_obtain sheet.graph stat stage path).trans
        (.aside (ground_modifyNode _ _ fun _ => ⟨rfl, rfl⟩) rfl fun _ => id)
    have watched : (sheet.graph.obtainWatched stat stage path reads).Intact .everything :=
      intact_obtainWatched intact resolved named route readings
    have agrees : (sheet.graph.obtainWatched stat stage path reads).Agrees :=
      (honors_obtainWatched intact honors resolved named route reads).toAgrees
    have explores : Explores .everything (sheet.graph.obtainWatched stat stage path reads)
        ((sheet.graph.obtainWatched stat stage path reads).settle
          (sheet.graph.obtain stat stage path).1) :=
      explores_settleWatched intact resolved named route readings
    have settles := Passage.of_tours watched agrees fun live =>
      tours_settle live (sheet.graph.obtain stat stage path).1
    have settled := watched.explore explores
    have seats := agrees.keep (.of_explores watched explores)
    generalize (sheet.graph.obtainWatched stat stage path reads).settle
      (sheet.graph.obtain stat stage path).1 = after at settles settled seats ⊢
    have last : (sheet.withGraph after).graph.Passage (sheet.withGraph after).idleSights
        (sheet.withGraph after).flushIfIdle.graph := passage_flushIfIdle settled seats
    exact watches.passage.trans (settles.trans last)
  · simp only [if_neg resolved]
    exact Maintains.refl sheet.graph

/-- In the course of an operation only indexed graphs are seen, and it keeps a graph tidy. -/
theorem passage_apply (intact : sheet.graph.Intact .everything)
    (honors : sheet.graph.Honors registry) (operation : Operation) :
    sheet.graph.Passage (sheet.sights operation) (sheet.apply operation).graph := by
  have agrees := honors.toAgrees
  have begun : sheet.beginBatch.graph.Intact .everything := intact.deepen _
  have opened : sheet.beginBatch.graph.Agrees := agrees.keep (.of_same rfl rfl rfl rfl)
  have within := operation.within_everything
  have changed := intact_turnover Vocabulary.closed_everything begun within
  have seats := opened.keep (.of_audience begun.watched.attended
    (turns_turnover Vocabulary.closed_everything begun within).1.audience)
  have maintains := maintains_turnover Vocabulary.closed_everything begun within
  cases operation with
  | add modifier => exact passage_inBatch changed seats maintains
  | addAll modifiers => exact passage_inBatch changed seats maintains
  | remove id => exact passage_inBatch changed seats maintains
  | removeAll ids => exact passage_inBatch changed seats maintains
  | value stat stage path => exact passage_read intact agrees (Plan.asks_read within)
  | breakdown stat => exact passage_read intact agrees (breakdownPlan_asks intact.formed within)
  | subscribe stat stage path reads => exact passage_subscribe intact honors stat stage path reads
  | subscribeRoster stat form path => exact maintains_subscribeRoster sheet.graph stat form path
  | unsubscribe id => exact maintains_unsubscribe sheet.graph id
  | register stat =>
      have stirs := stirs_registering sheet.beginBatch.graph within
      exact passage_inBatch (stirs.intact begun)
        (opened.keep (sameSeats_registering begun within))
        (maintains_registering sheet.beginBatch.graph stat)
  | unregister stat =>
      exact passage_inBatch (begun.register _) (opened.keep (.of_same rfl rfl rfl rfl))
        (.aside rfl rfl fun _ => id)
  | beginBatch => exact Maintains.aside rfl rfl fun _ => id
  | endBatch => exact passage_endBatch intact agrees
  | closeBlock =>
      have ends := passage_endBatch intact agrees
      show sheet.graph.Passage sheet.endSights sheet.closeBlock.graph
      unfold closeBlock
      split
      · next outcome => rwa [outcome] at ends
      · next outcome =>
        rw [outcome] at ends
        exact List.append_nil sheet.endSights ▸ ends.trans (maintains_record _ _).passage
  | sweep =>
      obtain ⟨sweeps, swept, kept⟩ := passage_sweep intact agrees sheet.retention
      show sheet.graph.Passage (match sheet.sweepOnly with
        | (.error _, _) => []
        | (.ok _, swept) => swept.graph.flushSights swept.settings.announceRosters)
        sheet.sweep.2.graph
      unfold sweep sweepOnly
      generalize sheet.graph.sweep sheet.retention = outcome at sweeps swept kept ⊢
      obtain ⟨_ | report, after⟩ := outcome
      · exact sweeps
      · exact sweeps.trans (passage_flush swept kept sheet.settings.announceRosters)
  | retain rules => exact Maintains.refl sheet.graph

/-! ### Histories -/

/-- The graph behind a sheet before and after each of some operations, and in between all that is seen
in the course of each. -/
def history (sheet : Sheet) : List Operation → List Graph
  | [] => [sheet.graph]
  | operation :: rest =>
      sheet.graph :: (sheet.sights operation ++ (sheet.apply operation).history rest)

theorem passage_history (intact : sheet.graph.Intact .everything)
    (honors : sheet.graph.Honors registry) (operations : List Operation) :
    sheet.graph.Passage (sheet.history operations) (sheet.run operations).graph := by
  have looks : sheet.graph.Passage [sheet.graph] sheet.graph :=
    .of_tours intact honors.toAgrees Tours.look
  induction operations generalizing sheet registry with
  | nil => exact looks
  | cons operation rest inductionHypothesis =>
      have within := operation.within_everything
      have later := intact_apply Vocabulary.closed_everything intact within
      have kept := honors_apply Vocabulary.closed_everything intact honors within
      exact looks.trans ((passage_apply intact honors operation).trans
        (inductionHypothesis later kept (.of_tours later kept.toAgrees Tours.look)))

end Sheet

namespace Graph

variable {graph other : Graph}

/-- Whether a node waits to be announced or is subscribed to. -/
def Holds (graph : Graph) (node : NodeId) : Prop :=
  node ∈ graph.pending.nodes ∨ ∃ id, graph.subscriptions.get? id = some (.node node)

theorem Indexed.held (indexed : graph.Indexed) {node : NodeId} (holds : graph.Holds node) :
    ∃ present, graph.nodes.get? node = some present :=
  Table.contains_iff.mp (holds.elim (indexed.waiting node) fun ⟨id, listed⟩ =>
    indexed.targets id node listed)

/-- No node is replaced between an earlier and a later graph, although its place may be given out
again once it is gone. -/
structure Precedes (graph other : Graph) : Prop where
  next : graph.nextNode ≤ other.nextNode
  /-- Whatever has a number that had been given out was there already. -/
  kept : ∀ node later, other.nodes.get? node = some later → node.number < graph.nextNode →
    ∃ earlier, graph.nodes.get? node = some earlier ∧ later.address = earlier.address ∧
      later.place = earlier.place
  /-- A node that was there and is held now calculates what it calculated then and stands where it
  stood, and nothing else stands there. -/
  held : ∀ node earlier, graph.nodes.get? node = some earlier → other.Holds node →
    ∃ later, other.nodes.get? node = some later ∧ later.address = earlier.address ∧
      later.place = earlier.place ∧ ∀ another present,
        other.nodes.get? another = some present → present.place = earlier.place → another = node

theorem precedes_of_evolves (before : graph.Indexed) (after : other.Indexed)
    (evolves : graph.ground.Evolves other.ground) : graph.Precedes other := by
  have kept (node : NodeId) (later : Node) (found : other.nodes.get? node = some later)
      (early : node.number < graph.nextNode) :
      ∃ earlier, graph.nodes.get? node = some earlier ∧ later.address = earlier.address ∧
        later.place = earlier.place := by
    have there : ⟨node, later.address, later.place⟩ ∈ other.ground.sites :=
      (other.mem_sites_iff _).mpr ⟨later, found, rfl, rfl⟩
    obtain ⟨earlier, was, address, place⟩ :=
      (graph.mem_sites_iff _).mp (evolves.precedes.kept _ there early)
    exact ⟨earlier, was, address.symm, place.symm⟩
  refine ⟨evolves.precedes.next, kept, fun node earlier was holds => ?_⟩
  obtain ⟨later, found⟩ := after.held holds
  obtain ⟨same, found', address, place⟩ := kept node later found (before.numbered node earlier was)
  cases Option.some.inj (was.symm.trans found')
  exact ⟨later, found, address, place, fun another present there stands =>
    after.placed another node present later there found (stands.trans place.symm)⟩

theorem Passes.indexed {seen : List Graph} (passes : graph.Passes seen other) :
    ∀ moment ∈ seen, moment.Indexed := by
  induction seen generalizing graph with
  | nil => exact fun _ member => absurd member List.not_mem_nil
  | cons next rest inductionHypothesis =>
      exact List.forall_mem_cons.mpr ⟨passes.2.1, inductionHypothesis passes.2.2⟩

theorem Passes.evolves {seen : List Graph} (passes : graph.Passes seen other) :
    ∀ moment ∈ seen, graph.ground.Evolves moment.ground := by
  induction seen generalizing graph with
  | nil => exact fun _ member => absurd member List.not_mem_nil
  | cons next rest inductionHypothesis =>
      exact List.forall_mem_cons.mpr ⟨passes.1, fun moment member =>
        passes.1.trans (inductionHypothesis passes.2.2 moment member)⟩

theorem Passes.pairwise {seen : List Graph} (passes : graph.Passes seen other) :
    seen.Pairwise Precedes := by
  induction seen generalizing graph with
  | nil => exact .nil
  | cons next rest inductionHypothesis =>
      obtain ⟨-, indexed, later⟩ := passes
      exact .cons (fun moment member =>
          precedes_of_evolves indexed (later.indexed moment member) (later.evolves moment member))
        (inductionHypothesis later)

end Graph

/-- In the history of a run every graph is indexed, be it the graph between two operations or one that
a value function or a subscriber sees: nodes are listed under their names and nowhere else, stages of a
whole stat under the main path only, no edge stands twice, and what waits to be announced or is
subscribed to is there. From one of these graphs to a later one no node that is held is replaced by
another one in its place. -/
theorem history_indexed (settings : Settings) (retention : Retention)
    (operations : List Operation) :
    let history := Sheet.history { settings, retention } operations
    (∀ graph ∈ history, graph.Indexed) ∧ history.Pairwise Graph.Precedes := by
  have begins : ({ settings, retention } : Sheet).graph.Intact .everything := .initial
  obtain ⟨-, passes⟩ := Sheet.passage_history begins .initial operations .initial
  exact ⟨passes.indexed, passes.pairwise⟩

/-- The total of a stat is calculated for its first subscriber, on places that a sweep has vacated:
with seven calculations going on inside of each other, a value function sees nine nodes. -/
example :
    let history := Sheet.history {} [.add (.baseAdd ⟨1⟩ (.named "Power") 5),
      .subscribe (.named "Power") .total .main []]
    (history.any fun graph => graph.evaluating.length = 7 ∧ graph.nodes.size = 9) = true := by
  decide +kernel

end CharacterSheet
