import CharacterSheet.Proofs.Membership.Accounting

/-!
Contract: a graph that nobody uses is empty after one sweep.

Owns:
- unused graphs: without modifiers, subscriptions and registered stats;
- an unused graph without pipelines is empty, up to the numbers that it counts up;
- a sweep that may remove everything takes all nodes and rosters of an unused graph, hence all of
  its pipelines.

Everything that is kept is accounted for by a pipeline, a modifier or a subscription; so only the
pipelines have to be followed through the sweep.
-/

namespace CharacterSheet
namespace Graph

variable {vocabulary : Vocabulary} {graph other : Graph}

/-- Nobody uses a graph: no modifier is present, nothing is watched and no stat is registered. -/
structure Unused (graph : Graph) : Prop where
  modifiers : graph.modifiers = .empty
  subscriptions : graph.subscriptions = .empty
  registered : graph.registered = []

section Unused

variable (unused : graph.Unused) (formed : graph.WellFormed vocabulary)
include unused

include formed in
theorem Unused.members (stat : StatId) (form : Form) (path : PathId) :
    graph.members stat form path = [] := by
  refine List.eq_nil_iff_forall_not_mem.mpr fun id inside => ?_
  obtain ⟨modifier, found, _⟩ := formed.enrolled inside
  rw [unused.modifiers] at found
  contradiction

theorem Unused.audience (seated : graph.Seated) (slot : SlotId) : graph.rosterAudience slot = [] := by
  refine List.eq_nil_iff_forall_not_mem.mpr fun id listens => ?_
  have found := seated slot id listens
  rw [unused.subscriptions] at found
  contradiction

include formed in
/-- No modifier is present, so every node is a stage. -/
theorem Unused.staged {node : NodeId} {address : Address} (found : graph.addressOf? node = some address) :
    ∃ stat stage path pipeline, address = .pipeline stat stage path ∧
      graph.pipelines.get? stat = some pipeline ∧ pipeline.nodes.get? (stage, path.id) = some node := by
  cases address with
  | pipeline stat stage path =>
      obtain ⟨pipeline, here, listed⟩ := formed.named node stat stage path found
      exact ⟨stat, stage, path, pipeline, rfl, here, listed⟩
  | contribution id =>
      have present := (formed.contributed node id found).2
      rw [unused.modifiers] at present
      contradiction

theorem Unused.unneeded (watched : graph.Watched vocabulary) (node : NodeId) : ¬ graph.Needed node := by
  rw [needed_iff]
  rintro ⟨root, ⟨present, found, subscribed⟩ | ⟨stat, kept, _⟩, _⟩
  · exact subscribed (watched.unwatched unused.subscriptions found)
  · rw [unused.registered] at kept
    contradiction

/-! ### Graphs without pipelines -/

/-- Only the numbers that are counted up, what waits to be announced and the journal are left where
nobody uses a graph and no stat has a pipeline. -/
theorem Unused.eq_of_closed (intact : graph.Intact vocabulary) (accounted : graph.Accounted)
    (closed : ∀ stat, graph.pipelines.get? stat = none) :
    graph = { nextNode := graph.nextNode, vacant := graph.vacant, pending := graph.pending
              lastSubscription := graph.lastSubscription, journal := graph.journal } := by
  have formed := intact.formed
  have unaddressed (node : NodeId) : graph.addressOf? node = none := by
    by_contra present
    obtain ⟨address, found⟩ := Option.ne_none_iff_exists'.mp present
    obtain ⟨stat, _, _, pipeline, _, here, _⟩ := unused.staged formed found
    rw [closed] at here
    contradiction
  have nodes : graph.nodes = .empty :=
    Table.eq_empty fun node => Option.map_eq_none_iff.mp (unaddressed node)
  have edges : graph.edges = [] := by
    refine List.eq_nil_iff_forall_not_mem.mpr fun edge member => ?_
    obtain ⟨⟨address, found⟩, _⟩ := intact.wired.joined edge.producer edge.consumer member
    rw [unaddressed] at found
    contradiction
  have contributions : graph.contributions = .empty := by
    refine Table.eq_empty fun id => Option.eq_none_iff_forall_ne_some.mpr fun node found => ?_
    have address := formed.contributing id node found
    rw [unaddressed] at address
    contradiction
  have behaviors : graph.behaviors = .empty := by
    refine Table.eq_empty fun stat => Option.eq_none_iff_forall_ne_some.mpr fun force found => ?_
    obtain ⟨pipeline, here⟩ := accounted.owned stat force found
    rw [closed] at here
    contradiction
  have links : graph.links.outlets = .empty := by
    refine Table.eq_empty fun source => Option.eq_none_iff_forall_ne_some.mpr fun outlet found => ?_
    obtain ⟨target, link⟩ := accounted.backs.proper.exists_target found
    obtain ⟨share, stat, conveys⟩ := accounted.backs.proper.isSome_link?_iff.mp link
    obtain ⟨⟨⟨pipeline, here, _⟩, _⟩, _⟩ := accounted.backs.conveys share source target stat conveys
    rw [closed] at here
    contradiction
  have outdated : graph.outdated = [] := by
    refine List.eq_nil_iff_forall_not_mem.mpr fun node late => ?_
    have going := intact.stacked.outdated node late
    rw [intact.idle] at going
    contradiction
  have settled : graph.links = {} := by
    cases same : graph.links with
    | mk outlets => rw [← links, same]
  obtain ⟨modifiers, subscriptions, registered⟩ := unused
  have idle := intact.idle
  have pipelines := Table.eq_empty closed
  clear intact accounted formed unaddressed closed links
  cases graph
  dsimp only at *
  subst_vars
  rfl

end Unused

/-! ### The sweep -/

/-- A sweep removes the stages that are not needed, as far as the rules allow. -/
theorem sweeps_node_iff (rules : Retention) (graph : Graph) (node : NodeId) :
    node ∈ graph.sweptNodes rules ↔ ∃ stat pipeline key, graph.pipelines.get? stat = some pipeline ∧
      pipeline.nodes.get? key = some node ∧ ¬ graph.Needed node ∧
        rules.considersStat pipeline.stat ∧ rules.removesNode pipeline.stat key.1 key.2 := by
  simp only [sweptNodes, removableNodes, List.mem_flatMap, List.mem_map, List.mem_filter,
    Table.mem_values_iff, Table.get?_eq_some_iff, Needed, Bool.and_eq_true, Bool.not_eq_true',
    Bool.not_eq_true]
  constructor
  · rintro ⟨pipeline, ⟨⟨stat, here⟩, considered⟩, ⟨key, _⟩, ⟨listed, unneeded, removes⟩, rfl⟩
    exact ⟨stat, pipeline, key, here, listed, unneeded, considered, removes⟩
  · rintro ⟨stat, pipeline, key, here, listed, unneeded, considered, removes⟩
    exact ⟨pipeline, ⟨⟨stat, here⟩, considered⟩, (key, node), ⟨listed, unneeded, removes⟩, rfl⟩

/-- A sweep removes the rosters without members and subscribers, as far as the rules allow. -/
theorem sweeps_slot_iff (rules : Retention) (formed : graph.WellFormed vocabulary) (slot : SlotId) :
    slot ∈ graph.sweptSlots rules ↔ ∃ pipeline filled,
      graph.pipelines.get? slot.stat = some pipeline ∧
        pipeline.slots.get? (slot.form, slot.path) = some filled ∧
          (filled.roster.members = [] ∧ filled.roster.subscribers = []) ∧
            rules.considersStat pipeline.stat ∧
              rules.removesRoster pipeline.stat slot.form slot.path := by
  simp only [sweptSlots, removableSlots, List.mem_flatMap, List.mem_map, List.mem_filter,
    Table.mem_values_iff, Table.get?_eq_some_iff, Bool.and_eq_true, List.isEmpty_iff]
  constructor
  · rintro ⟨pipeline, ⟨⟨stat, here⟩, considered⟩, ⟨⟨form, path⟩, filled⟩, ⟨listed, empty, removes⟩,
      rfl⟩
    have keyed := (formed.pipelines stat pipeline ((Table.get?_eq_some_iff _ _ _).mpr here)).keyed
    dsimp only at keyed ⊢
    rw [keyed]
    exact ⟨pipeline, filled, here, listed, empty, considered, removes⟩
  · obtain ⟨stat, form, path⟩ := slot
    rintro ⟨pipeline, filled, here, listed, empty, considered, removes⟩
    have keyed := (formed.pipelines stat pipeline ((Table.get?_eq_some_iff _ _ _).mpr here)).keyed
    exact ⟨pipeline, ⟨⟨stat, here⟩, considered⟩, ((form, path), filled), ⟨listed, empty, removes⟩,
      by rw [keyed]⟩

/-- Rosters that were taken away are gone; all else of a pipeline is as it was. -/
theorem filled_removeSlots {slots : List SlotId} {own : StatId} {pipeline : Pipeline}
    (here : (slots.foldl removeSlot graph).pipelines.get? own = some pipeline) :
    ∃ before, graph.pipelines.get? own = some before ∧ before.nodes = pipeline.nodes ∧
      before.stat = pipeline.stat ∧ ∀ form path filled,
        pipeline.slots.get? (form, path) = some filled →
          before.slots.get? (form, path) = some filled ∧ ⟨own, form, path⟩ ∉ slots := by
  induction slots generalizing graph with
  | nil => exact ⟨pipeline, here, rfl, rfl, fun _ _ _ found => ⟨found, List.not_mem_nil⟩⟩
  | cons slot rest inductionHypothesis =>
      obtain ⟨middle, found, nodes, stat, kept⟩ := inductionHypothesis here
      rw [removeSlot, modifyPipeline, Table.get?_modify] at found
      split at found
      · next same =>
        obtain ⟨before, there, rfl⟩ := Option.map_eq_some_iff.mp found
        refine ⟨before, there, nodes, stat, fun form path filled stays => ?_⟩
        obtain ⟨left, outside⟩ := kept form path filled stays
        replace left := (Table.get?_erase _ _ _).symm.trans left
        split at left
        · contradiction
        · next apart =>
          refine ⟨left, fun member => ?_⟩
          rcases List.mem_cons.mp member with rfl | later
          · exact apart rfl
          · exact outside later
      · next apart =>
        refine ⟨middle, found, nodes, stat, fun form path filled stays => ?_⟩
        obtain ⟨left, outside⟩ := kept form path filled stays
        refine ⟨left, fun member => ?_⟩
        rcases List.mem_cons.mp member with rfl | later
        · exact apart rfl
        · exact outside later

/-- What a pipeline has up to the last phase of a sweep it had before, and it was not removed. -/
theorem pipeline_of_relaxed (rules : Retention) (intact : graph.Intact vocabulary) {stat : StatId}
    {pipeline : Pipeline} (here : (graph.relaxed rules).pipelines.get? stat = some pipeline) :
    ∃ before, graph.pipelines.get? stat = some before ∧ before.stat = pipeline.stat ∧
      (∀ key node, pipeline.nodes.get? key = some node →
        before.nodes.get? key = some node ∧ node ∉ graph.sweptNodes rules) ∧
      ∀ form path filled, pipeline.slots.get? (form, path) = some filled →
        before.slots.get? (form, path) = some filled ∧ ⟨stat, form, path⟩ ∉ graph.sweptSlots rules := by
  have discards := discards_sweep rules intact
  have same : (graph.relaxed rules).pipelines = (graph.thinned rules).pipelines :=
    congrArg Shape.pipelines (relaxes_relaxed rules).shape
  rw [same] at here
  obtain ⟨middle, there, nodes, stats, kept⟩ := filled_removeSlots here
  -- before any node was removed the pipeline had the same rosters
  cases early : graph.pipelines.get? stat with
  | none =>
      rw [discards.missing stat early] at there
      contradiction
  | some before =>
      obtain ⟨listed, after, left⟩ := discards.pipelines stat before early
      rw [there] at after
      cases after
      refine ⟨before, rfl, stats, fun key node stays => (left key node).mp ?_, kept⟩
      rw [← nodes] at stays
      exact stays

section Sweeping

variable (unused : graph.Unused) (intact : graph.Intact vocabulary)
include unused intact

/-- A sweep that may remove everything takes all nodes and all rosters. -/
theorem Unused.hollow_relaxed (seated : graph.Seated) (stat : StatId) :
    (graph.relaxed {}).Hollow stat := by
  intro pipeline here
  obtain ⟨before, early, _, stages, rosters⟩ := pipeline_of_relaxed {} intact here
  rw [Pipeline.isEmpty, Bool.and_eq_true]
  constructor
  · refine List.isEmpty_iff.mpr (List.eq_nil_iff_forall_not_mem.mpr fun entry member => ?_)
    obtain ⟨listed, stays⟩ := stages _ _ ((pipeline.nodes.get?_eq_some_iff _ _).mpr member)
    exact stays ((sweeps_node_iff {} graph _).mpr ⟨stat, before, entry.1, early, listed,
      unused.unneeded intact.watched _, rfl, rfl⟩)
  · refine List.isEmpty_iff.mpr (List.eq_nil_iff_forall_not_mem.mpr fun entry member => ?_)
    obtain ⟨found, stays⟩ := rosters _ _ _ ((pipeline.slots.get?_eq_some_iff _ _).mpr member)
    refine stays ((sweeps_slot_iff {} intact.formed _).mpr ⟨before, entry.2, early, found, ⟨?_, ?_⟩,
      rfl, rfl⟩)
    · rw [← members_of_filled early found]
      exact unused.members intact.formed _ _ _
    · refine List.eq_nil_iff_forall_not_mem.mpr fun id listens => ?_
      have heard := (mem_rosterAudience_iff graph ⟨stat, entry.1.1, entry.1.2⟩ id).mpr
        ⟨before, entry.2, early, found, listens⟩
      rw [unused.audience seated] at heard
      contradiction

omit intact in
theorem Unused.keep (books : graph.SameBooks other) (modifiers : other.modifiers = graph.modifiers) :
    other.Unused where
  modifiers := modifiers.trans unused.modifiers
  subscriptions := books.subscriptions.trans unused.subscriptions
  registered := books.registered.trans unused.registered

/-- A sweep that may remove everything leaves an unused graph without pipelines; it is still unused. -/
theorem Unused.swept (seated : graph.Seated) :
    graph.SameBooks (graph.swept {}) ∧ (graph.swept {}).Unused ∧
      ∀ stat, (graph.swept {}).pipelines.get? stat = none := by
  have books : graph.SameBooks (graph.swept {}) := sameBooks_swept {} intact
  refine ⟨books, unused.keep books (undisturbed_swept {} intact).modifiers, fun stat => ?_⟩
  rw [Graph.swept, pipelines_removePipelines]
  split
  · rfl
  · next stays =>
    refine Option.eq_none_iff_forall_ne_some.mpr fun pipeline here => stays ?_
    refine List.mem_map.mpr ⟨(stat, pipeline), List.mem_filter.mpr ⟨?_, ?_⟩, rfl⟩
    · exact ((graph.relaxed {}).pipelines.get?_eq_some_iff stat pipeline).mp here
    · rw [unused.hollow_relaxed intact seated stat pipeline here,
        (sameBooks_relaxed {} intact).registered.trans unused.registered]
      rfl

end Sweeping

/-- Unless a batch is open a sweep is not refused; all it may do besides is to note what it did. -/
theorem sweep_of_idle (idle : graph.pending.depth = 0) (rules : Retention) :
    ∃ report journal, graph.sweep rules = (.ok report, { graph.swept rules with journal }) := by
  rw [sweep_eq, if_neg (by rw [idle]; exact Nat.lt_irrefl 0)]
  generalize { nodes := _, rosters := _, pipelines := _ : SweepReport } = report
  refine ⟨report, (if report.isEmpty then graph.swept rules
    else (graph.swept rules).record (.swept report (graph.swept rules).nodes.size
      (graph.swept rules).behaviorCount)).journal, Prod.ext rfl ?_⟩
  dsimp only
  split <;> rfl

/-! ### The announcement -/

theorem informed_of_empty (announceRosters : Bool) (pipelines : graph.pipelines = .empty) :
    graph.informed announceRosters = graph.begun := by
  have silent (changes : List (SlotId × Delta ModifierId)) :
      changes.foldl announceRoster graph.begun = graph.begun := by
    induction changes with
    | nil => rfl
    | cons change rest inductionHypothesis =>
        have unheard : graph.begun.roster? change.1 = none := by
          rw [roster?, show graph.begun.pipelines = .empty from pipelines]
          rfl
        rw [List.foldl_cons, announceRoster, unheard]
        exact inductionHypothesis
  rw [informed, silent, ite_self]

/-- Where no node and no roster is left, nobody hears of what waits to be announced. -/
theorem flush_of_empty (announceRosters : Bool) (nodes : graph.nodes = .empty)
    (pipelines : graph.pipelines = .empty) :
    ∃ journal, graph.flush announceRosters =
      { graph with pending := graph.pending.cleared, journal } := by
  by_cases settled : graph.Settled
  · exact ⟨graph.journal, flush_settled settled announceRosters⟩
  · have nobody : (graph.pending.nodes.filter fun node => 0 < graph.begun.subscriberCount node) = [] := by
      refine List.filter_eq_nil_iff.mpr fun node _ => ?_
      rw [subscriberCount, show graph.begun.nodes = .empty from nodes]
      exact Bool.false_ne_true
    have announced : graph.announced announceRosters = ([], graph.begun) := by
      rw [Graph.announced, informed_of_empty announceRosters pipelines, nobody]
      rfl
    refine ⟨graph.begun.journal, ?_⟩
    rw [flush_unsettled settled, announced]
    rfl

/-- Sweeping an unused graph and announcing what that changes leaves nothing. -/
theorem Unused.sweep (unused : graph.Unused) (intact : graph.Intact vocabulary)
    (accounted : graph.Accounted) (idle : graph.pending.depth = 0) (announceRosters : Bool) :
    ∃ report nextNode vacant journal, (graph.sweep {}).1 = .ok report ∧
      (graph.sweep {}).2.flush announceRosters =
        { nextNode, vacant, lastSubscription := graph.lastSubscription, journal } := by
  obtain ⟨books, empty, closed⟩ := unused.swept intact accounted.seated
  have emptied := empty.eq_of_closed (intact_swept {} intact) (accounted_swept {} intact accounted) closed
  obtain ⟨report, swept, done⟩ := sweep_of_idle idle {}
  have nodes : ({ graph.swept {} with journal := swept } : Graph).nodes = .empty :=
    congrArg Graph.nodes emptied
  obtain ⟨told, announced⟩ := flush_of_empty announceRosters nodes (Table.eq_empty closed)
  have cleared : (graph.swept {}).pending.cleared = {} :=
    congrArg (fun depth => ({ depth } : Pending)) (books.depth.trans idle)
  refine ⟨report, (graph.swept {}).nextNode, (graph.swept {}).vacant, told, congrArg Prod.fst done, ?_⟩
  rw [done, announced, cleared, emptied, ← books.lastSubscription]

end Graph

/-! ### Unused sheets -/

open CharacterSheet.Graph

/-- Once all modifiers, subscriptions and registrations are gone, whatever happened before, one sweep
by rules that keep nothing is not refused and leaves nothing but the number of the last subscription,
the numbers for new nodes and the journal. -/
theorem sweep_leaves_nothing (settings : Settings) (retention : Retention)
    (operations : List Operation) :
    let sheet := Sheet.run { settings, retention } operations
    sheet.batchDepth = 0 → sheet.graph.modifiers = .empty → sheet.graph.subscriptions = .empty →
      sheet.graph.registered = [] →
        let after := ({ sheet with retention := {} } : Sheet).sweep
        (∃ report, after.1 = .ok report) ∧
          ∃ nextNode vacant journal, after.2.graph =
            { nextNode, vacant, lastSubscription := sheet.graph.lastSubscription, journal } := by
  intro sheet idle modifiers subscriptions registered
  have intact : sheet.graph.Intact .everything := Sheet.intact_everything settings retention operations
  have accounted : sheet.graph.Accounted := Sheet.accounted_everything settings retention operations
  have unused : sheet.graph.Unused := ⟨modifiers, subscriptions, registered⟩
  generalize sheet = sheet at *
  obtain ⟨report, nextNode, vacant, journal, answered, left⟩ :=
    unused.sweep intact accounted idle sheet.settings.announceRosters
  have parts : sheet.graph.sweep {} = (.ok report, (sheet.graph.sweep {}).2) := Prod.ext answered rfl
  intro after
  have ended : after = (.ok report, ({ sheet with retention := {} } : Sheet).withGraph
      ((sheet.graph.sweep {}).2.flush sheet.settings.announceRosters)) := by
    simp only [after, Sheet.sweep, Sheet.sweepOnly]
    rw [parts]
    rfl
  rw [ended]
  exact ⟨⟨report, rfl⟩, nextNode, vacant, journal, left⟩

/-- A stat that adds to the sight while it is on the sheet. -/
def lantern : Stat :=
  (Stat.named "Lantern").withBehavior ⟨[(Stat.named "Sight").id], [.total], .all, .add 3⟩

/-- Values are linked, watched and kept by rules that let no node go; then all that was put on the
sheet is taken from it again. -/
def comingAndGoing : List Operation :=
  [.retain { removesNode := fun _ _ _ => false },
    .addAll [.conversion ⟨1⟩ (.named "Iron") (.named "Steel") 50, .baseAdd ⟨2⟩ (.named "Iron") 10],
    .subscribe (.named "Steel") .total .main [], .subscribeRoster lantern .baseAdd .main,
    .register lantern, .sweep, .remove ⟨1⟩, .remove ⟨2⟩,
    .unsubscribe ⟨1⟩, .unsubscribe ⟨2⟩, .unregister lantern.id]

/-- What the rules kept is still there, with its behaviors, until rules that keep nothing come. -/
theorem nothing_left_of_comingAndGoing :
    let sheet := Sheet.run {} comingAndGoing
    (sheet.nodeCount ≠ 0 ∧ sheet.graph.behaviorCount = 1) ∧
      let after := ({ sheet with retention := {} } : Sheet).sweep
      (∃ report, after.1 = .ok report) ∧
        ∃ nextNode vacant journal, after.2.graph =
          { nextNode, vacant, lastSubscription := sheet.graph.lastSubscription, journal } := by
  have facts : ((Sheet.run {} comingAndGoing).nodeCount ≠ 0 ∧
        (Sheet.run {} comingAndGoing).graph.behaviorCount = 1) ∧
      (Sheet.run {} comingAndGoing).batchDepth = 0 ∧
        (Sheet.run {} comingAndGoing).graph.modifiers.entries.isEmpty ∧
          (Sheet.run {} comingAndGoing).graph.subscriptions.entries.isEmpty ∧
            (Sheet.run {} comingAndGoing).graph.registered = [] := by
    decide +kernel
  obtain ⟨left, idle, modifiers, subscriptions, registered⟩ := facts
  refine ⟨left, sweep_leaves_nothing {} {} comingAndGoing idle ?_ ?_ registered⟩
  · exact Table.eq_of_entries (List.isEmpty_iff.mp modifiers)
  · exact Table.eq_of_entries (List.isEmpty_iff.mp subscriptions)

end CharacterSheet
