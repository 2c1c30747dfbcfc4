import CharacterSheet.Proofs.Announcement.Delivering

/-!
Contract: who watches what stays the same unless a subscription is made or ended.

Owns:
- graphs with the same seats: the same subscribers at the same nodes and rosters, and the same table
  of subscriptions;
- reads, announcements, sweeps and modifiers that come or go leave the seats as they are;
- so does every operation that does not make or end a subscription.

Sweeps may follow any rules: what is removed has no subscribers, whatever the rules allow.
-/

namespace CharacterSheet
namespace Graph

variable {vocabulary : Vocabulary} {graph middle other : Graph}

/-! ### The same seats -/

/-- The same subscribers watch the same nodes and rosters. -/
structure SameSeats (graph other : Graph) : Prop extends graph.KeepsFollowers other where
  present : ∀ node present, other.nodes.get? node = some present → present.subscribers ≠ [] →
    ∃ cache, graph.nodes.get? node = some { present with cache }
  rosters : ∀ slot, other.rosterAudience slot = graph.rosterAudience slot
  subscriptions : other.subscriptions = graph.subscriptions
  lastSubscription : other.lastSubscription = graph.lastSubscription

namespace SameSeats

/-- What is watched afterwards was watched before. -/
theorem intro
    (kept : ∀ node present, graph.nodes.get? node = some present → present.subscribers ≠ [] →
      ∃ cache, other.nodes.get? node = some { present with cache })
    (present : ∀ node present, other.nodes.get? node = some present → present.subscribers ≠ [] →
      ∃ cache, graph.nodes.get? node = some { present with cache })
    (rosters : ∀ slot, other.rosterAudience slot = graph.rosterAudience slot)
    (subscriptions : other.subscriptions = graph.subscriptions)
    (lastSubscription : other.lastSubscription = graph.lastSubscription) : graph.SameSeats other where
  kept := kept
  before := by
    rintro node ⟨watched, found, heard⟩
    obtain ⟨cache, there⟩ := present node watched found heard
    exact ⟨_, there, heard⟩
  present := present
  rosters := rosters
  subscriptions := subscriptions
  lastSubscription := lastSubscription

theorem refl (graph : Graph) : graph.SameSeats graph :=
  .intro (fun _ present found _ => ⟨present.cache, found⟩)
    (fun _ present found _ => ⟨present.cache, found⟩) (fun _ => rfl) rfl rfl

theorem trans (first : graph.SameSeats middle) (second : middle.SameSeats other) :
    graph.SameSeats other := by
  refine .intro (fun node present found heard => ?_) (fun node present found heard => ?_)
    (fun slot => (second.rosters slot).trans (first.rosters slot))
    (second.subscriptions.trans first.subscriptions)
    (second.lastSubscription.trans first.lastSubscription)
  · obtain ⟨cache, there⟩ := first.kept node present found heard
    exact second.kept node { present with cache } there heard
  · obtain ⟨cache, there⟩ := second.present node present found heard
    exact first.present node { present with cache } there heard

/-- Only nodes, pipelines and subscriptions matter. -/
theorem of_same (nodes : other.nodes = graph.nodes) (pipelines : other.pipelines = graph.pipelines)
    (subscriptions : other.subscriptions = graph.subscriptions)
    (lastSubscription : other.lastSubscription = graph.lastSubscription) : graph.SameSeats other :=
  .intro (fun _ present found _ => ⟨present.cache, nodes ▸ found⟩)
    (fun _ present found _ => ⟨present.cache, nodes ▸ found⟩)
    (fun slot => by rw [rosterAudience, rosterAudience, roster?, roster?, pipelines])
    subscriptions lastSubscription

theorem of_extends (larger : graph.Extends other) : graph.SameSeats other := by
  refine .intro (fun node present found _ => larger.nodes node present found)
    (fun node present found heard => ?_) larger.rosterAudience larger.subscriptions
    larger.lastSubscription
  cases before : graph.nodes.get? node with
  | none => exact absurd (larger.unwatched node present found before) heard
  | some old =>
      obtain ⟨cache, there⟩ := larger.nodes node old before
      rw [there] at found
      cases found
      exact ⟨old.cache, rfl⟩

theorem of_explores (intact : graph.Intact vocabulary) (explores : Explores vocabulary graph other) :
    graph.SameSeats other :=
  .of_extends (explores.advances intact.toResting).grows.toExtends

/-- Only stages are watched, so it is enough that these stay. -/
theorem of_audience (attended : graph.Attended) (audience : graph.Audience other) :
    graph.SameSeats other :=
  .intro (fun node present found heard =>
      audience.staged node present (attended node present found heard) found)
    audience.watched audience.rosters audience.subscriptions audience.lastSubscription

theorem of_fades {affected : NodeId → Prop} (fades : graph.Fades other affected) :
    graph.SameSeats other :=
  .of_extends (Grows.of_fades fades).toExtends

theorem rosterAudience_of_pipeline {slot : SlotId} {pipeline later : Pipeline}
    (here : graph.pipelines.get? slot.stat = some pipeline)
    (there : other.pipelines.get? slot.stat = some later) (slots : later.slots = pipeline.slots) :
    other.rosterAudience slot = graph.rosterAudience slot := by
  simp only [rosterAudience, roster?, here, there, Option.bind_some, slots]

/-- Nodes without subscribers may go. -/
theorem of_discards {gone : NodeId → Prop} (discards : graph.Discards other gone)
    (unwatched : ∀ node present, gone node → graph.nodes.get? node = some present →
      present.subscribers = []) : graph.SameSeats other := by
  refine .intro (fun node present found heard => ?_)
    (fun node present found _ => discards.node_before found) (fun slot => ?_)
    (discards.subscriptions unwatched) discards.lastSubscription
  · have stays : ¬ gone node := fun leaves => heard (unwatched node present leaves found)
    by_cases below : graph.Below gone node
    · exact ⟨present.cache.invalidate, by rw [discards.dropped node stays below, found]; rfl⟩
    · exact ⟨present.cache, by rw [discards.kept node below, found]⟩
  · cases here : graph.pipelines.get? slot.stat with
    | none =>
        simp only [rosterAudience, roster?, here, discards.missing slot.stat here]
    | some pipeline =>
        obtain ⟨nodes, there, -⟩ := discards.pipelines slot.stat pipeline here
        exact rosterAudience_of_pipeline here there rfl

theorem of_relaxes {affected : NodeId → Prop} (relaxes : graph.Relaxes other affected) :
    graph.SameSeats other := by
  have pipelines : other.pipelines = graph.pipelines := congrArg Shape.pipelines relaxes.shape
  refine .intro (fun node present found _ => ?_) (fun node present found _ => relaxes.node_before found)
    (fun slot => by rw [rosterAudience, rosterAudience, roster?, roster?, pipelines]) ?_ ?_
  · by_cases reached : affected node
    · exact ⟨present.cache.invalidate, by rw [relaxes.dropped node reached, found]; rfl⟩
    · exact ⟨present.cache, by rw [relaxes.kept node reached, found]⟩
  · rw [relaxes.rest]
  · rw [relaxes.rest]

end SameSeats

/-! ### Sweeps -/

/-- A roster that nobody watches may be taken away. -/
theorem sameSeats_removeSlot {slot : SlotId} (unheard : graph.rosterAudience slot = []) :
    graph.SameSeats (graph.removeSlot slot) := by
  refine .intro (fun _ present found _ => ⟨present.cache, found⟩)
    (fun _ present found _ => ⟨present.cache, found⟩) (fun other => ?_) rfl rfl
  have after := graph.pipelines.get?_modify slot.stat other.stat fun pipeline =>
    { pipeline with slots := pipeline.slots.erase (slot.form, slot.path) }
  cases here : graph.pipelines.get? other.stat with
  | none =>
      rw [here, Option.map_none, ite_self] at after
      simp only [rosterAudience, roster?, here, removeSlot, modifyPipeline, after]
  | some pipeline =>
      rw [here] at after
      split at after
      · next same =>
        by_cases taken : (other.form, other.path) = (slot.form, slot.path)
        · have equal : other = slot := by
            obtain ⟨stat, form, path⟩ := other
            cases taken
            cases same
            rfl
          rw [equal, unheard]
          simp only [equal ▸ after, rosterAudience, roster?, removeSlot, modifyPipeline,
            Option.map_some, Option.bind_some, Table.get?_erase, ↓reduceIte, Option.map_none]
        · simp only [after, here, rosterAudience, roster?, removeSlot, modifyPipeline,
            Option.map_some, Option.bind_some, Table.get?_erase, if_neg taken]
      · exact SameSeats.rosterAudience_of_pipeline here after rfl

theorem sameSeats_removeSlots {slots : List SlotId}
    (unheard : ∀ slot ∈ slots, graph.rosterAudience slot = []) :
    graph.SameSeats (slots.foldl removeSlot graph) := by
  induction slots generalizing graph with
  | nil => exact .refl graph
  | cons slot rest inductionHypothesis =>
      have first := sameSeats_removeSlot (unheard slot List.mem_cons_self)
      exact first.trans (inductionHypothesis fun other member =>
        (first.rosters other).trans (unheard other (List.mem_cons_of_mem slot member)))

/-- The rosters that a sweep removes have no subscribers. -/
theorem unheard_sweptSlots (formed : graph.WellFormed vocabulary) {rules : Retention} {slot : SlotId}
    (member : slot ∈ graph.sweptSlots rules) : graph.rosterAudience slot = [] := by
  simp only [sweptSlots, removableSlots, List.mem_flatMap, List.mem_map, List.mem_filter,
    Bool.and_eq_true, List.isEmpty_iff] at member
  obtain ⟨pipeline, ⟨listed, -⟩, ⟨⟨form, path⟩, filled⟩, ⟨inside, ⟨-, silent⟩, -⟩, rfl⟩ := member
  obtain ⟨⟨stat, _⟩, entry, rfl⟩ := List.mem_map.mp listed
  have here := (Table.get?_eq_some_iff _ _ _).mpr entry
  have found := (Table.get?_eq_some_iff _ _ _).mpr inside
  have keyed := (formed.pipelines _ _ here).keyed
  dsimp only at keyed found silent
  simp only [rosterAudience, roster?, keyed, here, Option.bind_some, found, Option.map_some, silent]

/-- A pipeline without rosters may go, and its behaviors with it. -/
theorem sameSeats_removePipeline {stat : StatId} (hollow : graph.Hollow stat) :
    graph.SameSeats (graph.removePipeline stat) := by
  have closes : graph.SameSeats (graph.close stat) := by
    refine .intro (fun _ present found _ => ⟨present.cache, found⟩)
      (fun _ present found _ => ⟨present.cache, found⟩) (fun slot => ?_) rfl rfl
    by_cases same : slot.stat = stat
    · cases here : graph.pipelines.get? slot.stat with
      | none => simp only [rosterAudience, roster?, pipelines_close, here, ite_self]
      | some pipeline =>
          simp only [rosterAudience, roster?, pipelines_close, here, if_pos same, Option.bind_some,
            hollow.unfilled (same ▸ here), Option.bind_none]
    · simp only [rosterAudience, roster?, pipelines_close, if_neg same]
  have lifts : (graph.close stat).SameSeats ((graph.close stat).lift stat) := .of_same rfl rfl rfl rfl
  rw [removePipeline_eq]
  split
  · split
    · exact closes
    · split
      · exact closes.trans lifts
      · have noted (entry : Record) : ((graph.close stat).lift stat).SameSeats
            (((graph.close stat).lift stat).record entry) := .of_same rfl rfl rfl rfl
        rw [invalidateTargets_eq]
        exact ((closes.trans lifts).trans (noted _)).trans (.of_fades (fades_invalidateAll _ _))
  · exact .refl graph

theorem sameSeats_removePipelines {stats : List StatId}
    (hollow : ∀ stat ∈ stats, graph.Hollow stat) :
    graph.SameSeats (stats.foldl removePipeline graph) := by
  induction stats generalizing graph with
  | nil => exact .refl graph
  | cons stat rest inductionHypothesis =>
      refine (sameSeats_removePipeline (hollow stat List.mem_cons_self)).trans
        (inductionHypothesis fun other member pipeline here => ?_)
      rw [pipelines_removePipeline] at here
      split at here
      · contradiction
      · exact hollow other (List.mem_cons_of_mem stat member) pipeline here

theorem sameSeats_swept (rules : Retention) (intact : graph.Intact vocabulary) :
    graph.SameSeats (graph.swept rules) := by
  have thins : graph.SameSeats (graph.removeNodes (graph.sweptNodes rules)) :=
    .of_discards (discards_sweep rules intact) fun _ _ leaves => unwatched_sweptNodes rules leaves
  have empties : (graph.removeNodes (graph.sweptNodes rules)).SameSeats (graph.thinned rules) :=
    sameSeats_removeSlots fun slot member =>
      (thins.rosters slot).trans (unheard_sweptSlots intact.formed member)
  have closes : (graph.relaxed rules).SameSeats (graph.swept rules) :=
    sameSeats_removePipelines fun _ => hollow_removablePipelines rules
  exact ((thins.trans empties).trans (.of_relaxes (relaxes_relaxed rules))).trans closes

/-- A sweep leaves the seats as they are, whatever the rules. -/
theorem sameSeats_sweep (rules : Retention) (intact : graph.Intact vocabulary) :
    graph.SameSeats (graph.sweep rules).2 :=
  sweep_induction (.refl graph) (sameSeats_swept rules intact)
    fun _ _ before => before.trans (.of_same rfl rfl rfl rfl)

end Graph

/-! ### Operations -/

/-- Whether an operation makes or ends a subscription. -/
def Operation.subscribes : Operation → Bool
  | subscribe .. | subscribeRoster .. | unsubscribe _ => true
  | _ => false

namespace Sheet

open CharacterSheet.Graph

variable {vocabulary : Vocabulary} {sheet : Sheet} {operation : Operation}

theorem sameSeats_flush (intact : sheet.graph.Intact vocabulary) :
    sheet.graph.SameSeats sheet.flush.graph :=
  .of_extends (extends_flush intact sheet.settings.announceRosters)

theorem sameSeats_flushIfIdle (intact : sheet.graph.Intact vocabulary) :
    sheet.graph.SameSeats sheet.flushIfIdle.graph := by
  unfold flushIfIdle
  split
  · exact .refl sheet.graph
  · exact sameSeats_flush intact

theorem sameSeats_concluded {graph : Graph} (intact : graph.Intact vocabulary) (settings : Settings)
    (rules : Retention) : graph.SameSeats (graph.concluded settings rules) := by
  have announced := intact_flush intact settings.announceRosters
  have announces : graph.SameSeats (graph.flush settings.announceRosters) :=
    .of_extends (extends_flush intact settings.announceRosters)
  have sweeps := announces.trans (sameSeats_sweep rules announced)
  unfold concluded
  dsimp only
  split
  · split
    · exact sweeps
    · exact sweeps.trans (.of_extends (extends_flush (intact_sweep rules announced) _))
  · exact announces

theorem sameSeats_endBatch (intact : sheet.graph.Intact vocabulary) :
    sheet.graph.SameSeats sheet.endBatch.2.graph := by
  rw [endBatch_eq intact]
  split
  · exact .refl sheet.graph
  · have deepens : sheet.graph.SameSeats (sheet.graph.modifyPending fun pending =>
        { pending with depth := 0 }) := .of_same rfl rfl rfl rfl
    exact deepens.trans (sameSeats_concluded (intact.deepen 0) _ _)
  · exact .of_same rfl rfl rfl rfl

/-- A batch of its own does to the seats what is done in it. -/
theorem sameSeats_inBatch {α : Type} {change : Graph → Except Fault α × Graph} {changed : Graph}
    (changes : (change sheet.beginBatch.graph).2 = changed) (intact : changed.Intact vocabulary)
    (same : sheet.beginBatch.graph.SameSeats changed) :
    sheet.graph.SameSeats (sheet.inBatch change).2.graph := by
  have begins : sheet.graph.SameSeats sheet.beginBatch.graph := .of_same rfl rfl rfl rfl
  have intact' : (sheet.beginBatch.withGraph changed).graph.Intact vocabulary := intact
  subst changes
  exact (begins.trans same).trans (sameSeats_endBatch intact')

theorem sameSeats_explore {graph : Graph} (intact : sheet.graph.Intact vocabulary)
    (explores : Explores vocabulary sheet.graph graph) :
    sheet.graph.SameSeats (sheet.withGraph graph).flushIfIdle.graph := by
  have read : (sheet.withGraph graph).graph.Intact vocabulary := intact.explore explores
  exact (SameSeats.of_explores intact explores).trans (sameSeats_flushIfIdle read)

theorem sameSeats_registering {graph : Graph} (intact : graph.Intact vocabulary) {stat : Stat}
    (within : stat.HeadWithin vocabulary) : graph.SameSeats (registering stat graph).2 := by
  have grows : graph.SameSeats (graph.obtain? stat .total .main).2 := by
    unfold obtain?
    split
    · next resolved => exact .of_explores intact (explores_obtain graph resolved .total within .main)
    · exact .refl graph
  unfold registering
  split
  · next outcome => rwa [outcome] at grows
  · next outcome =>
    rw [outcome] at grows
    split
    · exact grows
    · exact grows.trans (.of_same rfl rfl rfl rfl)

/-- Unless an operation makes or ends a subscription, it leaves the seats as they are. -/
theorem sameSeats_apply (closed : vocabulary.Closed) (intact : sheet.graph.Intact vocabulary)
    (within : operation.Within vocabulary) (aside : operation.subscribes = false) :
    sheet.graph.SameSeats (sheet.apply operation).graph := by
  have begun : sheet.beginBatch.graph.Intact vocabulary := intact.deepen _
  have changed := intact_turnover closed begun within
  have turns : sheet.beginBatch.graph.SameSeats (operation.turnover sheet.beginBatch.graph) :=
    .of_audience begun.watched.attended (turns_turnover closed begun within).1.audience
  cases operation with
  | add modifier => exact sameSeats_inBatch rfl changed turns
  | addAll modifiers => exact sameSeats_inBatch rfl changed turns
  | remove id => exact sameSeats_inBatch rfl changed turns
  | removeAll ids => exact sameSeats_inBatch rfl changed turns
  | value stat stage path =>
      exact sameSeats_explore intact (explores_perform intact.toResting (Plan.asks_read within))
  | breakdown stat =>
      exact sameSeats_explore intact
        (explores_perform intact.toResting (breakdownPlan_asks intact.formed within))
  | subscribe stat stage path reads => cases aside
  | subscribeRoster stat form path => cases aside
  | unsubscribe id => cases aside
  | register stat =>
      have stirs := stirs_registering sheet.beginBatch.graph within
      exact sameSeats_inBatch rfl (stirs.intact begun) (sameSeats_registering begun within)
  | unregister stat => exact sameSeats_inBatch rfl (begun.register _) (.of_same rfl rfl rfl rfl)
  | beginBatch => exact .of_same rfl rfl rfl rfl
  | endBatch => exact sameSeats_endBatch intact
  | closeBlock =>
      have ends := sameSeats_endBatch intact
      show sheet.graph.SameSeats sheet.closeBlock.graph
      unfold closeBlock
      split
      · next outcome => rwa [outcome] at ends
      · next outcome =>
        rw [outcome] at ends
        exact ends.trans (.of_same rfl rfl rfl rfl)
  | sweep =>
      have sweeps := sameSeats_sweep sheet.retention intact
      show sheet.graph.SameSeats sheet.sweep.2.graph
      have swept := intact_sweep sheet.retention intact
      unfold sweep sweepOnly
      generalize sheet.graph.sweep sheet.retention = outcome at sweeps swept ⊢
      obtain ⟨_ | report, after⟩ := outcome
      · exact sweeps
      · have swept' : (sheet.withGraph after).graph.Intact vocabulary := swept
        exact sweeps.trans (sameSeats_flush swept')
  | retain rules => exact .of_same rfl rfl rfl rfl

end Sheet
end CharacterSheet
