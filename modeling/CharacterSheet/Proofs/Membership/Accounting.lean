import CharacterSheet.Proofs.Membership.Backing
import CharacterSheet.Proofs.Change.Enduring

/-!
Contract: everything that a graph keeps is accounted for.

Owns:
- graphs in which each subscriber of a roster stands in the table of subscriptions, behaviors are in
  force only of stats with a pipeline, and links are backed by stats to which modifiers contribute;
- all operations keep graphs so, whatever the stats carry.

A stat may be named in two forms under one identity. What counts for its link is the form that its
pipeline keeps; so the proof follows the pipelines of stats to which modifiers contribute.
-/

namespace CharacterSheet
namespace Graph

variable {vocabulary : Vocabulary} {graph middle other : Graph} {modifier : Modifier} {stat : Stat}

/-! ### Behaviors and pipelines -/

/-- Behaviors are in force only of stats with a pipeline. -/
def Owned (graph : Graph) : Prop :=
  ∀ stat behaviors, graph.behaviors.get? stat = some behaviors →
    ∃ pipeline, graph.pipelines.get? stat = some pipeline

/-- Pipelines may come, and behaviors may go. -/
theorem Owned.keep (owned : graph.Owned)
    (behaviors : ∀ stat behaviors, other.behaviors.get? stat = some behaviors →
      graph.behaviors.get? stat = some behaviors ∨ ∃ pipeline, other.pipelines.get? stat = some pipeline)
    (pipelines : ∀ stat pipeline, graph.pipelines.get? stat = some pipeline →
      ∃ later, other.pipelines.get? stat = some later) : other.Owned := by
  intro stat force found
  rcases behaviors stat force found with before | here
  · obtain ⟨pipeline, here⟩ := owned stat force before
    exact pipelines stat pipeline here
  · exact here

theorem Owned.of_shape (owned : graph.Owned) (same : other.shape = graph.shape) : other.Owned := by
  have behaviors : other.behaviors = graph.behaviors := congrArg Shape.behaviors same
  have pipelines : other.pipelines = graph.pipelines := congrArg Shape.pipelines same
  rwa [Owned, behaviors, pipelines]

/-- A pipeline that is changed is still there. -/
theorem Owned.modifyPipeline (owned : graph.Owned) (own : StatId) (change : Pipeline → Pipeline) :
    (graph.modifyPipeline own change).Owned := by
  refine owned.keep (fun _ _ found => .inl found) fun id pipeline here => ?_
  have after := graph.pipelines.get?_modify own id change
  rw [here] at after
  split at after
  · exact ⟨change pipeline, after⟩
  · exact ⟨pipeline, after⟩

theorem Owned.openPipeline (owned : graph.Owned) (stat : Stat) : (graph.openPipeline stat).Owned := by
  refine owned.keep (fun _ _ found => .inl found) fun id pipeline here => ?_
  have after := graph.pipelines.get?_insert stat.id id { stat }
  split at after
  · exact ⟨_, after⟩
  · exact ⟨pipeline, after.trans here⟩

theorem owned_ensurePipeline (owned : graph.Owned) (stat : Stat) :
    (graph.ensurePipeline stat).Owned := by
  rw [ensurePipeline_eq]
  split
  · exact owned
  · split
    · exact owned.openPipeline stat
    · refine Owned.of_shape ?_ (shape_invalidateTargets _ _)
      refine (owned.openPipeline stat).keep (fun id behaviors found => ?_)
        fun id pipeline here => ⟨pipeline, here⟩
      replace found := (Table.get?_insert _ _ _ _).symm.trans found
      split at found
      · next same =>
        subst same
        exact .inr ⟨{ stat }, Table.get?_insert_self graph.pipelines stat.id { stat }⟩
      · exact .inl found

theorem owned_obtain (owned : graph.Owned) (stat : Stat) (stage : Stage) (path : Path) :
    (graph.obtain stat stage path).2.Owned :=
  obtain_induction stage (owned_ensurePipeline owned stat) fun _ _ _ grown _ _ _ =>
    Owned.modifyPipeline grown _ _

/-- Whatever is calculated, announced or performed from outside keeps it so. -/
theorem enduring_owned : Enduring Owned where
  record := fun graph entry owned => owned.of_shape (shape_record graph entry)
  enter := fun graph node owned => owned.of_shape (shape_enter graph node)
  leave := fun graph node reads reply owned => owned.of_shape (shape_leave graph node reads reply)
  locate := by
    intro graph query owned
    cases query with
    | node stat stage path =>
        rw [locate_node]
        split
        · exact owned_obtain owned stat stage path
        · exact owned
    | contribution modifier =>
        rw [locate_contribution]
        split <;> exact owned

/-! ### Subscribers of rosters -/

theorem mem_rosterAudience_iff (graph : Graph) (slot : SlotId) (id : SubscriptionId) :
    id ∈ graph.rosterAudience slot ↔ ∃ pipeline filled,
      graph.pipelines.get? slot.stat = some pipeline ∧
        pipeline.slots.get? (slot.form, slot.path) = some filled ∧ id ∈ filled.roster.subscribers := by
  rw [rosterAudience, roster?]
  cases here : graph.pipelines.get? slot.stat with
  | none => simp
  | some pipeline =>
      cases found : pipeline.slots.get? (slot.form, slot.path) with
      | none => simp [found]
      | some filled => simp [found]

/-- Each subscriber of a roster stands in the table of subscriptions, under its roster. -/
def Seated (graph : Graph) : Prop :=
  ∀ slot, ∀ id ∈ graph.rosterAudience slot, graph.subscriptions.get? id = some (.slot slot)

/-- Rosters may lose subscribers. -/
theorem Seated.keep (seated : graph.Seated)
    (audience : ∀ slot, ∀ id ∈ other.rosterAudience slot, id ∈ graph.rosterAudience slot)
    (subscriptions : other.subscriptions = graph.subscriptions) : other.Seated := by
  intro slot id inside
  rw [subscriptions]
  exact seated slot id (audience slot id inside)

theorem Seated.of_pipelines (seated : graph.Seated) (pipelines : other.pipelines = graph.pipelines)
    (subscriptions : other.subscriptions = graph.subscriptions) : other.Seated := by
  refine seated.keep (fun slot id inside => ?_) subscriptions
  rw [mem_rosterAudience_iff, pipelines] at inside
  exact (mem_rosterAudience_iff _ _ _).mpr inside

theorem Seated.audience (seated : graph.Seated) (audience : graph.Audience other) : other.Seated :=
  seated.keep (fun slot _ inside => audience.rosters slot ▸ inside) audience.subscriptions

/-! ### Backed links -/

/-- No link is empty, and whatever conveys by a link is a stat that says so, as its pipeline keeps
it, and to which some modifier contributes. -/
structure Backs (graph : Graph) : Prop where
  proper : graph.links.Proper
  conveys : ∀ share source target stat, graph.links.conveyor? share source target = some stat →
    (graph.Keeps stat ∧ graph.Engaged stat.id) ∧ stat.route? = some (share, source, target)

theorem Backs.keep (backs : graph.Backs) (links : other.links = graph.links)
    (kept : ∀ stat, graph.Keeps stat → graph.Engaged stat.id → other.Keeps stat ∧ other.Engaged stat.id) :
    other.Backs where
  proper := links.symm ▸ backs.proper
  conveys := by
    intro share source target stat conveys
    rw [links] at conveys
    obtain ⟨⟨keeps, engaged⟩, route⟩ := backs.conveys share source target stat conveys
    exact ⟨kept stat keeps engaged, route⟩

theorem Tallies.engaged (tallies : graph.Tallies other) {id : StatId} (engaged : graph.Engaged id) :
    other.Engaged id := by
  obtain ⟨form, path, some⟩ := engaged
  exact ⟨form, path, by rwa [tallies.members]⟩

/-- While modifiers neither come nor go, only pipelines matter. -/
theorem Backs.tally (backs : graph.Backs) (tallies : graph.Tallies other)
    (kept : ∀ stat, graph.Keeps stat → graph.Engaged stat.id → other.Keeps stat) : other.Backs :=
  backs.keep tallies.links fun stat keeps engaged => ⟨kept stat keeps engaged, tallies.engaged engaged⟩

/-! ### Accounted graphs -/

/-- Subscribers, behaviors and links are all accounted for. -/
structure Accounted (graph : Graph) : Prop where
  seated : graph.Seated
  owned : graph.Owned
  backs : graph.Backs

theorem Accounted.initial : ({} : Graph).Accounted where
  seated := fun _ _ none => nomatch none
  owned := fun _ _ none => nomatch none
  backs := ⟨.initial, fun _ _ _ _ none => nomatch none⟩

/-- Only pipelines, behaviors, links and subscriptions matter. -/
theorem Accounted.of_same (accounted : graph.Accounted) (pipelines : other.pipelines = graph.pipelines)
    (behaviors : other.behaviors = graph.behaviors) (links : other.links = graph.links)
    (subscriptions : other.subscriptions = graph.subscriptions) : other.Accounted where
  seated := accounted.seated.of_pipelines pipelines subscriptions
  owned := by
    rw [Owned, behaviors, pipelines]
    exact accounted.owned
  backs := accounted.backs.keep links fun _ keeps engaged =>
    ⟨keeps.of_pipelines pipelines, by simpa only [Engaged, members_of_pipelines pipelines] using engaged⟩

theorem Accounted.of_shape (accounted : graph.Accounted) (same : other.shape = graph.shape)
    (subscriptions : other.subscriptions = graph.subscriptions) : other.Accounted :=
  accounted.of_same (congrArg Shape.pipelines same) (congrArg Shape.behaviors same)
    (congrArg Shape.links same) subscriptions

/-- A larger graph is accounted for if its behaviors are. -/
theorem Accounted.extend (accounted : graph.Accounted) (larger : graph.Extends other)
    (owned : other.Owned) : other.Accounted where
  seated := accounted.seated.keep (fun slot _ inside => larger.rosterAudience slot ▸ inside)
    larger.subscriptions
  owned := owned
  backs := accounted.backs.tally (.of_extends larger) fun _ keeps _ => larger.keeps keeps

/-- A new number is given to a subscription. -/
theorem Accounted.subscribe (accounted : graph.Accounted) (watched : graph.Watched vocabulary)
    (target : Target) : (graph.newSubscription target).2.Accounted where
  seated := by
    intro slot id inside
    have before := accounted.seated slot id inside
    exact (Table.get?_insert_other _ (watched.fresh before) _).trans before
  owned := accounted.owned
  backs := accounted.backs.tally (.of_same rfl rfl rfl) fun _ keeps _ => keeps

/-- Other rosters for a pipeline, with the same members, whose subscribers stand in the table. -/
theorem Accounted.refit (accounted : graph.Accounted) (subscriptions : Table SubscriptionId Target)
    {own : StatId} {slots : Pipeline → Table (Form × PathId) Slot}
    (refits : ∀ pipeline, graph.pipelines.get? own = some pipeline →
      Refits vocabulary graph.modifiers own pipeline (slots pipeline))
    (listed : ∀ pipeline, graph.pipelines.get? own = some pipeline → ∀ form path filled,
      (slots pipeline).get? (form, path) = some filled → ∀ id ∈ filled.roster.subscribers,
        subscriptions.get? id = some (.slot ⟨own, form, path⟩))
    (elsewhere : ∀ slot, slot.stat ≠ own → ∀ id ∈ graph.rosterAudience slot,
      subscriptions.get? id = some (.slot slot)) :
    ({ graph with subscriptions }.modifyPipeline own fun old =>
      { old with slots := slots old }).Accounted where
  seated := by
    intro slot id inside
    obtain ⟨pipeline, filled, here, found, listens⟩ := (mem_rosterAudience_iff _ _ _).mp inside
    replace here := (graph.pipelines.get?_modify own slot.stat _).symm.trans here
    split at here
    · next same =>
      subst same
      obtain ⟨old, there, rfl⟩ := Option.map_eq_some_iff.mp here
      exact listed old there slot.form slot.path filled found id listens
    · next apart =>
      exact elsewhere slot apart id ((mem_rosterAudience_iff _ _ _).mpr ⟨pipeline, filled, here, found, listens⟩)
  owned := Owned.modifyPipeline (show Owned { graph with subscriptions } from accounted.owned) own _
  backs := by
    have tallies : graph.Tallies ({ graph with subscriptions }.modifyPipeline own fun old =>
        { old with slots := slots old }) :=
      (Undisturbed.of_refit vocabulary refits).toTallies.trans (.of_same rfl rfl rfl)
    refine accounted.backs.tally tallies ?_
    rintro stat ⟨pipeline, here, same⟩ _
    have after := graph.pipelines.get?_modify own stat.id fun old => { old with slots := slots old }
    rw [here] at after
    split at after
    · exact ⟨{ pipeline with slots := slots pipeline }, after, same⟩
    · exact ⟨pipeline, after, same⟩

/-! ### Moves -/

theorem Accounted.explore (accounted : graph.Accounted) (intact : graph.Intact vocabulary)
    (explores : Explores vocabulary graph other) : other.Accounted :=
  accounted.extend (explores.advances intact.toResting).grows.toExtends
    (enduring_owned.explores explores accounted.owned)

theorem accounted_obtainWatched (accounted : graph.Accounted) (intact : graph.Intact vocabulary)
    {stage : Stage} {path : Path} {reads : List Reading} (resolved : stat.isResolved = true)
    (within : stat.HeadWithin vocabulary) (route : path.Within vocabulary) :
    (graph.obtainWatched stat stage path reads).Accounted := by
  have obtains : Explores vocabulary graph (graph.obtain stat stage path).2 :=
    explores_obtain graph resolved stage within route
  have grown := intact.explore obtains
  have larger := (obtains.advances intact.toResting).grows.toExtends
  have ready := accounted.extend larger (owned_obtain accounted.owned stat stage path)
  exact (ready.subscribe grown.watched _).of_same rfl rfl rfl rfl

theorem accounted_subscribeRoster (accounted : graph.Accounted) (intact : graph.Intact vocabulary)
    {form : Form} {path : Path} (within : stat.HeadWithin vocabulary) (route : path.Within vocabulary) :
    (graph.subscribeRoster stat form path).2.Accounted := by
  rw [subscribeRoster_eq]
  split
  · next resolved =>
    have grown := intact_ensurePipeline intact resolved within
    have larger := (advances_ensurePipeline intact.formed intact.stacked resolved within).grows.toExtends
    have ready := accounted.extend larger (owned_ensurePipeline accounted.owned stat)
    generalize graph.ensurePipeline stat = opened at grown ready
    let place := path.at form.stage
    let target : Target := .slot ⟨stat.id, form, place.id⟩
    have stays {slot : SlotId} {id : SubscriptionId} (inside : id ∈ opened.rosterAudience slot) :
        (opened.newSubscription target).2.subscriptions.get? id = some (.slot slot) :=
      have before := ready.seated slot id inside
      (Table.get?_insert_other _ (grown.watched.fresh before) _).trans before
    have numbered : ({ opened with lastSubscription := opened.lastSubscription + 1 } : Graph).Accounted :=
      ready.of_same rfl rfl rfl rfl
    refine numbered.refit (opened.newSubscription target).2.subscriptions
      (fun pipeline here => refits_seated (grown.formed.pipelines _ pipeline here) form _ route)
      (fun pipeline here other own filled found id listens => ?_)
      fun slot _ id inside => stays inside
    have old {filled : Slot} (found : pipeline.slots.get? (other, own) = some filled)
        (listens : id ∈ filled.roster.subscribers) :
        (opened.newSubscription target).2.subscriptions.get? id =
          some (.slot ⟨stat.id, other, own⟩) :=
      stays ((mem_rosterAudience_iff _ _ _).mpr ⟨pipeline, filled, here, found, listens⟩)
    rw [seated, Table.get?_insert] at found
    split at found
    · next same =>
      cases same
      cases found
      rcases List.mem_append.mp listens with before | new
      · cases there : pipeline.slots.get? (form, place.id) with
        | none =>
            rw [show (path.at form.stage) = place from rfl, there] at before
            contradiction
        | some slot =>
            rw [show (path.at form.stage) = place from rfl, there] at before
            exact old there before
      · rw [List.mem_singleton.mp new]
        exact Table.get?_insert_self _ _ _
    · exact old found listens
  · exact accounted

theorem accounted_unsubscribe (accounted : graph.Accounted) (intact : graph.Intact vocabulary)
    (id : SubscriptionId) : (graph.unsubscribe id).2.Accounted := by
  have stays {slot : SlotId} {other : SubscriptionId} (apart : other ≠ id)
      (inside : other ∈ graph.rosterAudience slot) :
      (graph.subscriptions.erase id).get? other = some (.slot slot) := by
    rw [Table.get?_erase, if_neg apart]
    exact accounted.seated slot other inside
  unfold unsubscribe
  split
  · exact accounted
  · next target listed =>
    -- what stands under one target listens nowhere else
    have only {slot : SlotId} {other : SubscriptionId} (inside : other ∈ graph.rosterAudience slot)
        (apart : target ≠ .slot slot) : other ≠ id := by
      rintro rfl
      have before := accounted.seated slot other inside
      rw [listed] at before
      exact apart (Option.some.inj before)
    split
    · have ended : ({ graph with subscriptions := graph.subscriptions.erase id } : Graph).Accounted :=
        { seated := fun slot other inside => stays (only inside (by simp)) inside
          owned := accounted.owned
          backs := accounted.backs.tally (.of_same rfl rfl rfl) fun _ keeps _ => keeps }
      exact ended.of_same rfl rfl rfl rfl
    · next slot =>
      refine accounted.refit (graph.subscriptions.erase id)
        (fun pipeline here =>
          refits_unseated (intact.formed.pipelines _ pipeline here) slot.form id slot.path)
        (fun pipeline here form path filled found other listens => ?_)
        fun elsewhere apart other inside => stays (only inside ?_) inside
      · replace found := (Table.get?_modify _ _ _ _).symm.trans found
        split at found
        · next same =>
          cases same
          obtain ⟨old, there, rfl⟩ := Option.map_eq_some_iff.mp found
          obtain ⟨inside, apart⟩ := List.mem_filter.mp listens
          exact stays (of_decide_eq_true apart)
            ((mem_rosterAudience_iff _ _ _).mpr ⟨pipeline, old, here, there, inside⟩)
        · next apart =>
          have inside : other ∈ graph.rosterAudience ⟨slot.stat, form, path⟩ :=
            (mem_rosterAudience_iff _ _ _).mpr ⟨pipeline, filled, here, found, listens⟩
          refine stays (only inside fun same => apart ?_) inside
          have same := Target.slot.inj same
          exact Prod.ext (congrArg SlotId.form same).symm (congrArg SlotId.path same).symm
      · rintro ⟨⟩
        exact apart rfl

/-! ### Sweeps -/

theorem Accounted.discard {gone : NodeId → Prop} (accounted : graph.Accounted)
    (discards : graph.Discards other gone)
    (unwatched : ∀ node present, gone node → graph.nodes.get? node = some present →
      present.subscribers = []) : other.Accounted where
  seated := by
    refine accounted.seated.keep (fun slot id inside => ?_) (discards.subscriptions unwatched)
    obtain ⟨pipeline, filled, here, found, listens⟩ := (mem_rosterAudience_iff _ _ _).mp inside
    obtain ⟨old, before, same, _⟩ := discards.pipeline_before here
    rw [same] at found
    exact (mem_rosterAudience_iff _ _ _).mpr ⟨old, filled, before, found, listens⟩
  owned := by
    refine accounted.owned.keep (fun _ _ force => .inl (discards.behaviors ▸ force)) ?_
    intro stat pipeline here
    obtain ⟨_, later, _⟩ := discards.pipelines stat pipeline here
    exact ⟨_, later⟩
  backs := by
    refine accounted.backs.tally discards.undisturbed.toTallies ?_
    rintro stat ⟨pipeline, here, same⟩ _
    obtain ⟨_, later, _⟩ := discards.pipelines _ pipeline here
    exact ⟨_, later, same⟩

theorem accounted_removeSlots (intact : graph.Intact vocabulary) {slots : List SlotId}
    (vacant : ∀ slot ∈ slots, graph.Vacant slot) (accounted : graph.Accounted) :
    (slots.foldl removeSlot graph).Accounted := by
  induction slots generalizing graph with
  | nil => exact accounted
  | cons slot rest inductionHypothesis =>
      have refits := (vacant slot List.mem_cons_self).refits intact.formed
      have same : (graph.removeSlot slot).members = graph.members := by
        funext stat form path
        exact members_refit refits stat form path
      refine inductionHypothesis (Intact.refit refits intact) (fun other member => ?_)
        (accounted.refit graph.subscriptions refits (fun pipeline here form path filled found id listens => ?_)
          fun other _ id inside => accounted.seated other id inside)
      · rw [Vacant, same]
        exact vacant other (List.mem_cons_of_mem slot member)
      · exact accounted.seated _ id ((mem_rosterAudience_iff _ _ _).mpr
          ⟨pipeline, filled, here, Table.get?_of_erase found, listens⟩)

/-- A pipeline goes with the behaviors of its stat. -/
theorem behaviors_removePipeline (owned : graph.Owned) (own id : StatId) :
    (graph.removePipeline own).behaviors.get? id =
      if id = own then none else graph.behaviors.get? id := by
  have lifted (entry : Record) (force : List Behavior) :
      ((((graph.close own).lift own).record entry).invalidateTargets force).behaviors =
        graph.behaviors.erase own :=
    congrArg Shape.behaviors (shape_invalidateTargets _ _)
  have absent (none : graph.behaviors.get? own = none) : graph.behaviors.get? id =
      if id = own then Option.none else graph.behaviors.get? id := by
    split
    · next same => rw [same, none]
    · rfl
  rw [removePipeline_eq]
  split
  · split
    · next none => exact absent none
    · split
      · exact Table.get?_erase _ _ _
      · rw [lifted]
        exact Table.get?_erase _ _ _
  · next missing =>
    refine absent ?_
    cases force : graph.behaviors.get? own with
    | none => rfl
    | some behaviors =>
        obtain ⟨pipeline, here⟩ := owned own behaviors force
        exact absurd (by rw [Table.contains, here]; rfl) missing

theorem Hollow.idle {own : StatId} (hollow : graph.Hollow own) : ¬ graph.Engaged own := by
  rintro ⟨form, path, some⟩
  rw [members] at some
  split at some
  · next pipeline here =>
    rw [Pipeline.members, hollow.unfilled here] at some
    exact some rfl
  · exact some rfl

theorem Accounted.removePipeline {own : StatId} (accounted : graph.Accounted)
    (hollow : graph.Hollow own) : (graph.removePipeline own).Accounted where
  seated := by
    refine accounted.seated.keep (fun slot id inside => ?_) (graph.sameBooks_removePipeline own).subscriptions
    obtain ⟨pipeline, filled, here, found, listens⟩ := (mem_rosterAudience_iff _ _ _).mp inside
    rw [pipelines_removePipeline] at here
    split at here
    · contradiction
    · exact (mem_rosterAudience_iff _ _ _).mpr ⟨pipeline, filled, here, found, listens⟩
  owned := by
    intro id behaviors force
    rw [behaviors_removePipeline accounted.owned] at force
    rw [pipelines_removePipeline]
    split at force
    · contradiction
    · next apart =>
      rw [if_neg apart]
      exact accounted.owned id behaviors force
  backs := by
    refine accounted.backs.tally (undisturbed_removePipeline hollow).toTallies ?_
    rintro stat ⟨pipeline, here, same⟩ engaged
    refine ⟨pipeline, ?_, same⟩
    rw [pipelines_removePipeline, if_neg, here]
    rintro rfl
    exact hollow.idle engaged

theorem accounted_removePipelines {stats : List StatId} (hollow : ∀ stat ∈ stats, graph.Hollow stat)
    (accounted : graph.Accounted) : (stats.foldl Graph.removePipeline graph).Accounted := by
  induction stats generalizing graph with
  | nil => exact accounted
  | cons stat rest inductionHypothesis =>
      refine inductionHypothesis (fun other member pipeline here => ?_)
        (accounted.removePipeline (hollow stat List.mem_cons_self))
      rw [pipelines_removePipeline] at here
      split at here
      · contradiction
      · exact hollow other (List.mem_cons_of_mem stat member) pipeline here

theorem accounted_swept (rules : Retention) (intact : graph.Intact vocabulary)
    (accounted : graph.Accounted) : (graph.swept rules).Accounted := by
  have discarded := accounted.discard (discards_sweep rules intact)
    fun _ _ leaves => unwatched_sweptNodes rules leaves
  have thinned := accounted_removeSlots (intact_removeSwept rules intact)
    (fun _ => vacant_sweptSlots rules intact) discarded
  have relaxes : (graph.thinned rules).Relaxes (graph.relaxed rules) _ := relaxes_relaxed rules
  have relaxed : (graph.relaxed rules).Accounted :=
    thinned.of_shape relaxes.shape (by rw [relaxes.rest]; rfl)
  exact accounted_removePipelines (fun _ member => hollow_removablePipelines rules member) relaxed

theorem accounted_sweep (rules : Retention) (intact : graph.Intact vocabulary)
    (accounted : graph.Accounted) : (graph.sweep rules).2.Accounted :=
  sweep_induction accounted (accounted_swept rules intact accounted)
    fun middle entry before => before.of_shape (shape_record middle entry) rfl

theorem accounted_stir (intact : graph.Intact vocabulary) (stir : Stir vocabulary graph other)
    (accounted : graph.Accounted) : other.Accounted := by
  cases stir with
  | explore explores => exact accounted.explore intact explores
  | deepen depth => exact accounted.of_same rfl rfl rfl rfl
  | register registered => exact accounted.of_same rfl rfl rfl rfl
  | watch resolved within route readings =>
      exact (accounted_obtainWatched accounted intact resolved within route).explore
        (intact_obtainWatched intact resolved within route readings)
        (explores_settleWatched intact resolved within route readings)
  | watchRoster within route => exact accounted_subscribeRoster accounted intact within route
  | unwatch id => exact accounted_unsubscribe accounted intact id

theorem accounted_move (intact : graph.Intact vocabulary) (move : Move vocabulary graph other)
    (accounted : graph.Accounted) : other.Accounted := by
  cases move with
  | stir stir => exact accounted_stir intact stir accounted
  | flush announceRosters =>
      exact accounted.extend (extends_flush intact announceRosters)
        (enduring_owned.flush (fun _ owned => owned) announceRosters accounted.owned)
  | sweep rules => exact accounted_sweep rules intact accounted

/-! ### Modifiers that come and go -/

theorem Keeps.eq (keeps : graph.Keeps stat) {kept : Stat} (other : graph.Keeps kept)
    (same : stat.id = kept.id) : stat = kept := by
  obtain ⟨pipeline, here, rfl⟩ := keeps
  obtain ⟨again, there, rfl⟩ := other
  rw [same, there] at here
  cases here
  rfl

theorem owned_relink (owned : graph.Owned) (links : Links) (entry : Record) (source target : StatId) :
    (graph.relink links entry source target).Owned :=
  Owned.of_shape (show Owned { graph with links } from owned) (shape_relink _ _ _ _ _)

theorem owned_changeRoster (owned : graph.Owned) (slot : SlotId) (filled : Slot) (memberships : Nat)
    (change : Delta ModifierId) (widens : Bool) :
    (graph.changeRoster slot filled memberships change widens).Owned :=
  (owned.modifyPipeline slot.stat _).of_shape (shape_changeRoster _ _ _ _ _ _)

/-- A stat that a modifier joins is backed, and so is what was backed before. -/
theorem Recruits.backs (recruits : Recruits stat graph other) (joins : Joins modifier [stat] graph other)
    (backs : graph.Backs) : other.Backs := by
  have kept (conveyor : Stat) (keeps : graph.Keeps conveyor) (engaged : graph.Engaged conveyor.id) :
      other.Keeps conveyor ∧ other.Engaged conveyor.id :=
    ⟨recruits.keeps conveyor keeps, (joins.engaged_iff _).mpr (.inr engaged)⟩
  by_cases busy : graph.Engaged stat.id
  · exact backs.keep (recruits.engaged busy) kept
  · obtain ⟨own, keeps, same, links⟩ := recruits.idle busy
    refine ⟨links ▸ backs.proper.register own, fun share source target conveyor conveys => ?_⟩
    rw [links, Links.conveyor?_register] at conveys
    split at conveys
    · next route =>
      cases conveys
      exact ⟨⟨keeps, (joins.engaged_iff _).mpr (.inl ⟨stat, List.mem_cons_self, same.symm⟩)⟩, route⟩
    · obtain ⟨⟨keeps, engaged⟩, route⟩ := backs.conveys share source target conveyor conveys
      exact ⟨kept conveyor keeps engaged, route⟩

/-- A stat that its last modifier leaves conveys no more; all others are backed as before. -/
theorem Releases.backs (releases : Releases stat graph other)
    (quits : Quits modifier [stat] graph other) (backs : graph.Backs) : other.Backs := by
  have stays {id : StatId} (apart : id ≠ stat.id) (engaged : graph.Engaged id) : other.Engaged id := by
    obtain ⟨form, path, some⟩ := engaged
    refine ⟨form, path, ?_⟩
    rwa [quits.members, if_neg fun serves => apart (Modifier.servesAmong_singleton.mp serves).1]
  by_cases busy : other.Engaged stat.id
  · refine backs.keep (releases.engaged busy) fun conveyor keeps engaged => ⟨releases.keeps _ keeps, ?_⟩
    by_cases same : conveyor.id = stat.id
    · rwa [same]
    · exact stays same engaged
  · obtain ⟨own, here, same, links⟩ := releases.idle busy
    refine ⟨links ▸ backs.proper.revoke own, fun share source target conveyor conveys => ?_⟩
    rw [links, Links.conveyor?_revoke] at conveys
    split at conveys
    · contradiction
    · next elsewhere =>
      obtain ⟨⟨keeps, engaged⟩, route⟩ := backs.conveys share source target conveyor conveys
      refine ⟨⟨releases.keeps _ keeps, stays (fun equal => ?_) engaged⟩, route⟩
      rw [keeps.eq here (equal.trans same.symm)] at route
      exact elsewhere route

theorem accounted_joinRoster (closed : vocabulary.Closed) (sound : graph.Sound vocabulary)
    (known : graph.modifiers.get? modifier.id = some modifier) (member : stat ∈ modifier.stats)
    (resolved : stat.isResolved = true) (counted : graph.Counted) (accounted : graph.Accounted) :
    (joinRoster modifier graph stat).Accounted := by
  have within := (sound.formed.present _ modifier known).2.1.stats stat member
  have route : modifier.path.Within vocabulary := Modifier.Within.path closed modifier
  constructor
  · exact accounted.seated.audience (turns_joinRoster closed sound known member resolved).1.audience
  · have grown := owned_obtain accounted.owned stat modifier.form.stage modifier.path
    obtain ⟨ready, pipeline, rfl, here, ⟨joined, _⟩ | ⟨roster, change, _, joined⟩⟩ :=
      joinRoster_cases sound.formed sound.stacked resolved within route
    · exact joined.symm ▸ grown
    · have received := owned_changeRoster grown ⟨stat.id, modifier.form, modifier.path.id⟩
        { seat modifier pipeline with roster } (pipeline.memberships + 1) change
        (!modifier.path.isMain && !pipeline.hasMembersOn modifier.path.id)
      rw [joined, linkIf]
      split
      · split
        · exact owned_relink received _ _ _ _
        · exact received
      · exact received
  · exact (recruits_joinRoster sound counted resolved within route).backs
      (joins_joinRoster sound resolved within route) accounted.backs

theorem accounted_leaveRoster (sound : graph.Sound vocabulary) (counted : graph.Counted)
    (modifier : Modifier) (stat : Stat) (accounted : graph.Accounted) :
    (leaveRoster modifier graph stat).Accounted := by
  by_cases inside : modifier.id ∈ graph.members stat.id modifier.form modifier.path.id
  · constructor
    · exact accounted.seated.audience (leaves_leaveRoster sound modifier stat).1.turns.audience
    · rcases graph.leaveRoster_cases modifier stat with ⟨same, _⟩ |
        ⟨pipeline, slot, roster, change, _, _, _, left⟩
      · exact same.symm ▸ accounted.owned
      · have dismissed := owned_changeRoster accounted.owned ⟨stat.id, modifier.form, modifier.path.id⟩
          { slot with roster } (pipeline.memberships - 1) change (!modifier.path.isMain &&
            !(pipeline.fill modifier.form modifier.path.id { slot with roster }
              (pipeline.memberships - 1)).hasMembersOn modifier.path.id)
        rw [left, unlinkIf]
        split
        · split
          · exact owned_relink dismissed _ _ _ _
          · exact dismissed
        · exact dismissed
    · exact (releases_leaveRoster sound.formed counted inside).backs
        (quits_leaveRoster sound.formed modifier stat) accounted.backs
  · exact (leaveRoster_absent sound.formed inside).symm ▸ accounted

theorem accounted_joinRosters (closed : vocabulary.Closed) {stats : List Stat}
    (sound : graph.Sound vocabulary) (known : graph.modifiers.get? modifier.id = some modifier)
    (named : ∀ stat ∈ stats, stat ∈ modifier.stats ∧ stat.isResolved = true) (counted : graph.Counted)
    (accounted : graph.Accounted) : (stats.foldl (joinRoster modifier) graph).Accounted := by
  revert counted accounted
  refine joinRosters_induct closed stats graph sound known named (fun _ _ _ accounted => accounted) ?_
  intro head rest graph joining later counted accounted
  have joins := joins_joinRoster joining.sound joining.resolved joining.within
    (Modifier.Within.path closed modifier)
  exact later (joins.counted counted) (accounted_joinRoster closed joining.sound joining.known
    joining.member joining.resolved counted accounted)

theorem accounted_leaveRosters (modifier : Modifier) (stats : List Stat)
    (sound : graph.Sound vocabulary) (counted : graph.Counted) (accounted : graph.Accounted) :
    (stats.foldl (leaveRoster modifier) graph).Accounted := by
  induction stats generalizing graph with
  | nil => exact accounted
  | cons head rest inductionHypothesis =>
      exact inductionHypothesis (leaves_leaveRoster sound modifier head).1.turns.sound
        ((quits_leaveRoster sound.formed modifier head).counted counted)
        (accounted_leaveRoster sound counted modifier head accounted)

theorem accounted_addModifier (closed : vocabulary.Closed) (intact : graph.Intact vocabulary)
    (within : modifier.Within vocabulary) (counted : graph.Counted) (accounted : graph.Accounted) :
    (graph.addModifier modifier).2.Accounted := by
  rcases graph.addModifier_cases modifier with ⟨_, same⟩ | ⟨absent, ⟨_, _, same⟩ | ⟨resolved, same⟩⟩
  · exact same.symm ▸ accounted
  · exact same.symm ▸ accounted
  · rw [same]
    have noted := intact.record (.adding modifier.id modifier.description)
    have introduced := turns_introduce noted.formed absent noted.toSound within
    exact accounted_joinRosters closed introduced.sound (Table.get?_insert_self _ _ _)
      (fun stat member => ⟨member, resolved stat member⟩) counted
      (accounted.of_same rfl rfl rfl rfl)

theorem accounted_removeModifier (intact : graph.Intact vocabulary) (counted : graph.Counted)
    (accounted : graph.Accounted) (id : ModifierId) : (graph.removeModifier id).2.Accounted := by
  cases known : graph.modifiers.get? id with
  | none =>
      rw [removeModifier, known]
      exact accounted
  | some modifier =>
      obtain ⟨rfl, _, _⟩ := intact.formed.present id modifier known
      obtain ⟨node, found, removed⟩ := removeModifier_eq intact.toSound known
      obtain ⟨leaves, _⟩ := leaves_dismissed intact.toSound known
      have noted := intact.record (.removing modifier.id modifier.description)
      have left : (graph.dismissed modifier).Accounted :=
        accounted_leaveRosters modifier modifier.stats noted.toSound counted
          (accounted.of_shape (shape_record graph _) rfl)
      have attended : (graph.dismissed modifier).Attended :=
        leaves.turns.audience.attended noted.watched.attended
      have unwatched : ∀ other present, other ∈ [node] →
          (graph.dismissed modifier).nodes.get? other = some present → present.subscribers = [] := by
        intro other present same there
        rw [List.mem_singleton.mp same] at there
        exact attended.unwatched (addressed_dismissed intact.toSound known found) there
      rw [removed]
      exact (left.discard (discards_dismissed intact.toSound known intact.wired.joined node) unwatched).of_same rfl rfl rfl rfl

end Graph

/-! ### Runs -/

open CharacterSheet.Graph

section Runs

variable {vocabulary : Vocabulary} {sheet : Sheet} {roll : List Modifier}
  (closed : vocabulary.Closed)
include closed

theorem lasting_accounted : Lasting vocabulary Accounted where
  move := fun _ _ intact move accounted => accounted_move intact move accounted
  add := fun _ _ intact counted within accounted =>
    accounted_addModifier closed intact within counted accounted
  remove := fun _ id intact counted accounted => accounted_removeModifier intact counted accounted id

/-- Every run leaves a graph accounted for. -/
theorem Sheet.accounted_run {operations : List Operation} (intact : sheet.graph.Intact vocabulary)
    (enrolled : sheet.graph.Enrolled roll) (accounted : sheet.graph.Accounted)
    (within : ∀ operation ∈ operations, operation.Within vocabulary) :
    (sheet.run operations).graph.Accounted :=
  (lasting_accounted closed).run closed intact enrolled accounted within

end Runs

/-- Whatever is done with a new sheet, the graph behind it is accounted for. -/
theorem Sheet.accounted_everything (settings : Settings) (retention : Retention)
    (operations : List Operation) : (run { settings, retention } operations).graph.Accounted :=
  accounted_run Vocabulary.closed_everything .initial .initial .initial
    (Operation.all_within_everything operations)

end CharacterSheet
