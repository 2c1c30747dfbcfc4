import CharacterSheet.Proofs.History.Chronicles

/-!
Contract: the chronicle of a run.

Owns:
- what happens when modifiers come, when a sweep removes pipelines, and when a batch is closed;
- modifiers that go and rosters that change leave the same behaviors in force;
- the events of every operation on a sheet, and the chronicle of a run;
- the chronicle of every run unfolds.

Whatever is to hold at each event of a run is shown for one event, and then along the chronicle.
-/

namespace CharacterSheet

namespace Graph

variable {graph middle other : Graph}

/-! ### Modifiers that come -/

/-- What happens when a modifier is added. -/
def adding (modifier : Modifier) (graph : Graph) : List Event :=
  if graph.modifiers.contains modifier.id then []
  else
    match modifier.unresolved? with
    | some _ => []
    | none => narrate (joinRoster modifier) (fun graph stat => graph.opening stat)
        ((graph.record (.adding modifier.id modifier.description)).introduce modifier) modifier.stats

/-- What happens when modifiers are added until one is refused. -/
def addingEach : List Modifier → Graph → List Event
  | [], _ => []
  | modifier :: rest, graph =>
      graph.adding modifier ++
        match graph.addModifier modifier with
        | (.error _, _) => []
        | (.ok _, after) => after.addingEach rest

theorem sameForce_changeRoster (graph : Graph) (slot : SlotId) (filled : Slot) (memberships : Nat)
    (change : Delta ModifierId) (widens : Bool) :
    graph.SameForce (graph.changeRoster slot filled memberships change widens) := by
  have enters : graph.SameForce (graph.enterRoster slot filled memberships) :=
    sameForce_modifyPipeline graph slot.stat fun _ => rfl
  exact enters.trans (.of_shape (shape_changeRoster graph slot filled memberships change widens))

theorem sameForce_relink (graph : Graph) (links : Links) (entry : Record) (source target : StatId) :
    graph.SameForce (graph.relink links entry source target) := by
  have same : graph.SameForce ({ graph with links }.record entry) := ⟨rfl, rfl⟩
  rw [relink, linkChanged_eq]
  exact same.trans (sameForce_invalidateAll _ _)

theorem sameForce_linkIf (graph : Graph) (first : Prop) [Decidable first] (stat : Stat) :
    graph.SameForce (graph.linkIf first stat) := by
  unfold linkIf
  split
  · split
    · exact sameForce_relink _ _ _ _ _
    · exact .refl graph
  · exact .refl graph

theorem unfolds_joinRoster (formed : graph.WellFormed .everything) (stacked : graph.Stacked)
    (modifier : Modifier) {stat : Stat} (resolved : stat.isResolved = true) :
    graph.Unfolds (graph.opening stat) (joinRoster modifier graph stat) := by
  have opens := (unfolds_opening formed stacked stat).later
    (sameForce_obtain graph stat modifier.form.stage modifier.path)
  have route : modifier.path.Within .everything := modifier.path.within_everything
  obtain ⟨_, pipeline, rfl, _, ⟨same, _⟩ | ⟨roster, change, _, joined⟩⟩ :=
    joinRoster_cases formed stacked resolved stat.within_everything.headWithin route
  · rwa [same]
  · rw [joined]
    exact (opens.later (sameForce_changeRoster _ _ _ _ _ _)).later (sameForce_linkIf _ _ _)

theorem unfolds_joinRosters {modifier : Modifier} {stats : List Stat}
    (sound : graph.Sound .everything) (known : graph.modifiers.get? modifier.id = some modifier)
    (named : ∀ stat ∈ stats, stat ∈ modifier.stats ∧ stat.isResolved = true) :
    graph.Unfolds (narrate (joinRoster modifier) (fun graph stat => graph.opening stat) graph stats)
      (stats.foldl (joinRoster modifier) graph) := by
  refine joinRosters_induct Vocabulary.closed_everything stats graph sound known named
    (fun graph _ => SameForce.refl graph) ?_
  intro head rest graph joining later
  exact (unfolds_joinRoster joining.sound.formed joining.sound.stacked modifier
    joining.resolved).trans later

theorem unfolds_addModifier (sound : graph.Sound .everything) (modifier : Modifier) :
    graph.Unfolds (graph.adding modifier) (graph.addModifier modifier).2 := by
  unfold adding
  rcases graph.addModifier_cases modifier with
    ⟨present, same⟩ | ⟨absent, ⟨stat, bound, same⟩ | ⟨resolved, same⟩⟩
  · rw [same, if_pos (by simpa [Table.contains] using present)]
    exact SameForce.refl graph
  · rw [same, if_neg (by simp [Table.contains, absent]), bound]
    exact SameForce.refl graph
  · have unbound : modifier.unresolved? = none :=
      List.find?_eq_none.mpr fun stat member => by simp [resolved stat member]
    have noted : Turns .everything graph
        (graph.record (.adding modifier.id modifier.description)) :=
      .of_advance sound (.record sound.formed sound.stacked rfl) (.of_shape rfl rfl rfl)
    have introduced := turns_introduce noted.sound.formed absent noted.sound modifier.within_everything
    have came : graph.SameForce
        ((graph.record (.adding modifier.id modifier.description)).introduce modifier) := ⟨rfl, rfl⟩
    rw [same, if_neg (by simp [Table.contains, absent]), unbound]
    exact (unfolds_joinRosters introduced.sound (Table.get?_insert_self _ _ _)
      fun stat member => ⟨member, resolved stat member⟩).before came

/-! ### Modifiers that go -/

theorem sameForce_unlinkIf (graph : Graph) (last : Prop) [Decidable last] (stat : Stat) :
    graph.SameForce (graph.unlinkIf last stat) := by
  unfold unlinkIf
  split
  · split
    · exact sameForce_relink _ _ _ _ _
    · exact .refl graph
  · exact .refl graph

theorem sameForce_leaveRoster (modifier : Modifier) (graph : Graph) (stat : Stat) :
    graph.SameForce (leaveRoster modifier graph stat) := by
  rcases graph.leaveRoster_cases modifier stat with ⟨same, _⟩ |
    ⟨pipeline, slot, roster, change, _, _, _, left⟩
  · exact same.symm ▸ .refl graph
  · have dismisses : graph.SameForce
        (graph.dismiss modifier stat.id pipeline { slot with roster } change) :=
      sameForce_changeRoster _ _ _ _ _ _
    rw [left]
    exact dismisses.trans (sameForce_unlinkIf _ _ _)

theorem sameForce_removeModifier (graph : Graph) (id : ModifierId) :
    graph.SameForce (graph.removeModifier id).2 := by
  unfold removeModifier
  split
  · exact .refl graph
  · next modifier _ =>
    have noted : graph.SameForce ({ graph with modifiers := graph.modifiers.erase id }.record
        (.removing id modifier.description)) := ⟨rfl, rfl⟩
    have left := noted.trans (.foldl (sameForce_leaveRoster modifier) modifier.stats _)
    dsimp only
    split
    · exact left
    · refine left.trans (SameForce.trans ?_ (sameForce_removeNodes _ _))
      exact ⟨rfl, rfl⟩

theorem sameForce_removeEach (graph : Graph) (ids : List ModifierId) (count : Nat) :
    graph.SameForce (Sheet.removeEach graph ids count).2 := by
  induction ids generalizing graph count with
  | nil => exact .refl graph
  | cons id rest inductionHypothesis =>
      exact (sameForce_removeModifier graph id).trans (inductionHypothesis _ _)

/-! ### Sweeps -/

/-- What happens when what nobody needs is removed. -/
def sweeping (rules : Retention) (graph : Graph) : List Event :=
  if 0 < graph.pending.depth then []
  else narrate removePipeline (fun graph stat => [.closed stat graph]) (graph.relaxed rules)
    ((graph.relaxed rules).removablePipelines rules)

/-- Only pipelines that are there and list nothing are removed. -/
theorem empty_removablePipelines {rules : Retention} {stat : StatId}
    (member : stat ∈ graph.removablePipelines rules) :
    ∃ pipeline, graph.pipelines.get? stat = some pipeline ∧ pipeline.isEmpty = true := by
  obtain ⟨⟨own, pipeline⟩, inside, rfl⟩ := List.mem_map.mp member
  obtain ⟨listed, removable⟩ := List.mem_filter.mp inside
  simp only [Bool.and_eq_true] at removable
  exact ⟨pipeline, (Table.get?_eq_some_iff _ _ _).mpr listed, removable.1.1⟩

theorem unfolds_removePipelines {stats : List StatId} (intact : graph.Intact .everything)
    (distinct : stats.Nodup)
    (empty : ∀ stat ∈ stats, ∃ pipeline, graph.pipelines.get? stat = some pipeline ∧
      pipeline.isEmpty = true) :
    graph.Unfolds (narrate removePipeline (fun graph stat => [.closed stat graph]) graph stats)
      (stats.foldl removePipeline graph) := by
  induction stats generalizing graph with
  | nil => exact SameForce.refl graph
  | cons stat rest inductionHypothesis =>
      obtain ⟨absent, distinct⟩ := List.nodup_cons.mp distinct
      obtain ⟨pipeline, here, hollow⟩ := empty stat List.mem_cons_self
      have removed : (graph.removePipeline stat).Intact .everything := by
        refine intact_removePipeline intact fun other found => ?_
        cases here.symm.trans found
        exact hollow
      refine ⟨.refl graph, ⟨intact.formed, intact.stacked, pipeline, here, hollow⟩,
        inductionHypothesis removed distinct fun other member => ?_⟩
      obtain ⟨there, found, idle⟩ := empty other (List.mem_cons_of_mem stat member)
      refine ⟨there, ?_, idle⟩
      have apart : other ≠ stat := fun same => absent (same ▸ member)
      rw [Event.after, pipelines_removePipeline, if_neg apart, found]

theorem unfolds_sweep (intact : graph.Intact .everything) (rules : Retention) :
    graph.Unfolds (graph.sweeping rules) (graph.sweep rules).2 := by
  rw [sweep_eq, sweeping]
  split
  · exact SameForce.refl graph
  · have removes : graph.Unfolds (narrate removePipeline (fun graph stat => [.closed stat graph])
        (graph.relaxed rules) ((graph.relaxed rules).removablePipelines rules)) (graph.swept rules) :=
      (unfolds_removePipelines (intact_relaxed rules intact) (nodup_removablePipelines _)
        fun _ => empty_removablePipelines).before (sameForce_relaxed graph rules)
    dsimp only
    split
    · exact removes
    · exact removes.later (sameForce_record _ _)

/-! ### The ends of batches -/

/-- What happens when the outermost batch ends. -/
def concluding (settings : Settings) (rules : Retention) (graph : Graph) : List Event :=
  graph.flushing settings.announceRosters ++
    if settings.sweepAfterBatch then
      let announced := graph.flush settings.announceRosters
      let swept := (announced.sweep rules).2
      announced.sweeping rules ++
        if swept.pending.isEmpty then [] else swept.flushing settings.announceRosters
    else []

theorem unfolds_concluded (intact : graph.Intact .everything) (settings : Settings)
    (rules : Retention) :
    graph.Unfolds (graph.concluding settings rules) (graph.concluded settings rules) := by
  have first := unfolds_flush intact settings.announceRosters
  have flushed := intact_flush intact settings.announceRosters
  have sweeps := unfolds_sweep flushed rules
  unfold concluding concluded
  dsimp only
  split
  · split
    · rw [List.append_nil]
      exact first.trans sweeps
    · exact first.trans (sweeps.trans (unfolds_flush (intact_sweep rules flushed) _))
  · rw [List.append_nil]
    exact first

end Graph

open CharacterSheet.Graph

/-! ### Operations -/

namespace Sheet

/-- What happens when a batch is closed. -/
def ending (sheet : Sheet) : List Event :=
  match sheet.batchDepth with
  | 1 => (sheet.graph.modifyPending fun pending =>
      { pending with depth := 0 }).concluding sheet.settings sheet.retention
  | _ => []

/-- What happens when a change that unfolds as it is told is made in a batch of its own. -/
def batching (sheet : Sheet) (told : Graph → List Event) (change : Graph → Graph) : List Event :=
  told sheet.beginBatch.graph ++
    (sheet.beginBatch.withGraph (change sheet.beginBatch.graph)).ending

/-- What happens when all changes that wait are announced, unless a batch is open. -/
def idling (sheet : Sheet) : List Event :=
  if 0 < sheet.batchDepth then [] else sheet.graph.flushing sheet.settings.announceRosters

/-- What happens while a plan is run for a caller. -/
def performing {α : Type} (sheet : Sheet) (plan : Plan α) : List Event :=
  sheet.graph.performing plan ++ (sheet.withGraph (sheet.graph.perform plan).2).idling

/-- What happens in the course of an operation. -/
def events (sheet : Sheet) : Operation → List Event
  | .add modifier =>
      sheet.batching (·.adding modifier) fun graph => (graph.addModifier modifier).2
  | .addAll modifiers =>
      sheet.batching (·.addingEach modifiers) fun graph => (addEach graph modifiers 0).2
  | .remove id => sheet.batching (fun _ => []) fun graph => (graph.removeModifier id).2
  | .removeAll ids => sheet.batching (fun _ => []) fun graph => (removeEach graph ids 0).2
  | .value stat stage path => sheet.performing (Plan.read stat stage path)
  | .breakdown stat => sheet.performing (sheet.graph.breakdownPlan stat)
  | .subscribe stat stage path reads =>
      if stat.isResolved then
        let node := (sheet.graph.obtain stat stage path).1
        let watched := sheet.graph.obtainWatched stat stage path reads
        sheet.graph.opening stat ++ (watched.reading node ++
          (sheet.withGraph (watched.settle node)).idling)
      else []
  | .subscribeRoster stat _ _ => if stat.isResolved then sheet.graph.opening stat else []
  | .register stat =>
      sheet.batching (fun graph => if stat.isResolved then graph.opening stat else [])
        fun graph => (registering stat graph).2
  | .unregister stat => sheet.batching (fun _ => []) fun graph =>
      { graph with registered := graph.registered.filter (· ≠ stat) }
  | .endBatch | .closeBlock => sheet.ending
  | .sweep =>
      match sheet.sweepOnly with
      | (.error _, _) => []
      | (.ok _, swept) =>
          sheet.graph.sweeping sheet.retention ++
            swept.graph.flushing swept.settings.announceRosters
  | .unsubscribe _ | .beginBatch | .retain _ => []

/-- All that happens in a run: what can be seen of the graph before and after each operation, and what
happens in the course of each. -/
def chronicle (sheet : Sheet) : List Operation → List Event
  | [] => [.look sheet.graph]
  | operation :: rest =>
      .look sheet.graph :: (sheet.events operation ++ (sheet.apply operation).chronicle rest)

variable {sheet : Sheet}

theorem unfolds_addEach {graph : Graph} (intact : graph.Intact .everything)
    (modifiers : List Modifier) (count : Nat) :
    graph.Unfolds (graph.addingEach modifiers) (addEach graph modifiers count).2 := by
  induction modifiers generalizing graph count with
  | nil => exact SameForce.refl graph
  | cons modifier rest inductionHypothesis =>
      have first := unfolds_addModifier intact.toSound modifier
      obtain ⟨turns, wired⟩ := turns_addModifier Vocabulary.closed_everything intact.toSound
        intact.wired modifier.within_everything
      have kept := intact.turn turns wired
      rw [addEach, addingEach]
      rcases outcome : graph.addModifier modifier with ⟨_ | isNew, after⟩ <;>
        rw [outcome] at first kept
      · dsimp only
        rwa [List.append_nil]
      · exact first.trans (inductionHypothesis kept _)

theorem unfolds_registering {graph : Graph} (intact : graph.Intact .everything) (stat : Stat) :
    graph.Unfolds (if stat.isResolved then graph.opening stat else []) (registering stat graph).2 := by
  unfold registering obtain?
  by_cases resolved : stat.isResolved = true
  · have opens := (unfolds_opening intact.formed intact.stacked stat).later
      (sameForce_obtain graph stat .total .main)
    simp only [resolved, ↓reduceIte]
    split
    · exact opens
    · exact opens.later ⟨rfl, rfl⟩
  · simp only [resolved, Bool.false_eq_true, ↓reduceIte]
    exact SameForce.refl graph

theorem unfolds_subscribeRoster {graph : Graph} (intact : graph.Intact .everything) (stat : Stat)
    (form : Form) (path : Path) :
    graph.Unfolds (if stat.isResolved then graph.opening stat else [])
      (graph.subscribeRoster stat form path).2 := by
  rw [subscribeRoster_eq]
  split
  · have numbers (graph : Graph) (target : Target) :
        graph.SameForce (graph.newSubscription target).2 := ⟨rfl, rfl⟩
    exact (unfolds_opening intact.formed intact.stacked stat).later
      ((numbers _ _).trans (sameForce_modifyPipeline _ _ fun _ => rfl))
  · exact SameForce.refl graph

theorem sameForce_unsubscribe (graph : Graph) (id : SubscriptionId) :
    graph.SameForce (graph.unsubscribe id).2 := by
  unfold Graph.unsubscribe
  split
  · exact .refl graph
  · next target _ =>
    have struck : graph.SameForce { graph with subscriptions := graph.subscriptions.erase id } :=
      ⟨rfl, rfl⟩
    cases target with
    | node node => exact ⟨rfl, rfl⟩
    | slot slot => exact struck.trans (sameForce_modifyPipeline _ _ fun _ => rfl)

theorem unfolds_endBatch (intact : sheet.graph.Intact .everything) :
    sheet.graph.Unfolds sheet.ending sheet.endBatch.2.graph := by
  have deepens (depth : Nat) : sheet.graph.SameForce
      (sheet.graph.modifyPending fun pending => { pending with depth }) := ⟨rfl, rfl⟩
  rw [endBatch_eq intact, ending]
  rcases sheet.batchDepth with _ | _ | depth
  · exact SameForce.refl sheet.graph
  · exact (unfolds_concluded (intact.deepen 0) sheet.settings sheet.retention).before (deepens 0)
  · exact deepens (depth + 1)

/-- A change may be made in a batch of its own. -/
theorem unfolds_inBatch {α : Type} (told : Graph → List Event)
    (change : Graph → Except Fault α × Graph)
    (intact : (change sheet.beginBatch.graph).2.Intact .everything)
    (changes : sheet.beginBatch.graph.Unfolds (told sheet.beginBatch.graph)
      (change sheet.beginBatch.graph).2) :
    sheet.graph.Unfolds (sheet.batching told fun graph => (change graph).2)
      (sheet.inBatch change).2.graph := by
  have begins : sheet.graph.SameForce sheet.beginBatch.graph := ⟨rfl, rfl⟩
  have ends : (sheet.beginBatch.withGraph (change sheet.beginBatch.graph).2).graph.Unfolds
      (sheet.beginBatch.withGraph (change sheet.beginBatch.graph).2).ending
      (sheet.inBatch change).2.graph := unfolds_endBatch intact
  exact (changes.before begins).trans ends

theorem unfolds_flushIfIdle (intact : sheet.graph.Intact .everything) :
    sheet.graph.Unfolds sheet.idling sheet.flushIfIdle.graph := by
  unfold idling flushIfIdle
  split
  · exact SameForce.refl sheet.graph
  · exact unfolds_flush intact sheet.settings.announceRosters

theorem unfolds_read (intact : sheet.graph.Intact .everything) {α : Type} {plan : Plan α}
    (asks : plan.Asks (statedScope .everything)) :
    sheet.graph.Unfolds (sheet.performing plan)
      (sheet.withGraph (sheet.graph.perform plan).2).flushIfIdle.graph := by
  have reads := (sheet.graph.recounts_perform asks intact.toResting).2
  have explores := explores_perform intact.toResting asks
  have last : (sheet.withGraph (sheet.graph.perform plan).2).graph.Unfolds
      (sheet.withGraph (sheet.graph.perform plan).2).idling
      (sheet.withGraph (sheet.graph.perform plan).2).flushIfIdle.graph :=
    unfolds_flushIfIdle (intact.explore explores)
  exact reads.trans last

/-- A new subscriber has its node calculated, and what waits may be announced. -/
theorem unfolds_subscribe (intact : sheet.graph.Intact .everything) (stat : Stat) (stage : Stage)
    (path : Path) (reads : List Reading) :
    sheet.graph.Unfolds (sheet.events (.subscribe stat stage path reads))
      (sheet.subscribe stat stage path reads).2.graph := by
  have named : stat.HeadWithin .everything := stat.within_everything.headWithin
  have route : path.Within .everything := path.within_everything
  have readings (reading : Reading) (_ : reading ∈ reads) : reading.Within .everything :=
    ⟨reading.stat.within_everything.headWithin, reading.path.within_everything⟩
  unfold events subscribe
  rw [subscribe_eq]
  by_cases resolved : stat.isResolved = true
  · simp only [if_pos resolved]
    have watches : (sheet.graph.obtain stat stage path).2.SameForce
        (sheet.graph.obtainWatched stat stage path reads) := ⟨rfl, rfl⟩
    have opens := (unfolds_opening intact.formed intact.stacked stat).later
      ((sameForce_obtain sheet.graph stat stage path).trans watches)
    have watched : (sheet.graph.obtainWatched stat stage path reads).Intact .everything :=
      intact_obtainWatched intact resolved named route readings
    have settles := ((sheet.graph.obtainWatched stat stage path reads).recounts_settle
      (sheet.graph.obtain stat stage path).1 watched.toResting).2
    have settled := watched.explore
      (explores_settleWatched intact resolved named route readings)
    generalize (sheet.graph.obtainWatched stat stage path reads).settle
      (sheet.graph.obtain stat stage path).1 = after at settles settled ⊢
    have last : (sheet.withGraph after).graph.Unfolds (sheet.withGraph after).idling
        (sheet.withGraph after).flushIfIdle.graph := unfolds_flushIfIdle settled
    exact opens.trans (settles.trans last)
  · simp only [if_neg resolved]
    exact SameForce.refl sheet.graph

/-- Every operation unfolds as it is told. -/
theorem unfolds_apply (intact : sheet.graph.Intact .everything) (operation : Operation) :
    sheet.graph.Unfolds (sheet.events operation) (sheet.apply operation).graph := by
  have begun : sheet.beginBatch.graph.Intact .everything := intact.deepen _
  have within := operation.within_everything
  have changed := intact_turnover Vocabulary.closed_everything begun within
  cases operation with
  | add modifier =>
      exact unfolds_inBatch (·.adding modifier) (·.addModifier modifier) changed
        (unfolds_addModifier begun.toSound modifier)
  | addAll modifiers =>
      exact unfolds_inBatch (·.addingEach modifiers) (addEach · modifiers 0) changed
        (unfolds_addEach begun modifiers 0)
  | remove id =>
      let change (graph : Graph) : Except Fault Bool × Graph :=
        (.ok (graph.removeModifier id).1, (graph.removeModifier id).2)
      exact unfolds_inBatch (fun _ => []) change changed (sameForce_removeModifier _ id)
  | removeAll ids =>
      let change (graph : Graph) : Except Fault Nat × Graph :=
        (.ok (removeEach graph ids 0).1, (removeEach graph ids 0).2)
      exact unfolds_inBatch (fun _ => []) change changed (sameForce_removeEach _ ids 0)
  | value stat stage path => exact unfolds_read intact (Plan.asks_read within)
  | breakdown stat => exact unfolds_read intact (breakdownPlan_asks intact.formed within)
  | subscribe stat stage path reads => exact unfolds_subscribe intact stat stage path reads
  | subscribeRoster stat form path => exact unfolds_subscribeRoster intact stat form path
  | unsubscribe id => exact sameForce_unsubscribe sheet.graph id
  | register stat =>
      have stirs := stirs_registering sheet.beginBatch.graph within
      exact unfolds_inBatch (fun graph => if stat.isResolved then graph.opening stat else [])
        (registering stat) (stirs.intact begun) (unfolds_registering begun stat)
  | unregister stat =>
      let change (graph : Graph) : Except Fault Bool × Graph :=
        (.ok (decide (stat ∈ graph.registered)),
          { graph with registered := graph.registered.filter (· ≠ stat) })
      exact unfolds_inBatch (fun _ => []) change (begun.register _) ⟨rfl, rfl⟩
  | beginBatch => exact (⟨rfl, rfl⟩ : sheet.graph.SameForce sheet.beginBatch.graph)
  | endBatch => exact unfolds_endBatch intact
  | closeBlock =>
      have ends := unfolds_endBatch intact
      show sheet.graph.Unfolds sheet.ending sheet.closeBlock.graph
      unfold closeBlock
      split
      · next outcome => rwa [outcome] at ends
      · next outcome =>
        rw [outcome] at ends
        exact ends.later (sameForce_record _ _)
  | sweep =>
      have sweeps := unfolds_sweep intact sheet.retention
      have swept := intact_sweep sheet.retention intact
      show sheet.graph.Unfolds (match sheet.sweepOnly with
        | (.error _, _) => []
        | (.ok _, swept) => sheet.graph.sweeping sheet.retention ++
            swept.graph.flushing swept.settings.announceRosters) sheet.sweep.2.graph
      unfold sweep sweepOnly
      by_cases busy : 0 < sheet.graph.pending.depth
      · rw [sweep_eq, if_pos busy]
        exact SameForce.refl sheet.graph
      · rw [sweep_eq, if_neg busy] at sweeps swept ⊢
        exact sweeps.trans (unfolds_flush swept sheet.settings.announceRosters)
  | retain rules => exact SameForce.refl sheet.graph

theorem unfolds_chronicle (intact : sheet.graph.Intact .everything) (operations : List Operation) :
    sheet.graph.Unfolds (sheet.chronicle operations) (sheet.run operations).graph := by
  have looks : sheet.graph.Unfolds [.look sheet.graph] sheet.graph :=
    .look intact.formed intact.stacked
  induction operations generalizing sheet with
  | nil => exact looks
  | cons operation rest inductionHypothesis =>
      have later := intact_apply Vocabulary.closed_everything intact operation.within_everything
      exact looks.trans ((unfolds_apply intact operation).trans
        (inductionHypothesis later (.look later.formed later.stacked)))

/-! ### Graphs at rest -/

/-- After any operations no calculation goes on. -/
theorem resting_run (settings : Settings) (retention : Retention) (operations : List Operation) :
    (run { settings, retention } operations).graph.Resting .everything :=
  (intact_everything settings retention operations).toResting

/-- Nor does any where a node is read from outside of calculations. -/
theorem resting_read {settings : Settings} {retention : Retention} {operations : List Operation}
    {node : NodeId} {graph : Graph}
    (member : .read node graph ∈ chronicle { settings, retention } operations) :
    graph.Resting .everything :=
  have proper := (@unfolds_chronicle { settings, retention } .initial operations).proper _ member
  ⟨proper.formed, proper.stacked, proper.fits⟩

end Sheet

end CharacterSheet
