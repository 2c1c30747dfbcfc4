import CharacterSheet.Proofs.Announcement.Delivering
import CharacterSheet.Proofs.Change.Shifting

/-!
Contract: an open batch puts off whatever its changes entail.

Owns:
- preservation: all nodes of stages, all rosters and all pipelines stay where they are listed,
  whatever becomes of their contents;
- whatever happens while a batch stays open preserves a graph, and nobody is told of anything;
- how many batches are open: those that were opened and not closed since.

A graph is preserved by every stir and by every shift, so an operation can only fail to preserve it
by an announcement or by a sweep. Both come at the end of an outermost batch.
-/

namespace CharacterSheet

/-- What a pipeline lists, a later form of it lists too: the same nodes, and some roster for each
roster. -/
structure Pipeline.Remains (pipeline later : Pipeline) : Prop where
  nodes : ∀ key node, pipeline.nodes.get? key = some node → later.nodes.get? key = some node
  slots : ∀ key slot, pipeline.slots.get? key = some slot →
    ∃ filled, later.slots.get? key = some filled

namespace Pipeline.Remains

variable {pipeline middle later : Pipeline}

theorem refl (pipeline : Pipeline) : pipeline.Remains pipeline :=
  ⟨fun _ _ => id, fun _ slot found => ⟨slot, found⟩⟩

theorem trans (first : pipeline.Remains middle) (second : middle.Remains later) :
    pipeline.Remains later where
  nodes := fun key node found => second.nodes key node (first.nodes key node found)
  slots := by
    intro key slot found
    obtain ⟨filled, there⟩ := first.slots key slot found
    exact second.slots key filled there

/-- One roster may be put in its place. -/
theorem insert (nodes : later.nodes = pipeline.nodes) {key : Form × PathId} {filled : Slot}
    (slots : later.slots = pipeline.slots.insert key filled) : pipeline.Remains later where
  nodes := fun _ _ found => nodes.symm ▸ found
  slots := by
    intro other slot found
    rw [slots, Table.get?_insert]
    split
    · exact ⟨filled, rfl⟩
    · exact ⟨slot, found⟩

/-- One roster may be changed. -/
theorem modify (nodes : later.nodes = pipeline.nodes) {key : Form × PathId} {change : Slot → Slot}
    (slots : later.slots = pipeline.slots.modify key change) : pipeline.Remains later where
  nodes := fun _ _ found => nodes.symm ▸ found
  slots := by
    intro other slot found
    rw [slots, Table.get?_modify, found]
    split
    · exact ⟨change slot, rfl⟩
    · exact ⟨slot, rfl⟩

end Pipeline.Remains

namespace Graph

variable {vocabulary : Vocabulary} {graph middle other : Graph}

/-! ### Preservation -/

/-- Every pipeline remains. -/
def Preserves (graph other : Graph) : Prop :=
  ∀ stat pipeline, graph.pipelines.get? stat = some pipeline →
    ∃ later, other.pipelines.get? stat = some later ∧ pipeline.Remains later

namespace Preserves

theorem refl (graph : Graph) : graph.Preserves graph :=
  fun _ pipeline here => ⟨pipeline, here, .refl pipeline⟩

theorem trans (first : graph.Preserves middle) (second : middle.Preserves other) :
    graph.Preserves other := by
  intro stat pipeline here
  obtain ⟨between, there, remains⟩ := first stat pipeline here
  obtain ⟨later, last, still⟩ := second stat between there
  exact ⟨later, last, remains.trans still⟩

theorem of_pipelines (same : other.pipelines = graph.pipelines) : graph.Preserves other :=
  fun _ pipeline here => ⟨pipeline, same ▸ here, .refl pipeline⟩

theorem of_shape (same : other.shape = graph.shape) : graph.Preserves other :=
  of_pipelines (congrArg Shape.pipelines same)

theorem of_extends (larger : graph.Extends other) : graph.Preserves other := by
  intro stat pipeline here
  obtain ⟨nodes, there, kept⟩ := larger.pipelines stat pipeline here
  exact ⟨_, there, kept, fun _ slot found => ⟨slot, found⟩⟩

theorem of_explores (intact : graph.Intact vocabulary) (explores : Explores vocabulary graph other) :
    graph.Preserves other :=
  .of_extends (explores.advances intact.toResting).grows.toExtends

/-- The pipeline of one stat may change, as long as it remains. -/
theorem modifyPipeline (graph : Graph) (own : StatId) {change : Pipeline → Pipeline}
    (remains : ∀ pipeline : Pipeline, pipeline.Remains (change pipeline)) :
    graph.Preserves (graph.modifyPipeline own change) := by
  intro stat pipeline here
  have after := graph.pipelines.get?_modify own stat change
  rw [here] at after
  split at after
  · exact ⟨change pipeline, after, remains pipeline⟩
  · exact ⟨pipeline, after, .refl pipeline⟩

/-- Nodes of contributions may go. -/
theorem of_discards {gone : NodeId → Prop} (discards : graph.Discards other gone)
    (stays : ∀ stat pipeline key node, graph.pipelines.get? stat = some pipeline →
      pipeline.nodes.get? key = some node → ¬ gone node) : graph.Preserves other := by
  intro stat pipeline here
  obtain ⟨nodes, there, left⟩ := discards.pipelines stat pipeline here
  exact ⟨_, there, fun key node found => (left key node).mpr ⟨found, stays stat pipeline key node here found⟩,
    fun _ slot found => ⟨slot, found⟩⟩

theorem node? (preserves : graph.Preserves other) {stat : StatId} {stage : Stage} {path : PathId}
    {node : NodeId} (found : graph.node? stat stage path = some node) :
    other.node? stat stage path = some node := by
  obtain ⟨pipeline, here, listed⟩ := Option.bind_eq_some_iff.mp found
  obtain ⟨later, there, remains⟩ := preserves stat pipeline here
  exact Option.bind_eq_some_iff.mpr ⟨later, there, remains.nodes _ node listed⟩

theorem roster? (preserves : graph.Preserves other) {slot : SlotId} {roster : Roster ModifierId}
    (found : graph.roster? slot = some roster) : ∃ later, other.roster? slot = some later := by
  obtain ⟨filled, inside, -⟩ := Option.map_eq_some_iff.mp found
  obtain ⟨pipeline, here, listed⟩ := Option.bind_eq_some_iff.mp inside
  obtain ⟨later, there, remains⟩ := preserves slot.stat pipeline here
  obtain ⟨kept, still⟩ := remains.slots _ filled listed
  exact ⟨kept.roster, Option.map_eq_some_iff.mpr
    ⟨kept, Option.bind_eq_some_iff.mpr ⟨later, there, still⟩, rfl⟩⟩

end Preserves

theorem preserves_stir (intact : graph.Intact vocabulary) (stir : Stir vocabulary graph other) :
    graph.Preserves other := by
  cases stir with
  | explore explores => exact .of_explores intact explores
  | deepen depth => exact .of_pipelines rfl
  | register registered => exact .of_pipelines rfl
  | @watch stat stage path reads resolved within route readings =>
      have obtains : Explores vocabulary graph (graph.obtain stat stage path).2 :=
        explores_obtain graph resolved stage within route
      have enlists : (graph.obtain stat stage path).2.Preserves
          (graph.obtainWatched stat stage path reads) := .of_pipelines rfl
      exact ((Preserves.of_explores intact obtains).trans enlists).trans
        (.of_explores (intact_obtainWatched intact resolved within route readings)
          (explores_settleWatched intact resolved within route readings))
  | @watchRoster stat form path within route =>
      rw [subscribeRoster_eq]
      split
      · next resolved =>
        have opens := advances_ensurePipeline intact.formed intact.stacked resolved within
        refine (Preserves.of_extends opens.grows.toExtends).trans ?_
        have named : (graph.ensurePipeline stat).Preserves ((graph.ensurePipeline stat).newSubscription
          (.slot ⟨stat.id, form, (path.at form.stage).id⟩)).2 := .of_pipelines rfl
        exact named.trans (.modifyPipeline _ _ fun _ => .insert rfl rfl)
      · exact .refl graph
  | unwatch id =>
      unfold unsubscribe
      split
      · exact .refl graph
      · next target listed =>
        have ended : graph.Preserves { graph with subscriptions := graph.subscriptions.erase id } :=
          .of_pipelines rfl
        split
        · exact ended.trans (.of_pipelines rfl)
        · exact ended.trans (.modifyPipeline _ _ fun pipeline => .modify rfl rfl)

theorem preserves_shift (sound : graph.Sound vocabulary) (shift : Shift vocabulary graph other) :
    graph.Preserves other := by
  cases shift with
  | note inward => exact .of_pipelines rfl
  | introduce absent within => exact .of_pipelines rfl
  | obtain resolved within route =>
      exact .of_extends (advances_obtain sound.formed sound.stacked resolved within route).grows.toExtends
  | @amend slot filled pipeline change memberships widens here amends =>
      have enters : graph.Preserves (graph.enterRoster slot filled memberships) :=
        .modifyPipeline graph slot.stat fun pipeline => .insert rfl rfl
      exact enters.trans (.of_shape (shape_changeRoster graph slot filled memberships change widens))
  | @relink entry links source target inward =>
      have replaced : graph.Preserves { graph with links } := .of_pipelines rfl
      exact replaced.trans (.of_shape (shape_relink graph links entry source target))
  | @depart node id modifiers contributions address discards _ =>
      have left : graph.Preserves (graph.removeNodes [node]) := by
        refine .of_discards discards fun stat pipeline key other here found gone => ?_
        obtain ⟨full, staged, -⟩ := sound.formed.listed stat pipeline key.1 key.2 other here found
        rw [List.mem_singleton.mp gone, address] at staged
        cases staged
      exact left.trans (.of_pipelines rfl)

/-! ### Open batches -/

/-- What an open batch keeps: all that is listed, and what has been announced. -/
structure Defers (graph other : Graph) : Prop where
  preserves : graph.Preserves other
  announcements : other.announcements = graph.announcements

theorem Defers.refl (graph : Graph) : graph.Defers graph := ⟨.refl graph, rfl⟩

theorem Defers.trans (first : graph.Defers middle) (second : middle.Defers other) :
    graph.Defers other :=
  ⟨first.preserves.trans second.preserves, second.announcements.trans first.announcements⟩

theorem defers_stirs (intact : graph.Intact vocabulary) (stirs : Stirs vocabulary graph other) :
    graph.Defers other := by
  induction stirs with
  | refl => exact .refl graph
  | tail before stir inductionHypothesis =>
      have ready := Stirs.intact before intact
      exact inductionHypothesis.trans ⟨preserves_stir ready stir, (silent_stir ready stir).1⟩

end Graph

open CharacterSheet.Graph

variable {vocabulary : Vocabulary} {sheet : Sheet} {operation : Operation}

theorem Operation.defers_turnover (closed : vocabulary.Closed) {graph : Graph}
    (intact : graph.Intact vocabulary) (within : operation.Within vocabulary) :
    graph.Defers (operation.turnover graph) where
  preserves := (operation.shifts_turnover closed intact within).keeps .refl
    (fun _ _ _ first second => first.trans second) fun _ _ => preserves_shift
  announcements := (Sheet.turns_turnover closed intact within).1.audience.announcements

namespace Sheet

/-- Modifiers come and go between two series of stirs. -/
theorem defers_turnover (closed : vocabulary.Closed) (within : operation.Within vocabulary)
    {graph start after : Graph} (intact : graph.Intact vocabulary)
    (before : Stirs vocabulary graph start)
    (later : Stirs vocabulary (operation.turnover start) after) :
    graph.Defers after := by
  have began := before.intact intact
  have turned := intact_turnover closed began within
  exact ((defers_stirs intact before).trans (operation.defers_turnover closed began within)).trans
    (defers_stirs turned later)

/-- An operation that leaves a batch open defers what its changes entail. -/
theorem defers_apply (closed : vocabulary.Closed) (intact : sheet.graph.Intact vocabulary)
    (within : operation.Within vocabulary) (stillOpen : (sheet.apply operation).batchDepth ≠ 0) :
    sheet.graph.Defers (sheet.apply operation).graph := by
  obtain ⟨start, before, later⟩ := stirs_of_open closed intact within stillOpen
  exact defers_turnover closed within intact before later

/-- Whether a batch is open now and after each of some operations. -/
def StaysOpen (sheet : Sheet) : List Operation → Prop
  | [] => sheet.batchDepth ≠ 0
  | operation :: rest => sheet.batchDepth ≠ 0 ∧ (sheet.apply operation).StaysOpen rest

/-- Whether a batch stays open can be found out by running the operations. -/
def decidableStaysOpen (sheet : Sheet) :
    (operations : List Operation) → Decidable (sheet.StaysOpen operations)
  | [] => inferInstanceAs (Decidable (_ ≠ _))
  | operation :: rest =>
      have := decidableStaysOpen (sheet.apply operation) rest
      inferInstanceAs (Decidable (_ ∧ _))

instance (sheet : Sheet) (operations : List Operation) : Decidable (sheet.StaysOpen operations) :=
  decidableStaysOpen sheet operations

theorem StaysOpen.isOpen {operations : List Operation} (stays : sheet.StaysOpen operations) :
    sheet.batchDepth ≠ 0 := by
  cases operations with
  | nil => exact stays
  | cons operation rest => exact stays.1

theorem StaysOpen.last {operations : List Operation} (stays : sheet.StaysOpen operations) :
    (sheet.run operations).batchDepth ≠ 0 := by
  induction operations generalizing sheet with
  | nil => exact stays
  | cons operation rest inductionHypothesis => exact inductionHypothesis stays.2

theorem defers_run (closed : vocabulary.Closed) {operations : List Operation}
    (intact : sheet.graph.Intact vocabulary)
    (within : ∀ operation ∈ operations, operation.Within vocabulary)
    (stays : sheet.StaysOpen operations) : sheet.graph.Defers (sheet.run operations).graph := by
  induction operations generalizing sheet with
  | nil => exact .refl sheet.graph
  | cons operation rest inductionHypothesis =>
      have here := within operation List.mem_cons_self
      exact (defers_apply closed intact here stays.2.isOpen).trans
        (inductionHypothesis (intact_apply closed intact here)
          (fun other member => within other (List.mem_cons_of_mem operation member)) stays.2)

/-- A sweep is refused while a batch is open. -/
theorem sweep_busy (busy : sheet.batchDepth ≠ 0) : sheet.sweep = (.error .batchOpen, sheet) := by
  have positive : 0 < sheet.graph.pending.depth := Nat.pos_of_ne_zero busy
  have refused : sheet.graph.sweep sheet.retention = (.error .batchOpen, sheet.graph) := by
    rw [sweep_eq, if_pos positive]
  rw [sweep, sweepOnly, refused]
  rfl

end Sheet

/-! ### The depth of batches -/

/-- Whether all that an operation does is to open or to close a batch. -/
def Operation.isBracket : Operation → Bool
  | beginBatch | endBatch | closeBlock => true
  | _ => false

/-- How many batches an operation leaves open that it has opened. -/
def Operation.opens : Operation → Nat
  | beginBatch => 1
  | _ => 0

namespace Sheet

/-- How many batches an operation closes; a failure to close one does not count. -/
def closes (sheet : Sheet) : Operation → Nat
  | .endBatch | .closeBlock =>
      match sheet.endBatch.1 with
      | .ok _ => 1
      | .error _ => 0
  | _ => 0

/-- How many batches some operations close, one after the other. -/
def closings (sheet : Sheet) : List Operation → Nat
  | [] => 0
  | operation :: rest => sheet.closes operation + (sheet.apply operation).closings rest

theorem endBatch_idle (idle : sheet.batchDepth = 0) :
    sheet.endBatch = (.error .unbalancedBatch, sheet) := by
  unfold endBatch
  rw [idle]

theorem depth_endBatch (intact : sheet.graph.Intact vocabulary) :
    sheet.endBatch.2.batchDepth + sheet.closes .endBatch = sheet.batchDepth := by
  rw [closes, endBatch_eq intact]
  rcases depth : sheet.batchDepth with _ | _ | outer
  · exact depth
  · have closed : (sheet.graph.modifyPending fun pending => { pending with depth := 0 }).Intact
        vocabulary := intact.deepen 0
    exact congrArg (· + 1) (depth_concluded closed sheet.settings sheet.retention)
  · rfl

theorem closes_inner {depth : Nat} (intact : sheet.graph.Intact vocabulary)
    (inside : sheet.batchDepth = depth + 1) : sheet.closes .endBatch = 1 := by
  rw [closes, endBatch_eq intact, inside]
  cases depth <;> rfl

/-- A change in a batch of its own leaves as many batches open as it found. -/
theorem depth_inBatch {α : Type} {change : Graph → Except Fault α × Graph} {changed : Graph}
    (changes : (change sheet.beginBatch.graph).2 = changed) (intact : changed.Intact vocabulary)
    (depth : changed.pending.depth = sheet.batchDepth + 1) :
    (sheet.inBatch change).2.batchDepth = sheet.batchDepth := by
  have inner : (sheet.beginBatch.withGraph changed).batchDepth = sheet.batchDepth + 1 := depth
  have intact' : (sheet.beginBatch.withGraph changed).graph.Intact vocabulary := intact
  have ends := depth_endBatch intact'
  rw [closes_inner intact' inner, inner] at ends
  subst changes
  exact Nat.succ.inj ends

theorem depth_flushIfIdle (intact : sheet.graph.Intact vocabulary) :
    sheet.flushIfIdle.batchDepth = sheet.batchDepth := by
  unfold flushIfIdle
  split
  · rfl
  · exact depth_flush intact sheet.settings.announceRosters

theorem depth_explores {graph other : Graph} (intact : graph.Intact vocabulary)
    (explores : Explores vocabulary graph other) : other.pending.depth = graph.pending.depth :=
  (explores.advances intact.toResting).grows.depth

/-- Reads from outside leave as many batches open as they found. -/
theorem depth_explore {graph : Graph} (intact : sheet.graph.Intact vocabulary)
    (explores : Explores vocabulary sheet.graph graph) :
    (sheet.withGraph graph).flushIfIdle.batchDepth = sheet.batchDepth := by
  have read : (sheet.withGraph graph).graph.Intact vocabulary := intact.explore explores
  exact (depth_flushIfIdle read).trans (depth_explores intact explores)

theorem depth_subscribe (intact : sheet.graph.Intact vocabulary) {stat : Stat} {stage : Stage}
    {path : Path} {reads : List Reading} (within : stat.HeadWithin vocabulary)
    (route : path.Within vocabulary) (readings : ∀ reading ∈ reads, reading.Within vocabulary) :
    (sheet.subscribe stat stage path reads).2.batchDepth = sheet.batchDepth := by
  have result : sheet.graph.subscribe stat stage path reads = _ := subscribe_eq ..
  unfold subscribe
  by_cases resolved : stat.isResolved = true
  · rw [result, if_pos resolved]
    have watched : (sheet.graph.obtainWatched stat stage path reads).Intact vocabulary :=
      intact_obtainWatched intact resolved within route readings
    have settles : Explores vocabulary (sheet.graph.obtainWatched stat stage path reads) _ :=
      explores_settleWatched intact resolved within route readings
    have settled : (sheet.withGraph ((sheet.graph.obtainWatched stat stage path reads).settle
        (sheet.graph.obtain stat stage path).1)).graph.Intact vocabulary := watched.explore settles
    have grown : (sheet.graph.obtain stat stage path).2.pending.depth = sheet.graph.pending.depth :=
      depth_explores intact (explores_obtain sheet.graph resolved stage within route)
    exact (depth_flushIfIdle settled).trans ((depth_explores watched settles).trans grown)
  · rw [result, if_neg resolved]
    rfl

/-- An operation opens and closes as many batches as it says. -/
theorem depth_apply (closed : vocabulary.Closed) (intact : sheet.graph.Intact vocabulary)
    (within : operation.Within vocabulary) :
    (sheet.apply operation).batchDepth + sheet.closes operation =
      sheet.batchDepth + operation.opens := by
  have begun : sheet.beginBatch.graph.Intact vocabulary := intact.deepen _
  obtain ⟨turns, -⟩ := turns_turnover closed begun within
  have changed := intact_turnover closed begun within
  have depth : (operation.turnover sheet.beginBatch.graph).pending.depth = sheet.batchDepth + 1 :=
    turns.audience.depth
  cases operation with
  | add modifier => exact depth_inBatch rfl changed depth
  | addAll modifiers => exact depth_inBatch rfl changed depth
  | remove id => exact depth_inBatch rfl changed depth
  | removeAll ids => exact depth_inBatch rfl changed depth
  | value stat stage path =>
      exact depth_explore intact (explores_perform intact.toResting (Plan.asks_read within))
  | breakdown stat =>
      exact depth_explore intact
        (explores_perform intact.toResting (breakdownPlan_asks intact.formed within))
  | subscribe stat stage path reads => exact depth_subscribe intact within.1 within.2.1 within.2.2
  | subscribeRoster stat form path => exact depth_subscribeRoster sheet.graph stat form path
  | unsubscribe id => exact depth_unsubscribe sheet.graph id
  | register stat =>
      have stirs := stirs_registering sheet.beginBatch.graph within
      exact depth_inBatch rfl (stirs.intact begun) (depth_registering begun within)
  | unregister stat => exact depth_inBatch rfl (begun.register _) rfl
  | beginBatch => rfl
  | endBatch => exact depth_endBatch intact
  | closeBlock =>
      have ends := depth_endBatch intact
      have same : sheet.closeBlock.batchDepth = sheet.endBatch.2.batchDepth := by
        unfold closeBlock
        split <;> simp_all [batchDepth, withGraph, record]
      exact (congrArg (· + sheet.closes .endBatch) same).trans ends
  | sweep =>
      by_cases busy : sheet.batchDepth = 0
      · obtain ⟨report, sweeps⟩ := sweepOnly_idle busy
        show sheet.sweep.2.batchDepth = sheet.batchDepth
        rw [sweep, sweeps]
        exact (depth_flush (intact_sweep sheet.retention intact) _).trans
          (depth_sweep intact sheet.retention)
      · exact congrArg (·.2.batchDepth) (sweep_busy busy)
  | retain rules => rfl

/-- As many batches are open as were opened and not closed. -/
theorem depth_run (closed : vocabulary.Closed) {operations : List Operation}
    (intact : sheet.graph.Intact vocabulary)
    (within : ∀ operation ∈ operations, operation.Within vocabulary) :
    (sheet.run operations).batchDepth + sheet.closings operations =
      sheet.batchDepth + (operations.map Operation.opens).sum := by
  induction operations generalizing sheet with
  | nil => rfl
  | cons operation rest inductionHypothesis =>
      have here := within operation List.mem_cons_self
      have first := depth_apply closed intact here
      have later : ((sheet.apply operation).run rest).batchDepth + _ = _ :=
        inductionHypothesis (intact_apply closed intact here)
          fun other member => within other (List.mem_cons_of_mem operation member)
      show ((sheet.apply operation).run rest).batchDepth + _ = _
      rw [closings, List.map_cons, List.sum_cons]
      omega

end Sheet

/-! ### Any interval of any run -/

/-- After any operations on a new sheet, as many batches are open as were opened and not closed, and
only the operations that open or close one change how many; at depth zero there is none to close. As
long as one stays open, whatever is done, nobody is told of anything, all nodes of stages, all
rosters and all pipelines stay, and a sweep is refused. -/
theorem open_batch_defers (settings : Settings) (retention : Retention)
    (before during : List Operation) :
    let sheet := Sheet.run { settings, retention } before
    let later := sheet.run during
    (sheet.StaysOpen during →
      later.graph.announcements = sheet.graph.announcements ∧
      (∀ stat stage path node, sheet.graph.node? stat stage path = some node →
        later.graph.node? stat stage path = some node) ∧
      (∀ slot roster, sheet.graph.roster? slot = some roster →
        ∃ kept, later.graph.roster? slot = some kept) ∧
      (∀ stat pipeline, sheet.graph.pipelines.get? stat = some pipeline →
        ∃ kept, later.graph.pipelines.get? stat = some kept) ∧
      later.sweep = (.error .batchOpen, later)) ∧
    sheet.batchDepth + Sheet.closings { settings, retention } before =
      (before.map Operation.opens).sum ∧
    (∀ operation : Operation, operation.isBracket = false →
      (sheet.apply operation).batchDepth = sheet.batchDepth) ∧
    (sheet.batchDepth = 0 → sheet.endBatch = (.error .unbalancedBatch, sheet)) := by
  intro sheet later
  have everything := Operation.all_within_everything
  have intact : sheet.graph.Intact .everything := Sheet.intact_everything settings retention before
  refine ⟨fun stays => ?_, ?_, fun operation inner => ?_, Sheet.endBatch_idle⟩
  · have defers : sheet.graph.Defers later.graph :=
      Sheet.defers_run Vocabulary.closed_everything intact (everything during) stays
    refine ⟨defers.announcements, fun _ _ _ _ => defers.preserves.node?,
      fun _ _ => defers.preserves.roster?, fun stat pipeline here => ?_, Sheet.sweep_busy stays.last⟩
    obtain ⟨kept, there, -⟩ := defers.preserves stat pipeline here
    exact ⟨kept, there⟩
  · have counted : sheet.batchDepth + _ = _ :=
      Sheet.depth_run Vocabulary.closed_everything
        ((Sheet.Reachable.new settings retention).intact Vocabulary.closed_everything)
        (everything before)
    exact counted.trans (Nat.zero_add _)
  · have counted := Sheet.depth_apply Vocabulary.closed_everything intact
      operation.within_everything
    cases operation <;> first | exact counted | cases inner

/-- A modifier takes the place of another in an inner batch, a stat without its entity is refused, and
a sweep is tried. -/
def bustlingPower : List Operation :=
  [.beginBatch, .add (.baseAdd ⟨2⟩ (.named "Power") 3), .remove ⟨1⟩, .closeBlock,
    .value (.named "Power") .total .main, .register ((Stat.named "Power").withEntity .any), .sweep]

/-- The total waits to be announced as long as the outer batch is open. -/
theorem bustlingPower_deferred :
    let sheet := Sheet.run {} (watchingPower ++ [.beginBatch])
    let later := sheet.run bustlingPower
    sheet.StaysOpen bustlingPower ∧ later.graph.pending.nodes ≠ [] ∧
      later.graph.announcements = sheet.graph.announcements ∧
        later.sweep = (.error .batchOpen, later) := by
  have stays : (Sheet.run {} (watchingPower ++ [.beginBatch])).StaysOpen bustlingPower := by
    decide +kernel
  have waits : ((Sheet.run {} (watchingPower ++ [.beginBatch])).run bustlingPower).graph.pending.nodes ≠
      [] := by decide +kernel
  obtain ⟨defers, -⟩ := open_batch_defers {} {} (watchingPower ++ [.beginBatch]) bustlingPower
  obtain ⟨untold, -, -, -, refused⟩ := defers stays
  exact ⟨stays, waits, untold, refused⟩

end CharacterSheet
