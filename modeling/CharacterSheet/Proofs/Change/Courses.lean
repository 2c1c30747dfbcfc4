import CharacterSheet.Proofs.Change.Operations

/-!
Contract: the courses that operations take.

Owns:
- the end of the outermost batch as one step: an announcement, a sweep and, if the sweep leaves
  anything to announce, another announcement;
- the courses of operations: aside of all that waits, in a batch that stays open, or with an
  announcement, the end of a batch or a sweep at their close;
- every operation takes one of these courses, and so leaves the graph behind a sheet intact;
- if a batch is open after an operation, there are only stirs besides the coming and going of modifiers.
-/

namespace CharacterSheet

namespace Graph

variable {vocabulary : Vocabulary} {graph middle other : Graph}

/-! ### The depth of batches -/

theorem depth_flush (intact : graph.Intact vocabulary) (announceRosters : Bool) :
    (graph.flush announceRosters).pending.depth = graph.pending.depth := by
  by_cases settled : graph.Settled
  · rw [flush_settled settled]
    rfl
  · exact (tells_flush intact announceRosters settled).depth

theorem depth_sweep (intact : graph.Intact vocabulary) (rules : Retention) :
    (graph.sweep rules).2.pending.depth = graph.pending.depth :=
  (sameBooks_sweep rules intact).depth

theorem depth_subscribeRoster (graph : Graph) (stat : Stat) (form : Form) (path : Path) :
    (graph.subscribeRoster stat form path).2.pending.depth = graph.pending.depth := by
  unfold Graph.subscribeRoster
  split
  · show (graph.ensurePipeline stat).pending.depth = _
    rw [ensurePipeline_eq]
    split
    · rfl
    · split
      · rfl
      · rw [enforce, invalidateTargets_eq, (fades_invalidateAll _ _).depth]
        rfl
  · rfl

theorem depth_unsubscribe (graph : Graph) (id : SubscriptionId) :
    (graph.unsubscribe id).2.pending.depth = graph.pending.depth := by
  unfold Graph.unsubscribe
  split
  · rfl
  · split <;> rfl

/-! ### The end of a batch -/

/-- The graph after the outermost batch is closed: an announcement, a sweep and, if the sweep has
left anything to announce, another announcement. -/
def concluded (settings : Settings) (rules : Retention) (graph : Graph) : Graph :=
  let announced := graph.flush settings.announceRosters
  if settings.sweepAfterBatch then
    let swept := (announced.sweep rules).2
    if swept.pending.isEmpty then swept else swept.flush settings.announceRosters
  else announced

theorem moves_concluded (graph : Graph) (settings : Settings) (rules : Retention) :
    Moves vocabulary graph (graph.concluded settings rules) := by
  have announces : Moves vocabulary graph (graph.flush settings.announceRosters) :=
    (Move.flush settings.announceRosters).moves
  unfold concluded
  dsimp only
  split
  · have sweeps := announces.trans (Move.sweep rules).moves
    split
    · exact sweeps
    · exact sweeps.trans (Move.flush settings.announceRosters).moves
  · exact announces

/-- The end of a batch opens no batch. -/
theorem depth_concluded (intact : graph.Intact vocabulary) (settings : Settings)
    (rules : Retention) : (graph.concluded settings rules).pending.depth = graph.pending.depth := by
  have announced := intact_flush intact settings.announceRosters
  have first := depth_flush intact settings.announceRosters
  have swept := (depth_sweep announced rules).trans first
  unfold concluded
  dsimp only
  split
  · split
    · exact swept
    · exact (depth_flush (intact_sweep rules announced) _).trans swept
  · exact first

end Graph

namespace Sheet

open CharacterSheet.Graph

variable {vocabulary : Vocabulary} {sheet : Sheet} {α : Type}

/-- Outside of any batch a sweep is never refused. -/
theorem sweepOnly_idle (idle : sheet.batchDepth = 0) :
    ∃ report, sheet.sweepOnly =
      (.ok report, sheet.withGraph (sheet.graph.sweep sheet.retention).2) := by
  have allowed : ¬ 0 < sheet.graph.pending.depth := by
    rw [show sheet.graph.pending.depth = 0 from idle]
    exact Nat.lt_irrefl 0
  simp only [sweepOnly, Graph.sweep, if_neg allowed]
  exact ⟨_, rfl⟩

/-- To close the outermost batch ends it, to close an inner one only makes the outer one current. -/
theorem endBatch_eq (intact : sheet.graph.Intact vocabulary) :
    sheet.endBatch =
      match sheet.batchDepth with
      | 0 => (.error .unbalancedBatch, sheet)
      | 1 => (.ok (), sheet.withGraph ((sheet.graph.modifyPending fun pending =>
          { pending with depth := 0 }).concluded sheet.settings sheet.retention))
      | depth + 2 => (.ok (), sheet.withGraph (sheet.graph.modifyPending fun pending =>
          { pending with depth := depth + 1 })) := by
  unfold endBatch
  rcases sheet.batchDepth with _ | _ | depth
  · rfl
  · have idle : (sheet.withGraph (sheet.graph.modifyPending fun pending =>
        { pending with depth := 0 })).flush.batchDepth = 0 :=
      depth_flush (intact.deepen 0) sheet.settings.announceRosters
    obtain ⟨report, swept⟩ := sweepOnly_idle idle
    dsimp only
    rw [if_neg (Nat.lt_irrefl 0), swept]
    dsimp only [concluded, withGraph, flush]
    by_cases sweeps : sheet.settings.sweepAfterBatch = true
    · simp only [sweeps, ↓reduceIte]
      split <;> rfl
    · simp only [sweeps, Bool.false_eq_true, ↓reduceIte]
  · rfl

end Sheet

namespace Sheet

open CharacterSheet.Graph

variable {vocabulary : Vocabulary}

/-- What a registration does to the graph behind a sheet. -/
def registering (stat : Stat) (graph : Graph) : Except Fault Unit × Graph :=
  match graph.obtain? stat .total .main with
  | (.error fault, same) => (.error fault, same)
  | (.ok _, grown) =>
      if stat.id ∈ grown.registered then (.ok (), grown)
      else
        (.ok (),
          { grown with registered := grown.registered ++ [stat.id] }.record
            (.registered stat.id))

theorem stirs_registering (graph : Graph) {stat : Stat} (within : stat.HeadWithin vocabulary) :
    Stirs vocabulary graph (registering stat graph).2 := by
  have grows : Stirs vocabulary graph (graph.obtain? stat .total .main).2 :=
    stirs_obtain? _ .total within .main
  unfold registering
  split
  · next outcome =>
    rw [outcome] at grows
    exact grows
  · next grown outcome =>
    rw [outcome] at grows
    split
    · exact grows
    · have lists : Stirs vocabulary grown { grown with registered := grown.registered ++ [stat.id] } :=
        (Stir.register _).stirs
      exact grows.trans (lists.trans (stirs_note _ rfl))

theorem depth_registering {graph : Graph} (intact : graph.Intact vocabulary) {stat : Stat}
    (within : stat.HeadWithin vocabulary) :
    (registering stat graph).2.pending.depth = graph.pending.depth := by
  have depth : (graph.obtain? stat .total .main).2.pending.depth = graph.pending.depth := by
    unfold obtain?
    split
    · next resolved =>
      exact (advances_obtain intact.formed intact.stacked resolved within .main).grows.depth
    · rfl
  unfold registering
  split
  · next outcome =>
    rw [outcome] at depth
    exact depth
  · next outcome =>
    rw [outcome] at depth
    split <;> exact depth

end Sheet

/-! ### Courses -/

/-- What lets nothing new wait to be announced, unless behaviors come into force. -/
inductive Graph.Aside (vocabulary : Vocabulary) (graph : Graph) : Graph → Prop
  | same : Aside vocabulary graph graph
  | note (entry) : entry.isAnnouncement = false → Aside vocabulary graph (graph.record entry)
  | watchRoster {stat form path} : stat.HeadWithin vocabulary → path.Within vocabulary →
      Aside vocabulary graph (graph.subscribeRoster stat form path).2
  | unwatch (id) : Aside vocabulary graph (graph.unsubscribe id).2

namespace Sheet

open CharacterSheet.Graph

/-- What an operation does to the graph behind a sheet, from its beginning to its close. -/
inductive Course (vocabulary : Vocabulary) (sheet : Sheet) (operation : Operation) : Graph → Prop
  | aside {after} : (∀ graph, operation.turnover graph = graph) →
      Aside vocabulary sheet.graph after → Course vocabulary sheet operation after
  /-- A batch stays open, so nothing is announced. -/
  | inside {start after} : Stirs vocabulary sheet.graph start →
      Stirs vocabulary (operation.turnover start) after → after.pending.depth ≠ 0 →
        Course vocabulary sheet operation after
  | announce {ready} : (∀ graph, operation.turnover graph = graph) →
      Stirs vocabulary sheet.graph ready → ready.pending.depth = 0 →
        Course vocabulary sheet operation (ready.flush sheet.settings.announceRosters)
  | conclude {start ready} : Stirs vocabulary sheet.graph start →
      Stirs vocabulary (operation.turnover start) ready → ready.pending.depth = 0 →
        Course vocabulary sheet operation (ready.concluded sheet.settings sheet.retention)
  | sweep : (∀ graph, operation.turnover graph = graph) → sheet.batchDepth = 0 →
      Course vocabulary sheet operation
        ((sheet.graph.sweep sheet.retention).2.flush sheet.settings.announceRosters)

variable {vocabulary : Vocabulary} {sheet : Sheet} {operation : Operation} {α : Type}

/-- A change in a batch of its own is made inside of an open batch, or concludes. -/
theorem course_inBatch {change : Graph → Except Fault α × Graph} {changed : Graph}
    (changes : (change sheet.beginBatch.graph).2 = changed) (intact : changed.Intact vocabulary)
    (stirs : Stirs vocabulary (operation.turnover sheet.beginBatch.graph) changed)
    (depth : changed.pending.depth = sheet.batchDepth + 1) :
    Course vocabulary sheet operation (sheet.inBatch change).2.graph := by
  have begins : Stirs vocabulary sheet.graph sheet.beginBatch.graph :=
    (Stir.deepen (sheet.graph.pending.depth + 1)).stirs
  have ends : (sheet.inBatch change).2.graph =
      (sheet.beginBatch.withGraph changed).endBatch.2.graph := by
    subst changes
    rfl
  have deepens (depth : Nat) : Stirs vocabulary (operation.turnover sheet.beginBatch.graph)
      (changed.modifyPending fun pending => { pending with depth }) :=
    stirs.trans (Stir.deepen depth).stirs
  have batch : (sheet.beginBatch.withGraph changed).batchDepth = sheet.batchDepth + 1 := depth
  have intact' : (sheet.beginBatch.withGraph changed).graph.Intact vocabulary := intact
  rw [ends, endBatch_eq intact', batch]
  rcases sheet.batchDepth with _ | outer
  · exact .conclude begins (deepens 0) rfl
  · exact .inside begins (deepens (outer + 1)) (Nat.succ_ne_zero outer)

/-- A read is announced outside of any batch, and goes unnoticed inside. -/
theorem course_flushIfIdle {ready : Graph} (silent : ∀ graph, operation.turnover graph = graph)
    (stirs : Stirs vocabulary sheet.graph ready) :
    Course vocabulary sheet operation (sheet.withGraph ready).flushIfIdle.graph := by
  unfold flushIfIdle
  split
  · next busy =>
    have busy' : 0 < ready.pending.depth := busy
    refine .inside (.refl sheet.graph) ?_ (Nat.ne_of_gt busy')
    rw [silent]
    exact stirs
  · next idle =>
    have idle' : ¬ 0 < ready.pending.depth := idle
    exact .announce silent stirs (Nat.eq_zero_of_not_pos idle')

/-- An operation takes one of these courses. -/
theorem course_apply (closed : vocabulary.Closed) (intact : sheet.graph.Intact vocabulary)
    (within : operation.Within vocabulary) :
    Course vocabulary sheet operation (sheet.apply operation).graph := by
  have begun : sheet.beginBatch.graph.Intact vocabulary := intact.deepen _
  obtain ⟨turns, -⟩ := turns_turnover closed begun within
  have changed := intact_turnover closed begun within
  have still : Stirs vocabulary (operation.turnover sheet.beginBatch.graph)
      (operation.turnover sheet.beginBatch.graph) := .refl _
  have depth : (operation.turnover sheet.beginBatch.graph).pending.depth = sheet.batchDepth + 1 :=
    turns.audience.depth
  cases operation with
  | add modifier => exact course_inBatch rfl changed still depth
  | addAll modifiers => exact course_inBatch rfl changed still depth
  | remove id => exact course_inBatch rfl changed still depth
  | removeAll ids => exact course_inBatch rfl changed still depth
  | value stat stage path =>
      have reads : Explores vocabulary sheet.graph
          (sheet.graph.perform (Plan.read stat stage path)).2 :=
        explores_perform intact.toResting (Plan.asks_read within)
      exact course_flushIfIdle (fun _ => rfl) reads.stirs
  | breakdown stat =>
      have reads : Explores vocabulary sheet.graph
          (sheet.graph.perform (sheet.graph.breakdownPlan stat)).2 :=
        explores_perform intact.toResting (breakdownPlan_asks intact.formed within)
      exact course_flushIfIdle (fun _ => rfl) reads.stirs
  | subscribe stat stage path reads =>
      obtain ⟨named, route, readings⟩ := within
      have result : sheet.graph.subscribe stat stage path reads = _ := subscribe_eq ..
      show Course vocabulary sheet _ (sheet.subscribe stat stage path reads).2.graph
      unfold subscribe
      by_cases resolved : stat.isResolved = true
      · rw [result, if_pos resolved]
        exact course_flushIfIdle (fun _ => rfl) (Stir.watch resolved named route readings).stirs
      · rw [result, if_neg resolved]
        exact .aside (fun _ => rfl) .same
  | subscribeRoster stat form path =>
      exact .aside (fun _ => rfl) (.watchRoster within.1 within.2)
  | unsubscribe id => exact .aside (fun _ => rfl) (.unwatch id)
  | register stat =>
      show Course vocabulary sheet _ (sheet.inBatch (registering stat)).2.graph
      have stirs := stirs_registering sheet.beginBatch.graph within
      exact course_inBatch rfl (stirs.intact begun) stirs (depth_registering begun within)
  | unregister stat =>
      exact course_inBatch rfl (begun.register _) (Stir.register _).stirs depth
  | beginBatch =>
      exact .inside (.refl _) (Stir.deepen (sheet.graph.pending.depth + 1)).stirs
        (Nat.succ_ne_zero _)
  | endBatch =>
      have deepens (depth : Nat) : Stirs vocabulary sheet.graph
          (sheet.graph.modifyPending fun pending => { pending with depth }) :=
        (Stir.deepen depth).stirs
      show Course vocabulary sheet _ sheet.endBatch.2.graph
      rw [endBatch_eq intact]
      rcases sheet.batchDepth with _ | _ | outer
      · exact .aside (fun _ => rfl) .same
      · exact .conclude (.refl _) (deepens 0) rfl
      · exact .inside (.refl _) (deepens (outer + 1)) (Nat.succ_ne_zero outer)
  | closeBlock =>
      have deepens (depth : Nat) : Stirs vocabulary sheet.graph
          (sheet.graph.modifyPending fun pending => { pending with depth }) :=
        (Stir.deepen depth).stirs
      show Course vocabulary sheet _ sheet.closeBlock.graph
      rw [closeBlock, endBatch_eq intact]
      rcases sheet.batchDepth with _ | _ | outer
      · exact .aside (fun _ => rfl) (.note (.closingFailed .unbalancedBatch) rfl)
      · exact .conclude (.refl _) (deepens 0) rfl
      · exact .inside (.refl _) (deepens (outer + 1)) (Nat.succ_ne_zero outer)
  | sweep =>
      show Course vocabulary sheet _ sheet.sweep.2.graph
      unfold sweep
      by_cases busy : 0 < sheet.graph.pending.depth
      · rw [sweepOnly, sweep_eq, if_pos busy]
        exact .aside (fun _ => rfl) .same
      · have idle : sheet.batchDepth = 0 := Nat.eq_zero_of_not_pos busy
        obtain ⟨report, sweeps⟩ := sweepOnly_idle idle
        rw [sweeps]
        exact .sweep (fun _ => rfl) idle
  | retain rules => exact .aside (fun _ => rfl) .same

theorem stirs_of_aside {graph other : Graph} (aside : graph.Aside vocabulary other) :
    Stirs vocabulary graph other := by
  cases aside with
  | same => exact .refl graph
  | note entry inward => exact stirs_note graph inward
  | watchRoster within route => exact (Stir.watchRoster within route).stirs
  | unwatch id => exact (Stir.unwatch id).stirs

/-- An operation makes moves before and after its modifiers come or go. -/
theorem moves_apply (closed : vocabulary.Closed) (intact : sheet.graph.Intact vocabulary)
    (within : operation.Within vocabulary) :
    ∃ start, Moves vocabulary sheet.graph start ∧
      Moves vocabulary (operation.turnover start) (sheet.apply operation).graph := by
  have course := course_apply closed intact within
  generalize (sheet.apply operation).graph = after at course
  have still {graph : Graph} (silent : ∀ graph, operation.turnover graph = graph)
      (moves : Moves vocabulary graph after) : Moves vocabulary (operation.turnover graph) after := by
    rwa [silent]
  cases course with
  | aside silent aside => exact ⟨_, .refl _, still silent (stirs_of_aside aside).moves⟩
  | inside before after _ => exact ⟨_, before.moves, after.moves⟩
  | announce silent stirs _ => exact ⟨_, stirs.moves, still silent (Move.flush _).moves⟩
  | conclude before after _ => exact ⟨_, before.moves, after.moves.trans (moves_concluded _ _ _)⟩
  | sweep silent _ =>
      exact ⟨_, .refl _, still silent ((Move.sweep _).moves.trans (Move.flush _).moves)⟩

/-- After an operation that leaves a batch open there were only stirs before and after its modifiers
came or went. -/
theorem stirs_of_open (closed : vocabulary.Closed) (intact : sheet.graph.Intact vocabulary)
    (within : operation.Within vocabulary) (stillOpen : (sheet.apply operation).batchDepth ≠ 0) :
    ∃ start, Stirs vocabulary sheet.graph start ∧
      Stirs vocabulary (operation.turnover start) (sheet.apply operation).graph := by
  have course := course_apply closed intact within
  rw [batchDepth] at stillOpen
  generalize (sheet.apply operation).graph = after at course stillOpen
  cases course with
  | aside silent aside =>
      refine ⟨sheet.graph, .refl _, ?_⟩
      rw [silent]
      exact stirs_of_aside aside
  | inside before later _ => exact ⟨_, before, later⟩
  | announce _ stirs idle =>
      exact absurd ((depth_flush (stirs.intact intact) _).trans idle) stillOpen
  | conclude before later idle =>
      have turned := intact_turnover closed (before.intact intact) within
      exact absurd ((depth_concluded (later.intact turned) _ _).trans idle) stillOpen
  | sweep _ idle =>
      have swept := intact_sweep sheet.retention intact
      exact absurd (((depth_flush swept _).trans (depth_sweep intact _)).trans idle) stillOpen

/-! ### Every run is intact -/

theorem intact_apply (closed : vocabulary.Closed) (intact : sheet.graph.Intact vocabulary)
    {operation : Operation} (within : operation.Within vocabulary) :
    (sheet.apply operation).graph.Intact vocabulary := by
  obtain ⟨start, before, after⟩ := moves_apply closed intact within
  exact after.intact (intact_turnover closed (before.intact intact) within)

theorem intact_run (closed : vocabulary.Closed) {operations : List Operation}
    (intact : sheet.graph.Intact vocabulary)
    (within : ∀ operation ∈ operations, operation.Within vocabulary) :
    (sheet.run operations).graph.Intact vocabulary := by
  induction operations generalizing sheet with
  | nil => exact intact
  | cons operation rest inductionHypothesis =>
      obtain ⟨inside, later⟩ := List.forall_mem_cons.mp within
      exact inductionHypothesis (intact_apply closed intact inside) later

/-- Operations within a closed vocabulary leave every graph intact. -/
theorem Reachable.intact (closed : vocabulary.Closed) (reachable : Reachable vocabulary sheet) :
    sheet.graph.Intact vocabulary := by
  induction reachable with
  | new settings retention => exact .initial
  | apply operation _ within inductionHypothesis =>
      exact intact_apply closed inductionHypothesis within

/-! ### Any operations on a new sheet -/

theorem reachable_everything (settings : Settings) (retention : Retention)
    (operations : List Operation) : Reachable .everything (run { settings, retention } operations) :=
  reachable_run (.new settings retention) (Operation.all_within_everything operations)

theorem intact_everything (settings : Settings) (retention : Retention)
    (operations : List Operation) :
    (run { settings, retention } operations).graph.Intact .everything :=
  (reachable_everything settings retention operations).intact Vocabulary.closed_everything

end Sheet
end CharacterSheet
