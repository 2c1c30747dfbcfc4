import CharacterSheet.Proofs.Announcement.Hushing

/-!
Contract: what waits to be announced if no stat carries behaviors.

Owns:
- bare vocabularies, in which there are no behaviors at all;
- within them nothing that is read lets anything wait, an announcement leaves nothing waiting, and a
  sweep adds nothing; so the end of a batch is one announcement and one sweep;
- after any operations, outside of any batch, nothing waits.
-/

namespace CharacterSheet

/-- Vocabularies without behaviors. -/
def Vocabulary.Bare (vocabulary : Vocabulary) : Prop := ∀ behavior, ¬ vocabulary.behavior behavior

section Bare

variable {vocabulary : Vocabulary} (bare : vocabulary.Bare)
include bare

theorem Vocabulary.Bare.eq_nil {behaviors : List Behavior}
    (within : ∀ behavior ∈ behaviors, behavior.Within vocabulary) : behaviors = [] :=
  List.eq_nil_iff_forall_not_mem.mpr fun behavior member =>
    bare behavior (within behavior member).behavior

theorem Vocabulary.Bare.behaviors_eq_nil {stat : Stat} (within : stat.HeadWithin vocabulary) :
    stat.behaviors = [] :=
  bare.eq_nil (behaviorsWithin_iff.mp within.behaviors)

theorem Vocabulary.Bare.hushed : vocabulary.Hushed :=
  fun _ within => bare.behaviors_eq_nil within.headWithin

end Bare

namespace Graph

variable {vocabulary : Vocabulary} {graph middle other : Graph}

/-! ### Reads -/

theorem pending_ensurePipeline (graph : Graph) {stat : Stat} (silent : stat.behaviors = []) :
    (graph.ensurePipeline stat).pending = graph.pending := by
  rw [ensurePipeline_eq, silent]
  split <;> rfl

theorem pending_obtain (graph : Graph) {stat : Stat} (silent : stat.behaviors = []) (stage : Stage)
    (path : Path) : (graph.obtain stat stage path).2.pending = graph.pending :=
  obtain_induction (motive := fun grown => grown.pending = graph.pending) stage
    (pending_ensurePipeline graph silent) fun _ _ _ same _ _ _ => same

section Reads

variable (bare : vocabulary.Bare)
include bare

theorem registrations_stated (graph : Graph) {query : Query}
    (asked : (statedScope vocabulary).query query) :
    (graph.locate query).2.registrations = graph.registrations := by
  cases query with
  | node stat stage path =>
      rw [locate_node]
      split
      · rw [registrations, journal_obtain, ensurePipeline_eq, bare.behaviors_eq_nil asked.1]
        split <;> rfl
      · rfl
  | contribution modifier =>
      rw [locate_contribution]
      split <;> rfl

/-- Whatever is located or calculated from outside, nothing that was there is lost. -/
theorem Explores.untouched (resting : graph.Resting vocabulary)
    (explores : Explores vocabulary graph other) : graph.Untouched other := by
  induction explores with
  | refl => exact .refl graph
  | @note middle entry _ _ inductionHypothesis =>
      have recorded : middle.Untouched (middle.record entry) :=
        ⟨⟨fun _ _ => id, fun _ _ => id, fun _ _ _ => rfl, rfl⟩, rfl, rfl⟩
      exact inductionHypothesis.trans recorded
  | @locate middle query before asked inductionHypothesis =>
      have rested := before.resting resting
      have silent : (middle.locate query).2.registrations = middle.registrations :=
        registrations_stated bare middle asked
      exact inductionHypothesis.trans
        ((logs_locate rested.formed rested.stacked asked).calm silent.le).1
  | evaluate before addressed evaluates inductionHypothesis =>
      have rested := before.resting resting
      have calm := (evaluates.registrations bare.hushed rested.formed rested.stacked).le
      exact inductionHypothesis.trans
        ((evaluates.logs rested.formed rested.stacked addressed).calm calm).1

/-- Whatever is read from outside, the same changes wait. -/
theorem Explores.pending (resting : graph.Resting vocabulary)
    (explores : Explores vocabulary graph other) : other.pending = graph.pending :=
  (explores.untouched bare resting).pending

/-- Nothing is submitted in the course of an announcement. -/
theorem Speaks.pending (intact : graph.Intact vocabulary)
    (speaks : Speaks vocabulary graph other) : other.pending = graph.pending := by
  induction speaks with
  | refl => rfl
  | explore before explores inductionHypothesis =>
      exact (explores.pending bare (before.intact intact).toResting).trans inductionHypothesis
  | record _ _ inductionHypothesis => exact inductionHypothesis

end Reads

/-! ### Calm graphs -/

/-- Nothing waits to be announced. -/
def Calm (graph : Graph) : Prop := graph.pending.nodes = [] ∧ graph.pending.slots = .empty

theorem Calm.of_pending (calm : graph.Calm) (same : other.pending = graph.pending) : other.Calm := by
  rw [Calm, same]
  exact calm

theorem Calm.record (calm : graph.Calm) (entry : Record) : (graph.record entry).Calm := calm

theorem Calm.settled (calm : graph.Calm) : graph.Settled :=
  ⟨by rw [Pending.changedSlots, calm.2]; rfl, calm.1⟩

/-- There is nothing to announce of a calm graph. -/
theorem Calm.flush_eq (calm : graph.Calm) (announceRosters : Bool) :
    graph.flush announceRosters = graph := by
  have same : graph.pending.cleared = graph.pending := by
    rw [Pending.cleared, ← calm.1, ← calm.2]
  rw [flush_settled calm.settled, modifyPending, same]

section Calm

variable (bare : vocabulary.Bare) (intact : graph.Intact vocabulary)
include bare intact

theorem Calm.stir (calm : graph.Calm) (stir : Stir vocabulary graph other) : other.Calm := by
  cases stir with
  | explore explores => exact calm.of_pending (explores.pending bare intact.toResting)
  | deepen depth => exact calm
  | register registered => exact calm
  | @watch stat stage path reads resolved within route readings =>
      have watched : (graph.obtainWatched stat stage path reads).Intact vocabulary :=
        intact_obtainWatched intact resolved within route readings
      have explores : Explores vocabulary (graph.obtainWatched stat stage path reads) _ :=
        explores_settleWatched intact resolved within route readings
      exact calm.of_pending ((explores.pending bare watched.toResting).trans
        (pending_obtain graph (bare.behaviors_eq_nil within) stage path))
  | @watchRoster stat form path within route =>
      rw [subscribeRoster_eq]
      split
      · exact calm.of_pending (pending_ensurePipeline graph (bare.behaviors_eq_nil within))
      · exact calm
  | unwatch id =>
      unfold unsubscribe
      split
      · exact calm
      · split <;> exact calm

theorem Calm.stirs (calm : graph.Calm) (stirs : Stirs vocabulary graph other) : other.Calm := by
  induction stirs with
  | refl => exact calm
  | tail before stir inductionHypothesis =>
      exact inductionHypothesis.stir bare (Stirs.intact before intact) stir

/-- An announcement leaves nothing waiting. -/
theorem calm_flush (announceRosters : Bool) : (graph.flush announceRosters).Calm := by
  by_cases settled : graph.Settled
  · rw [flush_settled settled]
    exact ⟨rfl, rfl⟩
  · have begun : graph.begun.Intact vocabulary := (intact_cleared intact).record _
    have tells := tells_flush intact announceRosters settled
    have cleared : graph.begun.Calm := ⟨rfl, rfl⟩
    exact cleared.of_pending (tells.speaks.pending bare begun)

omit intact in
/-- No behavior is in force. -/
theorem unforced_of_bare (formed : graph.WellFormed vocabulary) (stat : StatId) :
    (graph.behaviors.get? stat).getD [] = [] := by
  cases force : graph.behaviors.get? stat with
  | none => rfl
  | some behaviors => exact bare.eq_nil (formed.behaviors stat behaviors force)

/-- A sweep lets nothing wait. -/
theorem Calm.sweep (calm : graph.Calm) (rules : Retention) : (graph.sweep rules).2.Calm := by
  have swept : (graph.swept rules).Calm := by
    obtain ⟨-, slots, fewer⟩ := graph.fewer_relaxed rules
    have pending : (graph.swept rules).pending = (graph.relaxed rules).pending :=
      (removePipelines_unforced fun stat _ =>
        unforced_of_bare bare (intact_relaxed rules intact).formed stat).2.2
    refine Calm.of_pending ⟨?_, slots.trans calm.2⟩ pending
    refine List.eq_nil_iff_forall_not_mem.mpr fun node waits => ?_
    exact absurd (calm.1 ▸ fewer node waits) List.not_mem_nil
  exact sweep_induction calm swept fun _ entry before => before.record entry

/-- The end of a batch announces once: the sweep leaves nothing to announce. -/
theorem concluded_eq (settings : Settings) (rules : Retention) :
    graph.concluded settings rules =
      if settings.sweepAfterBatch then ((graph.flush settings.announceRosters).sweep rules).2
      else graph.flush settings.announceRosters := by
  have swept : ((graph.flush settings.announceRosters).sweep rules).2.Calm :=
    (calm_flush bare intact settings.announceRosters).sweep bare (intact_flush intact _) rules
  have nothing : ((graph.flush settings.announceRosters).sweep rules).2.pending.isEmpty := by
    rw [Pending.isEmpty, swept.1, swept.2]
    rfl
  rw [concluded]
  split
  · rw [if_pos nothing]
  · rfl

theorem calm_concluded (settings : Settings) (rules : Retention) :
    (graph.concluded settings rules).Calm := by
  have announced := calm_flush bare intact settings.announceRosters
  rw [concluded_eq bare intact]
  split
  · exact announced.sweep bare (intact_flush intact _) rules
  · exact announced

end Calm
end Graph

namespace Sheet

open CharacterSheet.Graph

variable {vocabulary : Vocabulary} {sheet : Sheet}

/-! ### Between operations -/

/-- Every operation leaves nothing waiting outside of any batch. -/
theorem calm_apply (closed : vocabulary.Closed) (bare : vocabulary.Bare)
    (intact : sheet.graph.Intact vocabulary) (calm : sheet.batchDepth = 0 → sheet.graph.Calm)
    {operation : Operation} (within : operation.Within vocabulary) :
    (sheet.apply operation).batchDepth = 0 → (sheet.apply operation).graph.Calm := by
  have course := course_apply closed intact within
  rw [batchDepth]
  generalize (sheet.apply operation).graph = after at course
  intro idle
  cases course with
  | aside _ aside =>
      have depth : sheet.batchDepth = 0 := by
        cases aside with
        | same => exact idle
        | note entry _ => exact idle
        | watchRoster _ _ => exact (depth_subscribeRoster ..).symm.trans idle
        | unwatch id => exact (depth_unsubscribe ..).symm.trans idle
      exact (calm depth).stirs bare intact (stirs_of_aside aside)
  | inside _ _ stillOpen => exact absurd idle stillOpen
  | announce _ stirs _ => exact calm_flush bare (stirs.intact intact) _
  | conclude before after _ =>
      exact calm_concluded bare
        (after.intact (intact_turnover closed (before.intact intact) within)) _ _
  | sweep _ _ => exact calm_flush bare (intact_sweep sheet.retention intact) _

/-- Outside of any batch nothing waits to be announced. -/
theorem Reachable.calm (closed : vocabulary.Closed) (bare : vocabulary.Bare)
    (reachable : Reachable vocabulary sheet) : sheet.batchDepth = 0 → sheet.graph.Calm := by
  induction reachable with
  | new settings retention => exact fun _ => ⟨rfl, rfl⟩
  | apply operation before within inductionHypothesis =>
      exact calm_apply closed bare (before.intact closed) inductionHypothesis within

end Sheet
end CharacterSheet
