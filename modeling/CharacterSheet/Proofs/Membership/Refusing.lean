import CharacterSheet.Proofs.Subscription.Registries
import CharacterSheet.Proofs.Announcement.Settling

/-!
Contract: what is left of an addition that is refused.

Owns:
- what two sheets have in common that differ only in what can be told and swept;
- a sweep that reports nothing leaves all that can be counted as it was;
- an addition that is refused does to a sheet what opening and closing a batch does: nothing within a
  batch, and else an announcement of what waits and a sweep;
- where nothing waits and there is nothing to sweep, nothing observable changes.

A modifier is refused before anything of the graph is touched, but the batch around the addition is
closed in any case.
-/

namespace CharacterSheet

/-! ### What sheets have in common -/

/-- The same batches are open, the same paths lead to stats, and modifiers and subscribers are as
many. -/
structure Sheet.SameStanding (sheet after : Sheet) : Prop where
  batchDepth : after.batchDepth = sheet.batchDepth
  modifierCount : after.modifierCount = sheet.modifierCount
  paths : ∀ stat, after.paths stat = sheet.paths stat
  subscribers : ∀ stat stage path,
    after.subscriberCount stat stage path = sheet.subscriberCount stat stage path
  rosterSubscribers : ∀ stat form path,
    after.rosterSubscriberCount stat form path = sheet.rosterSubscriberCount stat form path

/-- The same stages and pipelines are there, and no contribution node has come or gone. -/
structure Sheet.SameExtent (sheet after : Sheet) : Prop where
  nodeCount : after.nodeCount = sheet.nodeCount
  pipelineCount : after.pipelineCount = sheet.pipelineCount
  stages : ∀ stat stage path, after.containsStage stat stage path = sheet.containsStage stat stage path
  pipelines : ∀ stat, after.containsPipeline stat = sheet.containsPipeline stat

theorem Sheet.SameStanding.refl (sheet : Sheet) : sheet.SameStanding sheet :=
  ⟨rfl, rfl, fun _ => rfl, fun _ _ _ => rfl, fun _ _ _ => rfl⟩

theorem Sheet.SameExtent.refl (sheet : Sheet) : sheet.SameExtent sheet :=
  ⟨rfl, rfl, fun _ _ _ => rfl, fun _ => rfl⟩

namespace Graph

variable {vocabulary : Vocabulary} {graph other : Graph}

/-! ### Sweeps that report nothing -/

theorem keys_relax (graph : Graph) (node : NodeId) :
    (graph.relax node).nodes.keys = graph.nodes.keys := by
  unfold relax
  split
  · rfl
  · split <;> exact Table.keys_modify _ _ _

theorem keys_relaxAll (graph : Graph) (nodes : List NodeId) :
    (nodes.foldl relax graph).nodes.keys = graph.nodes.keys := by
  induction nodes generalizing graph with
  | nil => rfl
  | cons node rest inductionHypothesis =>
      exact (inductionHypothesis (graph.relax node)).trans (graph.keys_relax node)

/-- All that a sweep does that reports nothing is to take values and edges from nodes that are not
needed. -/
theorem relaxes_of_nothing {rules : Retention} (nothing : (graph.sweep rules).1 = .ok {}) :
    (∃ affected, graph.Relaxes (graph.sweep rules).2 affected) ∧
      (graph.sweep rules).2.nodes.keys = graph.nodes.keys := by
  rw [sweep_eq] at nothing ⊢
  split at nothing
  · cases nothing
  · next idle =>
    rw [if_neg idle]
    dsimp only at nothing ⊢
    have counts := Except.ok.inj nothing
    obtain ⟨nodes, rosters, pipelines⟩ := SweepReport.mk.inj counts
    have thinned : graph.thinned rules = graph := by
      rw [thinned, List.length_eq_zero_iff.mp nodes, List.length_eq_zero_iff.mp rosters]
      rfl
    have swept : graph.swept rules = graph.relaxed rules := by
      rw [Graph.swept, List.length_eq_zero_iff.mp pipelines]
      rfl
    have relaxes := @relaxes_relaxed graph rules
    rw [counts, if_pos (by rfl), swept]
    have keys := (graph.thinned rules).keys_relaxAll
      ((graph.thinned rules).nodes.keys.filter fun node => !graph.needed.contains node)
    rw [← relaxed] at keys
    rw [thinned] at relaxes keys
    exact ⟨⟨_, relaxes⟩, keys⟩

/-! ### The end of a batch in which nothing happened -/

/-- Where nothing waits, closing a batch tells nobody of anything, unless the sweep lifts behaviors. -/
theorem Calm.journal_concluded (calm : graph.Calm) (intact : graph.Intact vocabulary)
    (settings : Settings) (rules : Retention) :
    ∃ added, (graph.concluded settings rules).journal = graph.journal ++ added ∧
      ((∀ entry ∈ added, entry.isAnnouncement = false) ∨ ∃ entry ∈ added, entry.isWithdrawal) := by
  unfold concluded
  rw [calm.flush_eq]
  dsimp only
  split
  · obtain ⟨slots, added, journal, silent, either⟩ := graph.lifts_sweep rules
    split
    · exact ⟨added, journal, .inl silent⟩
    · next waits =>
      have unsettled : ¬ (graph.sweep rules).2.Settled := fun settled => waits (by
        rw [Pending.isEmpty, settled.2, slots, calm.2]
        rfl)
      obtain ⟨_, begins, more, later, _⟩ :=
        news_flush (intact_sweep rules intact) settings.announceRosters unsettled
      refine ⟨added ++ begins :: more, by rw [later, journal, List.append_assoc], .inr ?_⟩
      rcases either with ⟨entry, member, lifts⟩ | fewer
      · exact ⟨entry, List.mem_append_left _ member, lifts⟩
      · refine absurd ⟨?_, ?_⟩ unsettled
        · rw [Pending.changedSlots, slots, calm.2]
          rfl
        · exact List.eq_nil_iff_forall_not_mem.mpr fun node waiting =>
            List.not_mem_nil (calm.1 ▸ fewer node waiting)
  · exact ⟨[], (List.append_nil _).symm, .inl fun _ none => absurd none List.not_mem_nil⟩

/-- Where nothing waits and there is nothing to sweep, closing a batch at most takes values and edges
from nodes that are not needed. -/
theorem Calm.relaxes_concluded (calm : graph.Calm) (settings : Settings) (rules : Retention)
    (nothing : settings.sweepAfterBatch = true → (graph.sweep rules).1 = .ok {}) :
    (∃ affected, graph.Relaxes (graph.concluded settings rules) affected) ∧
      (graph.concluded settings rules).nodes.keys = graph.nodes.keys := by
  unfold concluded
  rw [calm.flush_eq]
  dsimp only
  split
  · next sweeps =>
    obtain ⟨⟨affected, relaxes⟩, keys⟩ := relaxes_of_nothing (nothing sweeps)
    have settled : (graph.sweep rules).2.pending.isEmpty = true := by
      rw [relaxes.rest, Pending.isEmpty, calm.1, calm.2]
      rfl
    rw [if_pos settled]
    exact ⟨⟨affected, relaxes⟩, keys⟩
  · exact ⟨⟨fun _ => False, rfl, fun _ => False.elim, fun _ _ => rfl, fun _ _ => id,
      fun _ _ _ => id⟩, rfl⟩

end Graph

open CharacterSheet.Graph

namespace Sheet

variable {vocabulary : Vocabulary} {sheet : Sheet}

/-- To open a batch and to close it changes nothing within a batch, and else ends a batch in which
nothing happened. -/
theorem endBatch_beginBatch (intact : sheet.graph.Intact vocabulary) :
    sheet.beginBatch.endBatch.2 =
      if 0 < sheet.batchDepth then sheet
      else sheet.withGraph (sheet.graph.concluded sheet.settings sheet.retention) := by
  have begun : sheet.beginBatch.graph.Intact vocabulary := intact.deepen _
  have depth : sheet.beginBatch.batchDepth = sheet.batchDepth + 1 := rfl
  rw [endBatch_eq begun, depth]
  cases here : sheet.batchDepth with
  | zero =>
      have same : sheet.beginBatch.graph.modifyPending (fun pending => { pending with depth := 0 }) =
          sheet.graph := by
        rw [← here]
        rfl
      rw [same, if_neg (Nat.lt_irrefl 0)]
      rfl
  | succ outer =>
      have same : sheet.beginBatch.graph.modifyPending
          (fun pending => { pending with depth := outer + 1 }) = sheet.graph := by
        rw [← here]
        rfl
      rw [if_pos (Nat.succ_pos outer)]
      exact congrArg sheet.withGraph same

/-- A modifier with a stat that is not bound to a concrete entity is refused. -/
theorem add_refused {modifier : Modifier} {stat : Stat}
    (absent : sheet.graph.modifiers.contains modifier.id = false)
    (unresolved : modifier.unresolved? = some stat) :
    sheet.add modifier = (.error (.unresolvedReference stat.id), sheet.beginBatch.endBatch.2) := by
  have missing : sheet.beginBatch.graph.modifiers.get? modifier.id = none :=
    Option.isNone_iff_eq_none.mp (Option.isSome_eq_false_iff.mp absent)
  rw [add, inBatch, addModifier_unresolved missing unresolved]
  rfl

/-- Closing a batch in which nothing happened opens or closes no other batch, and leaves modifiers,
paths and subscribers as they are. -/
theorem sameStanding_concluded (intact : sheet.graph.Intact vocabulary) {registry : Registry}
    (honors : sheet.graph.Honors registry) : sheet.SameStanding
      (sheet.withGraph (sheet.graph.concluded sheet.settings sheet.retention)) := by
  have moves := @moves_concluded vocabulary sheet.graph sheet.settings sheet.retention
  have undisturbed := moves.undisturbed intact
  have later : (sheet.graph.concluded sheet.settings sheet.retention).Intact vocabulary :=
    moves.intact intact
  have seats := sameSeats_concluded intact sheet.settings sheet.retention
  have before := Sheet.observes intact honors
  have after : (sheet.withGraph (sheet.graph.concluded sheet.settings sheet.retention)).Observes
      registry := Sheet.observes later (honors.keep seats)
  exact
    { batchDepth := depth_concluded intact sheet.settings sheet.retention
      modifierCount := congrArg Table.size undisturbed.modifiers
      paths := undisturbed.paths
      subscribers := fun stat stage path =>
        (after.subscribers stat stage path).trans (before.subscribers stat stage path).symm
      rosterSubscribers := fun stat form path =>
        (after.rosterSubscribers stat form path).trans (before.rosterSubscribers stat form path).symm }

theorem sameExtent_of_relaxes {after : Graph} {affected : NodeId → Prop}
    (relaxes : sheet.graph.Relaxes after affected) (keys : after.nodes.keys = sheet.graph.nodes.keys) :
    sheet.SameExtent (sheet.withGraph after) := by
  have pipelines : after.pipelines = sheet.graph.pipelines := congrArg Shape.pipelines relaxes.shape
  have length (table : Table NodeId Node) : table.keys.length = table.size := List.length_map _
  exact
    { nodeCount := by
        show after.nodes.size = sheet.graph.nodes.size
        rw [← length, ← length, keys]
      pipelineCount := congrArg Table.size pipelines
      stages := fun stat stage path => by
        show (after.node? stat stage path).isSome = (sheet.graph.node? stat stage path).isSome
        rw [node?, node?, pipelines]
      pipelines := fun stat => congrArg (·.contains stat) pipelines }

end Sheet

/-- After any operations an addition is refused if a stat of the modifier is not bound to a concrete
entity, and then does what opening and closing a batch does: batches, modifiers, paths and subscribers
stay. Within a batch nothing changes at all. Outside of any, if nothing waits to be announced, nobody is
told of anything unless the sweep at the end lifts behaviors; and if this sweep finds nothing either,
or there is none, nothing observable changes. -/
theorem refused_add_keeps (settings : Settings) (retention : Retention) (operations : List Operation)
    (modifier : Modifier) {stat : Stat}
    (absent :
      (Sheet.run { settings, retention } operations).graph.modifiers.contains modifier.id = false)
    (unresolved : modifier.unresolved? = some stat) :
    let sheet := Sheet.run { settings, retention } operations
    let after := (sheet.add modifier).2
    (sheet.add modifier).1 = .error (.unresolvedReference stat.id) ∧
      after = sheet.beginBatch.endBatch.2 ∧ sheet.SameStanding after ∧
      (0 < sheet.batchDepth → after = sheet) ∧
      (sheet.graph.pending.nodes = [] →
        (∃ added, after.graph.journal = sheet.graph.journal ++ added ∧
          ((∀ entry ∈ added, entry.isAnnouncement = false) ∨ ∃ entry ∈ added, entry.isWithdrawal)) ∧
        ((sheet.settings.sweepAfterBatch = true → (sheet.graph.sweep sheet.retention).1 = .ok {}) →
          sheet.SameExtent after ∧ after.graph.announcements = sheet.graph.announcements)) := by
  intro sheet after
  have reachable : Sheet.Reachable .everything sheet :=
    Sheet.reachable_everything settings retention operations
  have intact := reachable.intact Vocabulary.closed_everything
  have honors : sheet.graph.Honors (Sheet.registry { settings, retention } {} operations) :=
    Sheet.honors_everything settings retention operations
  have quiet : sheet.Quiet := Sheet.quiet_run Vocabulary.closed_everything reachable
  have refused := Sheet.add_refused absent unresolved
  have closing : after = sheet.beginBatch.endBatch.2 := congrArg Prod.snd refused
  refine ⟨congrArg Prod.fst refused, closing, ?_⟩
  rw [closing, Sheet.endBatch_beginBatch intact]
  clear_value sheet
  split
  · next busy =>
    refine ⟨.refl sheet, fun _ => rfl, fun _ => ⟨⟨[], ?_, ?_⟩, fun _ => ⟨.refl sheet, rfl⟩⟩⟩
    · exact (List.append_nil _).symm
    · exact .inl fun _ none => absurd none List.not_mem_nil
  · next idle =>
    refine ⟨Sheet.sameStanding_concluded intact honors, fun busy => absurd busy idle, fun waits => ?_⟩
    have calm : sheet.graph.Calm := ⟨waits, (quiet (Nat.eq_zero_of_not_pos idle)).1⟩
    refine ⟨calm.journal_concluded intact _ _, fun nothing => ?_⟩
    obtain ⟨⟨affected, relaxes⟩, keys⟩ := calm.relaxes_concluded _ _ nothing
    refine ⟨Sheet.sameExtent_of_relaxes relaxes keys, ?_⟩
    show (sheet.graph.concluded sheet.settings sheet.retention).announcements = _
    rw [relaxes.rest]
    rfl

/-- A bonus whose stat is not bound to a concrete entity. -/
def unboundBonus : Modifier := .baseAdd ⟨9⟩ ((Stat.named "Power").withEntity .any) 1

theorem unresolved_unboundBonus :
    unboundBonus.unresolved? = some ((Stat.named "Power").withEntity .any) := rfl

/-- Where all stages are watched, a refused addition changes nothing that can be observed. -/
theorem refused_beside_watched :
    let sheet := Sheet.run {} watchingPower
    let after := (sheet.add unboundBonus).2
    (sheet.graph.modifiers.contains unboundBonus.id = false ∧ sheet.nodeCount = 11) ∧
      (sheet.add unboundBonus).1 = .error (.unresolvedReference ⟨"Power", .any⟩) ∧
      sheet.SameStanding after ∧ sheet.SameExtent after ∧
      after.graph.announcements = sheet.graph.announcements := by
  have facts : (Sheet.run {} watchingPower).graph.modifiers.contains unboundBonus.id = false ∧
      (Sheet.run {} watchingPower).nodeCount = 11 ∧
        (Sheet.run {} watchingPower).graph.pending.nodes = [] ∧
          ((Sheet.run {} watchingPower).graph.sweep (Sheet.run {} watchingPower).retention).1 = .ok {} := by
    decide +kernel
  obtain ⟨absent, count, waits, nothing⟩ := facts
  obtain ⟨refused, _, standing, _, idle⟩ :=
    refused_add_keeps {} {} watchingPower unboundBonus absent unresolved_unboundBonus
  obtain ⟨extent, announcements⟩ := (idle waits).2 fun _ => nothing
  exact ⟨⟨absent, count⟩, refused, standing, extent, announcements⟩

/-- A modifier comes, and its total is read once. -/
def powerRead : List Operation :=
  [.add (.baseAdd ⟨1⟩ (.named "Power") 5), .value (.named "Power") .total .main]

/-- Where a value was read that nobody watches, the sweep after a refused addition takes its stages. -/
theorem refused_beside_unwatched :
    ¬ ∀ (settings : Settings) (retention : Retention) (operations : List Operation)
      (modifier : Modifier) (stat : Stat),
      let sheet := Sheet.run { settings, retention } operations
      let after := (sheet.add modifier).2
      sheet.graph.modifiers.contains modifier.id = false → modifier.unresolved? = some stat →
        (sheet.add modifier).1 = .error (.unresolvedReference stat.id) ∧
          sheet.SameStanding after ∧ sheet.SameExtent after ∧
          after.graph.announcements = sheet.graph.announcements := by
  intro keepsStanding
  have facts : (Sheet.run {} powerRead).graph.modifiers.contains unboundBonus.id = false ∧
      ((Sheet.run {} powerRead).add unboundBonus).2.nodeCount ≠ (Sheet.run {} powerRead).nodeCount := by
    decide +kernel
  obtain ⟨_, _, extent, _⟩ := keepsStanding {} {} powerRead unboundBonus _ facts.1 unresolved_unboundBonus
  exact facts.2 extent.nodeCount

end CharacterSheet
