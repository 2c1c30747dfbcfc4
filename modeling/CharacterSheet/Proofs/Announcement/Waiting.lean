import CharacterSheet.Proofs.Change.Courses

/-!
Contract: which changes wait to be announced between operations, and how often a batch announces.

Owns:
- what a flush and a sweep write into the journal and what they leave waiting;
- between operations, outside of any batch, a change waits only if behaviors came into force
  since the last announcement began;
- the closing of a batch tells a subscription twice only if behaviors came into force or were
  lifted between its two announcements, and never more often.
-/

namespace CharacterSheet

/-- Whether a record says that behaviors are no longer in force. -/
def Record.isWithdrawal : Record → Bool
  | behaviorsUnregistered _ _ => true
  | _ => false

namespace Graph

variable {vocabulary : Vocabulary} {graph middle other : Graph}

/-! ### Sweeps -/

/-- A change that announces nothing, of which the journal tells. Either behaviors are lifted by it,
or it lets nothing wait that did not wait before. -/
def Lifts (graph other : Graph) : Prop :=
  other.pending.slots = graph.pending.slots ∧
    ∃ added, other.journal = graph.journal ++ added ∧
      (∀ entry ∈ added, entry.isAnnouncement = false) ∧
        ((∃ entry ∈ added, entry.isWithdrawal) ∨
          ∀ node ∈ other.pending.nodes, node ∈ graph.pending.nodes)

theorem Lifts.of_quiet (slots : other.pending.slots = graph.pending.slots)
    (journal : other.journal = graph.journal)
    (fewer : ∀ node ∈ other.pending.nodes, node ∈ graph.pending.nodes) : graph.Lifts other :=
  ⟨slots, [], by rw [journal, List.append_nil], fun _ none => absurd none List.not_mem_nil,
    Or.inr fewer⟩

theorem Lifts.refl (graph : Graph) : graph.Lifts graph := .of_quiet rfl rfl fun _ => id

theorem Lifts.trans (first : graph.Lifts middle) (second : middle.Lifts other) :
    graph.Lifts other := by
  obtain ⟨slots, before, same, silent, either⟩ := first
  obtain ⟨still, after, later, quiet, or⟩ := second
  refine ⟨still.trans slots, before ++ after, by rw [later, same, List.append_assoc],
    fun entry member => (List.mem_append.mp member).elim (silent entry) (quiet entry), ?_⟩
  rcases either with ⟨entry, member, lifts⟩ | fewer
  · exact Or.inl ⟨entry, List.mem_append_left after member, lifts⟩
  · rcases or with ⟨entry, member, lifts⟩ | fewest
    · exact Or.inl ⟨entry, List.mem_append_right before member, lifts⟩
    · exact Or.inr fun node waits => fewer node (fewest node waits)

theorem Lifts.foldl {α : Type} {step : Graph → α → Graph} (items : List α)
    (lifts : ∀ graph item, Lifts graph (step graph item)) (graph : Graph) :
    graph.Lifts (items.foldl step graph) := by
  induction items generalizing graph with
  | nil => exact .refl graph
  | cons item rest inductionHypothesis => exact (lifts graph item).trans (inductionHypothesis _)

theorem Lifts.record (graph : Graph) {entry : Record} (inward : entry.isAnnouncement = false) :
    graph.Lifts (graph.record entry) :=
  ⟨rfl, [entry], rfl, fun _ member => List.mem_singleton.mp member ▸ inward, Or.inr fun _ => id⟩

theorem Lifts.announcements (lifts : graph.Lifts other) :
    other.announcements = graph.announcements := by
  obtain ⟨_, added, same, silent, _⟩ := lifts
  have none : added.filter Record.isAnnouncement = [] := by
    simpa [List.filter_eq_nil_iff] using silent
  rw [Graph.announcements, same, List.filter_append, none, List.append_nil]
  rfl

/-- Up to the removal of pipelines a sweep notes nothing, and lets nothing new wait. -/
theorem fewer_relaxed (rules : Retention) (graph : Graph) :
    (graph.relaxed rules).journal = graph.journal ∧
      (graph.relaxed rules).pending.slots = graph.pending.slots ∧
        ∀ node ∈ (graph.relaxed rules).pending.nodes, node ∈ graph.pending.nodes := by
  have removes (nodes : List NodeId) : (graph.removeNodes nodes).journal = graph.journal ∧
      (graph.removeNodes nodes).pending.slots = graph.pending.slots ∧
        ∀ node ∈ (graph.removeNodes nodes).pending.nodes, node ∈ graph.pending.nodes := by
    rw [removeNodes_eq]
    split
    · exact ⟨rfl, rfl, fun _ => id⟩
    · rw [unlistAll_eq]
      exact ⟨rfl, rfl, fun node waits => List.mem_of_mem_filter waits⟩
  have empties (slots : List SlotId) (graph : Graph) :
      (slots.foldl removeSlot graph).journal = graph.journal ∧
        (slots.foldl removeSlot graph).pending = graph.pending := by
    induction slots generalizing graph with
    | nil => exact ⟨rfl, rfl⟩
    | cons slot rest inductionHypothesis => exact inductionHypothesis (graph.removeSlot slot)
  obtain ⟨journal, pending⟩ := empties (graph.sweptSlots rules)
    (graph.removeNodes (graph.sweptNodes rules))
  obtain ⟨same, slots, fewer⟩ := removes (graph.sweptNodes rules)
  have rest : graph.relaxed rules = { graph.thinned rules with
      nodes := (graph.relaxed rules).nodes, edges := (graph.relaxed rules).edges } :=
    (relaxes_relaxed rules).rest
  rw [rest, thinned]
  exact ⟨journal.trans same, (congrArg Pending.slots pending).trans slots, fun node waits =>
    fewer node (congrArg Pending.nodes pending ▸ waits)⟩

theorem lifts_removePipeline (graph : Graph) (stat : StatId) :
    graph.Lifts (graph.removePipeline stat) := by
  have silent (middle : Graph) (slots : middle.pending = graph.pending)
      (journal : middle.journal = graph.journal) : graph.Lifts middle :=
    .of_quiet (by rw [slots]) journal fun node waits => slots ▸ waits
  rw [removePipeline_eq]
  split
  · split
    · exact silent _ rfl rfl
    · next behaviors _ =>
      split
      · exact silent _ rfl rfl
      · have fades := fades_invalidateAll
          (((graph.close stat).lift stat).record (.behaviorsUnregistered stat behaviors.length))
          (behaviors.flatMap (((graph.close stat).lift stat).record
            (.behaviorsUnregistered stat behaviors.length)).behaviorTargets)
        rw [invalidateTargets_eq]
        exact ⟨fades.slots, [.behaviorsUnregistered stat behaviors.length], fades.journal,
          fun _ member => List.mem_singleton.mp member ▸ rfl,
          Or.inl ⟨_, List.mem_singleton_self _, rfl⟩⟩
  · exact .refl graph

theorem lifts_sweep (rules : Retention) (graph : Graph) : graph.Lifts (graph.sweep rules).2 := by
  obtain ⟨journal, slots, fewer⟩ := graph.fewer_relaxed rules
  have sweeps : graph.Lifts (graph.swept rules) :=
    (Lifts.of_quiet slots journal fewer).trans (Lifts.foldl _ lifts_removePipeline _)
  rw [sweep_eq]
  split
  · exact .refl graph
  · dsimp only
    split
    · exact sweeps
    · exact sweeps.trans (.record _ rfl)

/-! ### Flushes -/

section Flush

variable (intact : graph.Intact vocabulary) (announceRosters : Bool)
include intact

/-- A flush that finds something to announce says so in the journal. Afterwards no roster waits,
and a node waits only if subscribers brought behaviors into force. -/
theorem news_flush (unsettled : ¬ graph.Settled) :
    (graph.flush announceRosters).pending.slots = .empty ∧ ∃ begins added,
      (graph.flush announceRosters).journal = graph.journal ++ begins :: added ∧
        begins.isFlush = true ∧ (∀ entry ∈ added, entry.isFlush = false) ∧
          ((∃ entry ∈ added, entry.isRegistration) ∨
            (graph.flush announceRosters).pending.nodes = []) := by
  have tells := tells_flush intact announceRosters unsettled
  obtain ⟨added, journal, quiet, either⟩ := tells.logs
  refine ⟨tells.slots, .flushing graph.pending.nodes.length graph.pending.changedSlots.length,
    added, ?_, rfl, quiet, either.imp_right fun untouched => ?_⟩
  · rw [journal, begun, record, List.append_assoc]
    rfl
  · exact congrArg Pending.nodes untouched.1.pending

end Flush

/-- Nothing of what happened to rosters waits to be announced, and something that happened to nodes
only if behaviors came into force after the last announcement had begun. -/
def Quiet (graph : Graph) : Prop :=
  graph.pending.slots = .empty ∧
    (graph.pending.nodes = [] ∨ ∃ before entry after, graph.journal = before ++ entry :: after ∧
      entry.isRegistration = true ∧ ∀ later ∈ after, later.isFlush = false)

theorem Quiet.initial : ({} : Graph).Quiet := ⟨rfl, Or.inl rfl⟩

theorem quiet_flush (intact : graph.Intact vocabulary) (announceRosters : Bool) :
    (graph.flush announceRosters).Quiet := by
  by_cases settled : graph.Settled
  · rw [flush_settled settled]
    exact ⟨rfl, Or.inl rfl⟩
  · obtain ⟨slots, begins, added, journal, _, silent, either⟩ :=
      news_flush intact announceRosters settled
    refine ⟨slots, either.symm.imp_right ?_⟩
    rintro ⟨entry, member, registers⟩
    obtain ⟨first, last, split⟩ := List.append_of_mem member
    refine ⟨graph.journal ++ begins :: first, entry, last, ?_, registers, fun later inside => ?_⟩
    · rw [journal, split, List.append_assoc]
      rfl
    · exact silent later (split ▸ List.mem_append_right first (List.mem_cons_of_mem entry inside))

/-- A quiet graph stays quiet while nothing else waits than what new behaviors affect. -/
theorem Quiet.logs (quiet : graph.Quiet) (logs : graph.Logs other True)
    (slots : other.pending.slots = graph.pending.slots) : other.Quiet := by
  obtain ⟨added, journal, silent, either⟩ := logs
  refine ⟨slots.trans quiet.1, ?_⟩
  rcases either with ⟨entry, member, registers⟩ | ⟨untouched, _⟩
  · obtain ⟨first, last, split⟩ := List.append_of_mem member
    refine Or.inr ⟨graph.journal ++ first, entry, last, ?_, registers, fun later inside => ?_⟩
    · rw [journal, split, List.append_assoc]
    · exact silent later (split ▸ List.mem_append_right first (List.mem_cons_of_mem entry inside))
  · rcases quiet.2 with none | ⟨before, entry, after, split, registers, still⟩
    · left
      rw [untouched.pending, none]
    · refine Or.inr ⟨before, entry, after ++ added, ?_, registers, fun later inside => ?_⟩
      · rw [journal, split, List.append_assoc]
        rfl
      · exact (List.mem_append.mp inside).elim (still later) (silent later)

theorem quiet_subscribeRoster (quiet : graph.Quiet) (stat : Stat) (form : Form) (path : Path) :
    (graph.subscribeRoster stat form path).2.Quiet := by
  unfold subscribeRoster
  split
  · have logs := logs_ensurePipeline graph stat
    have slots : (graph.ensurePipeline stat).pending.slots = graph.pending.slots := by
      rw [ensurePipeline_eq]
      split
      · rfl
      · split
        · rfl
        · rw [enforce, invalidateTargets_eq, (fades_invalidateAll _ _).slots]
          rfl
    have ready : (graph.ensurePipeline stat).Quiet := quiet.logs logs slots
    exact ready
  · exact quiet

theorem quiet_unsubscribe (quiet : graph.Quiet) (id : SubscriptionId) :
    (graph.unsubscribe id).2.Quiet := by
  unfold unsubscribe
  split
  · exact quiet
  · split <;> exact quiet

/-! ### The end of a batch -/

theorem quiet_concluded (intact : graph.Intact vocabulary) (settings : Settings)
    (rules : Retention) : (graph.concluded settings rules).Quiet := by
  have announced := intact_flush intact settings.announceRosters
  unfold concluded
  dsimp only
  split
  · split
    · next settled =>
      simp only [Pending.isEmpty, Bool.and_eq_true, List.isEmpty_iff] at settled
      have slots : ((graph.flush settings.announceRosters).sweep rules).2.pending.slots = .empty :=
        (lifts_sweep rules _).1.trans (quiet_flush intact settings.announceRosters).1
      exact ⟨slots, Or.inl settled.1⟩
    · exact quiet_flush (intact_sweep rules announced) settings.announceRosters
  · exact quiet_flush intact settings.announceRosters

/-- The end of a batch tells a subscription at most twice, and twice only if behaviors came into
force or were lifted between the two announcements. -/
theorem heard_concluded (intact : graph.Intact vocabulary) (settings : Settings) (rules : Retention)
    (id : SubscriptionId) :
    (graph.concluded settings rules).heard id ≤ graph.heard id + 2 ∧
      (graph.heard id + 2 ≤ (graph.concluded settings rules).heard id →
        ∃ earlier entry later,
          (graph.concluded settings rules).journal = graph.journal ++ earlier ++ entry :: later ∧
            (entry.isRegistration ∨ entry.isWithdrawal) ∧ (∃ first ∈ earlier, first.isFlush) ∧
              ∃ second ∈ later, second.isFlush) := by
  have told := heard_flush intact settings.announceRosters id
  have announced := intact_flush intact settings.announceRosters
  unfold concluded
  dsimp only
  split
  · have lifts := lifts_sweep rules (graph.flush settings.announceRosters)
    have swept := intact_sweep rules announced
    have silent := heard_of_announcements lifts.announcements id
    split
    · exact ⟨by omega, fun twice => absurd twice (by omega)⟩
    · have again := heard_flush swept settings.announceRosters id
      refine ⟨by omega, fun twice => ?_⟩
      have unsettled : ¬ graph.Settled := fun settled => by
        have none := told.2 settled
        omega
      have stirred : ¬ ((graph.flush settings.announceRosters).sweep rules).2.Settled :=
        fun settled => by
          have none := again.2 settled
          omega
      obtain ⟨slots, begins, first, before, starts, _, either⟩ :=
        news_flush intact settings.announceRosters unsettled
      obtain ⟨_, next, last, after, follows, _, _⟩ :=
        news_flush swept settings.announceRosters stirred
      obtain ⟨still, lifted, between, _, or⟩ := lifts
      rw [after, between, before]
      rcases either with ⟨entry, member, registers⟩ | none
      · obtain ⟨front, back, rfl⟩ := List.append_of_mem member
        refine ⟨begins :: front, entry, back ++ lifted ++ next :: last, ?_, Or.inl registers,
          ⟨begins, List.mem_cons_self, starts⟩, next, ?_, follows⟩
        · simp only [List.append_assoc, List.cons_append]
        · exact List.mem_append_right _ List.mem_cons_self
      · rcases or with ⟨entry, member, withdraws⟩ | fewer
        · obtain ⟨front, back, rfl⟩ := List.append_of_mem member
          refine ⟨begins :: first ++ front, entry, back ++ next :: last, ?_, Or.inr withdraws,
            ⟨begins, List.mem_append_left _ List.mem_cons_self, starts⟩, next, ?_, follows⟩
          · simp only [List.append_assoc, List.cons_append]
          · exact List.mem_append_right _ List.mem_cons_self
        · -- nothing is left to announce, so nobody was told a second time
          refine absurd ⟨?_, ?_⟩ stirred
          · rw [Pending.changedSlots, still, slots]
            rfl
          · rw [none] at fewer
            exact List.eq_nil_iff_forall_not_mem.mpr fun node waits =>
              absurd (fewer node waits) List.not_mem_nil
  · exact ⟨by omega, fun twice => absurd twice (by omega)⟩

end Graph

namespace Sheet

open CharacterSheet.Graph

variable {vocabulary : Vocabulary} {sheet : Sheet}

/-! ### Between operations -/

/-- Outside of any batch a sheet is quiet. -/
def Quiet (sheet : Sheet) : Prop := sheet.batchDepth = 0 → sheet.graph.Quiet

/-- Every operation leaves a quiet sheet quiet: outside of any batch it is aside of what waits, or
ends with an announcement. -/
theorem quiet_apply (closed : vocabulary.Closed) (intact : sheet.graph.Intact vocabulary)
    (quiet : sheet.Quiet) {operation : Operation} (within : operation.Within vocabulary) :
    (sheet.apply operation).Quiet := by
  have course := course_apply closed intact within
  rw [Quiet, batchDepth]
  generalize (sheet.apply operation).graph = after at course
  intro idle
  cases course with
  | aside _ aside =>
      cases aside with
      | same => exact quiet idle
      | note entry inward =>
          exact (quiet idle).logs (logs_record _ (Record.isFlush_of_inward inward)) rfl
      | watchRoster _ _ =>
          exact quiet_subscribeRoster (quiet ((depth_subscribeRoster ..).symm.trans idle)) _ _ _
      | unwatch id => exact quiet_unsubscribe (quiet ((depth_unsubscribe ..).symm.trans idle)) id
  | inside _ _ stillOpen => exact absurd idle stillOpen
  | announce _ stirs _ => exact quiet_flush (stirs.intact intact) _
  | conclude before after _ =>
      exact quiet_concluded
        (after.intact (intact_turnover closed (before.intact intact) within)) _ _
  | sweep _ _ => exact quiet_flush (intact_sweep sheet.retention intact) _

theorem quiet_run (closed : vocabulary.Closed) (reachable : Reachable vocabulary sheet) :
    sheet.Quiet := by
  induction reachable with
  | new settings retention => exact fun _ => .initial
  | apply operation before within inductionHypothesis =>
      exact quiet_apply closed (before.intact closed) inductionHypothesis within

/-- To close a batch tells a subscription at most twice, and twice only if behaviors came into force
or were lifted between the two announcements. -/
theorem heard_endBatch (intact : sheet.graph.Intact vocabulary) (id : SubscriptionId) :
    sheet.endBatch.2.graph.heard id ≤ sheet.graph.heard id + 2 ∧
      (sheet.graph.heard id + 2 ≤ sheet.endBatch.2.graph.heard id →
        ∃ earlier entry later,
          sheet.endBatch.2.graph.journal = sheet.graph.journal ++ earlier ++ entry :: later ∧
            (entry.isRegistration ∨ entry.isWithdrawal) ∧ (∃ first ∈ earlier, first.isFlush) ∧
              ∃ second ∈ later, second.isFlush) := by
  rw [endBatch_eq intact]
  have silent (twice : sheet.graph.heard id + 2 ≤ sheet.graph.heard id) : False := by omega
  split
  · exact ⟨Nat.le_add_right _ 2, fun twice => (silent twice).elim⟩
  · exact heard_concluded (intact.deepen 0) sheet.settings sheet.retention id
  · exact ⟨Nat.le_add_right (sheet.graph.heard id) 2, fun twice => (silent twice).elim⟩

end Sheet

/-! ### Any operations on a new sheet -/

/-- After any operations, outside of any batch, no change of a roster waits to be announced, and a
change of a node waits only if behaviors came into force after the last announcement had begun. -/
theorem waiting_only_for_new_behaviors (settings : Settings) (retention : Retention)
    (operations : List Operation) :
    let sheet := Sheet.run { settings, retention } operations
    sheet.batchDepth = 0 →
      sheet.graph.pending.slots = .empty ∧
        (sheet.graph.pending.nodes = [] ∨
          ∃ before entry after, sheet.graph.journal = before ++ entry :: after ∧
            entry.isRegistration = true ∧ ∀ later ∈ after, later.isFlush = false) := by
  intro sheet idle
  exact Sheet.quiet_run Vocabulary.closed_everything
    (Sheet.reachable_everything settings retention operations) idle

/-- A stat that sets the total of another one while it is on the sheet. -/
def aura : Stat :=
  (Stat.named "Aura").withBehavior
    ⟨[(Stat.named "Power").id], [.total], .all, .set (some (.scalar 1))⟩

/-- The total is watched, then a roster of the stat that sets it. -/
def watchingAura : List Operation :=
  [.subscribe (.named "Power") .total .main [], .subscribeRoster aura .baseAdd .main]

theorem waiting_for_aura :
    let sheet := Sheet.run {} watchingAura
    sheet.batchDepth = 0 ∧ sheet.graph.pending.slots = .empty ∧
      (sheet.graph.pending.nodes = [] ∨
        ∃ before entry after, sheet.graph.journal = before ++ entry :: after ∧
          entry.isRegistration = true ∧ ∀ later ∈ after, later.isFlush = false) :=
  have idle : (Sheet.run {} watchingAura).batchDepth = 0 := by decide +kernel
  ⟨idle, waiting_only_for_new_behaviors {} {} watchingAura idle⟩

/-- A subscription to a roster outside of any batch does not announce what it changes. -/
theorem aura_waits : ¬ ∀ settings retention operations,
    let sheet := Sheet.run { settings, retention } operations
    sheet.batchDepth = 0 → sheet.graph.pending.isEmpty = true := by
  intro announced
  have settled := announced {} {} watchingAura (by decide +kernel)
  exact absurd settled (by decide +kernel)

/-- After any operations, to close a batch tells a subscription of a value at most twice, and twice
only if behaviors came into force or were lifted between the two announcements. -/
theorem told_twice_only_across_behaviors (settings : Settings) (retention : Retention)
    (operations : List Operation) (id : SubscriptionId) :
    let sheet := Sheet.run { settings, retention } operations
    let closed := sheet.endBatch.2
    closed.graph.heard id ≤ sheet.graph.heard id + 2 ∧
      (sheet.graph.heard id + 2 ≤ closed.graph.heard id →
        ∃ earlier entry later,
          closed.graph.journal = sheet.graph.journal ++ earlier ++ entry :: later ∧
            (entry.isRegistration ∨ entry.isWithdrawal) ∧ (∃ first ∈ earlier, first.isFlush) ∧
              ∃ second ∈ later, second.isFlush) := by
  intro sheet closed
  exact Sheet.heard_endBatch (Sheet.intact_everything settings retention operations) id

/-- The total is watched, then the stat that sets it is read in a batch. -/
def passingAura : List Operation :=
  [.subscribe (.named "Power") .total .main [], .beginBatch, .value aura .total .main]

/-- At its end the batch tells of the total before and after the behavior is lifted. -/
theorem aura_lifted_between :
    let sheet := Sheet.run {} passingAura
    let closed := sheet.endBatch.2
    sheet.graph.heard ⟨1⟩ + 2 ≤ closed.graph.heard ⟨1⟩ ∧
      closed.graph.heard ⟨1⟩ ≤ sheet.graph.heard ⟨1⟩ + 2 ∧
        ∃ earlier entry later,
          closed.graph.journal = sheet.graph.journal ++ earlier ++ entry :: later ∧
            (entry.isRegistration ∨ entry.isWithdrawal) ∧ (∃ first ∈ earlier, first.isFlush) ∧
              ∃ second ∈ later, second.isFlush :=
  have twice : (Sheet.run {} passingAura).graph.heard ⟨1⟩ + 2 ≤
      (Sheet.run {} passingAura).endBatch.2.graph.heard ⟨1⟩ := by decide +kernel
  have bounded := told_twice_only_across_behaviors {} {} passingAura ⟨1⟩
  ⟨twice, bounded.1, bounded.2 twice⟩

/-- A subscriber is told when a behavior comes into force and again when the sweep lifts it. -/
theorem aura_told_twice : ¬ ∀ settings retention operations id,
    let sheet := Sheet.run { settings, retention } operations
    sheet.endBatch.2.graph.heard id ≤ sheet.graph.heard id + 1 := by
  intro once
  exact absurd (once {} {} passingAura ⟨1⟩) (by decide +kernel)

end CharacterSheet
