import CharacterSheet.Proofs.Announcement.NetChanges
import CharacterSheet.Proofs.Announcement.Notices
import CharacterSheet.Proofs.Subscription.Registries

/-!
Contract: whoever watches a roster is called once for each batch that changed it.

Owns:
- the calls that a subscription to a roster has had;
- an announcement calls a subscription at most once, with what waits for its roster, and not at all
  if nothing does; what follows the announcement at the end of a batch calls nobody;
- over any batch after any operations, the call tells the net change of the roster, and there is
  none if the same members are in it.

It does not matter whether the subscription was made before the batch or in it.
-/

namespace CharacterSheet

/-- What a record tells a subscription of the change of a roster. -/
def Record.call? (id : SubscriptionId) : Record → Option (SlotId × Delta ModifierId)
  | rosterChanged own stat form path change =>
      if own = id then some (⟨stat, form, path⟩, change) else none
  | _ => none

/-- A key stands in a table at most once. -/
theorem Table.filter_key {κ α : Type} [DecidableEq κ] (table : Table κ α) (key : κ) :
    table.entries.filter (·.1 = key) = ((table.get? key).map fun value => (key, value)).toList := by
  obtain ⟨entries, distinct⟩ := table
  simp only [get?]
  induction entries with
  | nil => rfl
  | cons entry rest inductionHypothesis =>
      obtain ⟨absent, restDistinct⟩ := List.nodup_cons.mp distinct
      by_cases own : entry.1 = key
      · subst own
        have none : rest.filter (·.1 = entry.1) = [] := by
          refine List.filter_eq_nil_iff.mpr fun other member same => absent ?_
          exact of_decide_eq_true same ▸ List.mem_map_of_mem member
        simp [findIn, none]
      · simp only [findIn, own, ↓reduceIte, decide_false, Bool.false_eq_true, not_false_eq_true,
          List.filter_cons_of_neg]
        exact inductionHypothesis restDistinct

namespace Graph

variable {vocabulary : Vocabulary} {graph middle other : Graph} {id : SubscriptionId}

/-! ### Calls -/

/-- The calls that a subscription to a roster has had. -/
def calls (graph : Graph) (id : SubscriptionId) : List (SlotId × Delta ModifierId) :=
  graph.journal.filterMap (·.call? id)

theorem calls_eq (graph : Graph) (id : SubscriptionId) :
    graph.calls id = graph.announcements.filterMap (·.call? id) := by
  rw [calls, announcements, List.filterMap_filter]
  refine List.filterMap_congr fun entry _ => ?_
  cases entry <;> rfl

theorem calls_of_announcements (same : other.announcements = graph.announcements)
    (id : SubscriptionId) : other.calls id = graph.calls id := by
  rw [calls_eq, calls_eq, same]

/-- The subscribers of a roster are called with what became of it. -/
theorem calls_of_callsOf (graph : Graph) (change : SlotId × Delta ModifierId) (id : SubscriptionId) :
    (graph.callsOf change).filterMap (·.call? id) =
      List.replicate ((graph.rosterAudience change.1).count id) change := by
  rw [callsOf, List.filterMap_map]
  show (graph.rosterAudience change.1).filterMap (fun own => if own = id then some change else none) = _
  induction graph.rosterAudience change.1 with
  | nil => rfl
  | cons own rest inductionHypothesis =>
      by_cases same : own = id
      · simp [same, inductionHypothesis, List.replicate_succ]
      · simp [same, inductionHypothesis]

/-- No notice is a call. -/
theorem calls_of_notices {told : List Record} {notices : List (SubscriptionId × NodeName)}
    (all : told.map Record.notice? = notices.map some) (id : SubscriptionId) :
    told.filterMap (·.call? id) = [] := by
  refine List.filterMap_eq_nil_iff.mpr fun entry member => ?_
  have given : entry.notice? ∈ notices.map some := all ▸ List.mem_map_of_mem member
  obtain ⟨notice, -, same⟩ := List.mem_map.mp given
  cases entry with
  | valueChanged => rfl
  | _ => cases same

/-- An announcement calls the subscribers of each roster for which a change waits. -/
theorem calls_flush (intact : graph.Intact vocabulary) (id : SubscriptionId) :
    (graph.flush true).calls id = graph.calls id ++ graph.pending.changedSlots.flatMap fun change =>
      List.replicate ((graph.rosterAudience change.1).count id) change := by
  by_cases settled : graph.Settled
  · rw [flush_settled settled, settled.1]
    exact (List.append_nil _).symm
  · obtain ⟨told, announcements, notices⟩ := announcements_flush intact true settled
    have openings : (graph.openings true).filterMap (·.call? id) =
        graph.pending.changedSlots.flatMap fun change =>
          List.replicate ((graph.rosterAudience change.1).count id) change := by
      show graph.waitingCalls.filterMap (·.call? id) = _
      rw [waitingCalls, List.filterMap_flatMap]
      exact List.flatMap_congr fun change _ => graph.calls_of_callsOf change id
    rw [calls_eq, announcements, List.filterMap_append, List.filterMap_append, ← calls_eq, openings,
      calls_of_notices notices, List.append_nil]

/-- A subscription stands in the list of its roster, once, and in no other. -/
theorem Agrees.count_audience (agrees : graph.Agrees) {slot : SlotId}
    (listed : graph.subscriptions.get? id = some (.slot slot)) (own : SlotId) :
    (graph.rosterAudience own).count id = if own = slot then 1 else 0 := by
  rw [agrees.rosters]
  split
  · next same =>
    subst same
    have once : (graph.holders (.slot own)).Nodup :=
      graph.subscriptions.nodup_keys.sublist (List.filter_sublist.map _)
    exact List.count_eq_one_of_mem once ((graph.mem_holders_iff _ id).mpr listed)
  · next apart =>
    refine List.count_eq_zero.mpr fun member => ?_
    rw [mem_holders_iff, listed] at member
    cases member
    exact apart rfl

/-- What is called of a roster that waits for nothing but an empty change: nothing. -/
def callFor (slot : SlotId) (change : Delta ModifierId) : List (SlotId × Delta ModifierId) :=
  if change.isEmpty then [] else [(slot, change)]

/-- Of all changes that wait, a subscription is called with that of its roster. -/
theorem Agrees.calls_changedSlots (agrees : graph.Agrees) {slot : SlotId}
    (listed : graph.subscriptions.get? id = some (.slot slot)) :
    (graph.pending.changedSlots.flatMap fun change =>
      List.replicate ((graph.rosterAudience change.1).count id) change) =
        callFor slot (graph.waitsFor slot) := by
  have own (changes : List (SlotId × Delta ModifierId)) :
      (changes.flatMap fun change =>
        List.replicate ((graph.rosterAudience change.1).count id) change) =
          changes.filter (·.1 = slot) := by
    induction changes with
    | nil => rfl
    | cons change rest inductionHypothesis =>
        rw [List.flatMap_cons, inductionHypothesis, agrees.count_audience listed]
        by_cases same : change.1 = slot <;> simp [same]
  rw [own, Pending.changedSlots, List.filter_comm, Table.filter_key, waitsFor, callFor]
  cases graph.pending.slots.get? slot with
  | none => rfl
  | some change =>
      cases empty : change.isEmpty <;> simp [empty]

section Closing

variable (intact : graph.Intact vocabulary) (agrees : graph.Agrees) {slot : SlotId}
  (listed : graph.subscriptions.get? id = some (.slot slot))
include intact agrees listed

theorem calls_flush_of_listed :
    (graph.flush true).calls id = graph.calls id ++ callFor slot (graph.waitsFor slot) := by
  rw [calls_flush intact, agrees.calls_changedSlots listed]

/-- The end of a batch calls a subscription no more often than its first announcement: a sweep lets no
change of a roster wait. -/
theorem calls_concluded (settings : Settings) (rules : Retention)
    (wanted : settings.announceRosters = true) :
    (graph.concluded settings rules).calls id =
      graph.calls id ++ callFor slot (graph.waitsFor slot) := by
  have first := calls_flush_of_listed intact agrees listed
  have announced := intact_flush intact true
  have lifts := lifts_sweep rules (graph.flush true)
  have swept : ((graph.flush true).sweep rules).2.calls id = (graph.flush true).calls id :=
    calls_of_announcements lifts.announcements id
  have quiet : ((graph.flush true).sweep rules).2.pending.changedSlots = [] := by
    rw [Pending.changedSlots, lifts.1, (quiet_flush intact true).1]
    rfl
  have again := calls_flush (intact_sweep rules announced) id
  rw [quiet, List.flatMap_nil, List.append_nil] at again
  rw [← first, concluded, wanted]
  dsimp only
  split
  · split
    · exact swept
    · exact again.trans swept
  · rfl

end Closing

/-- From one graph to another, whoever watches a roster in the end is called with its net change,
unless this is empty. -/
def Informs (graph other : Graph) (was : SlotId → List ModifierId) : Prop :=
  ∀ id slot, other.subscriptions.get? id = some (.slot slot) → ∃ change,
    Delta.Net (was slot) (other.membersOf slot) change ∧
      other.calls id = graph.calls id ++ callFor slot change

variable {was : SlotId → List ModifierId}

/-- Nobody has to be called if nothing waits. -/
theorem Nets.informs (nets : graph.Nets was) (quiet : graph.pending.slots = .empty)
    (rests : ∀ stat form path, other.members stat form path = graph.members stat form path)
    (silent : ∀ id, other.calls id = graph.calls id) : graph.Informs other was := by
  intro id slot _
  refine ⟨graph.waitsFor slot, ?_, ?_⟩
  · rw [membersOf, rests]
    exact nets slot
  · rw [silent, waitsFor, quiet]
    exact (List.append_nil _).symm

theorem Informs.after (informs : middle.Informs other was)
    (silent : middle.announcements = graph.announcements) : graph.Informs other was := by
  intro id slot listed
  rw [← calls_of_announcements silent id]
  exact informs id slot listed

end Graph

namespace Sheet

open CharacterSheet.Graph

variable {vocabulary : Vocabulary} {sheet : Sheet} {operation : Operation}
  {was : SlotId → List ModifierId}

theorem settings_endBatch (sheet : Sheet) : sheet.endBatch.2.settings = sheet.settings := by
  unfold endBatch
  split
  · rfl
  · next depth _ =>
    have swept (sheet : Sheet) : sheet.sweepOnly.2.settings = sheet.settings := rfl
    dsimp only
    split
    · rfl
    · split
      · have same := swept (sheet.withGraph (sheet.graph.modifyPending fun pending =>
          { pending with depth })).flush
        split
        · next outcome => rwa [outcome] at same
        · next outcome =>
          rw [outcome] at same
          split <;> exact same
      · rfl

/-- No operation changes the settings. -/
theorem settings_apply (sheet : Sheet) (operation : Operation) :
    (sheet.apply operation).settings = sheet.settings := by
  have idle (sheet : Sheet) : sheet.flushIfIdle.settings = sheet.settings := by
    unfold flushIfIdle
    split <;> rfl
  have inside {α : Type} (change : Graph → Except Fault α × Graph) :
      (sheet.inBatch change).2.settings = sheet.settings := settings_endBatch _
  cases operation with
  | add modifier => exact inside _
  | addAll modifiers => exact inside _
  | remove id => exact inside _
  | removeAll ids => exact inside _
  | value stat stage path => exact idle _
  | breakdown stat => exact idle _
  | subscribe stat stage path reads =>
      show (sheet.subscribe stat stage path reads).2.settings = _
      unfold subscribe
      split
      · rfl
      · exact idle _
  | subscribeRoster stat form path => rfl
  | unsubscribe id => rfl
  | register stat => exact inside _
  | unregister stat => exact inside _
  | beginBatch => rfl
  | endBatch => exact settings_endBatch sheet
  | closeBlock =>
      have ends := settings_endBatch sheet
      show sheet.closeBlock.settings = _
      unfold closeBlock
      split <;> next outcome => rwa [outcome] at ends
  | sweep =>
      have swept : sheet.sweepOnly.2.settings = sheet.settings := rfl
      show sheet.sweep.2.settings = _
      unfold sweep
      split <;> next outcome => rwa [outcome] at swept
  | retain rules => rfl

theorem settings_run (sheet : Sheet) (operations : List Operation) :
    (sheet.run operations).settings = sheet.settings := by
  induction operations generalizing sheet with
  | nil => rfl
  | cons operation rest inductionHypothesis =>
      exact (inductionHypothesis (sheet.apply operation)).trans (settings_apply sheet operation)

/-- The operation that leaves no batch open calls whoever watches a roster. -/
theorem informs_apply (closed : vocabulary.Closed) (reachable : Reachable vocabulary sheet)
    (within : operation.Within vocabulary) (wanted : sheet.settings.announceRosters = true)
    (nets : sheet.graph.Nets was) (agrees : (sheet.apply operation).graph.Agrees)
    (closes : (sheet.apply operation).batchDepth = 0) :
    sheet.graph.Informs (sheet.apply operation).graph was := by
  have intact := reachable.intact closed
  have quiet := quiet_run closed reachable
  have course := course_apply closed intact within
  rw [batchDepth] at closes
  generalize (sheet.apply operation).graph = after at course closes agrees
  cases course with
  | aside _ aside =>
      have depth : sheet.batchDepth = 0 := by
        cases aside with
        | same => exact closes
        | note entry _ => exact closes
        | watchRoster _ _ => exact (depth_subscribeRoster ..).symm.trans closes
        | unwatch id => exact (depth_unsubscribe ..).symm.trans closes
      have stirs := stirs_of_aside aside
      exact nets.informs (quiet depth).1 (rests_stirs intact stirs).members
        (calls_of_announcements (defers_stirs intact stirs).announcements)
  | inside _ _ stillOpen => exact absurd closes stillOpen
  | @announce ready _ stirs _ =>
      have intact' := stirs.intact intact
      have extends' : ready.Extends (ready.flush sheet.settings.announceRosters) :=
        extends_flush intact' _
      have seats := agrees.before (.of_extends extends')
      refine Informs.after (fun id slot listed => ?_) (defers_stirs intact stirs).announcements
      rw [extends'.subscriptions] at listed
      refine ⟨ready.waitsFor slot, ?_, ?_⟩
      · rw [membersOf, extends'.members]
        exact nets.keep (rests_stirs intact stirs) slot
      · rw [wanted]
        exact calls_flush_of_listed intact' seats listed
  | @conclude start ready before later _ =>
      have intact' := later.intact (intact_turnover closed (before.intact intact) within)
      have same : ready.SameSeats (ready.concluded sheet.settings sheet.retention) :=
        sameSeats_concluded intact' _ _
      have seats := agrees.before same
      have rests := (moves_concluded ready sheet.settings sheet.retention).undisturbed intact'
      refine Informs.after (fun id slot listed => ?_)
        (defers_turnover closed within intact before later).announcements
      rw [same.subscriptions] at listed
      refine ⟨ready.waitsFor slot, ?_, calls_concluded intact' seats listed _ _ wanted⟩
      rw [membersOf, rests.members]
      exact nets_turnover closed within intact nets before later slot
  | sweep _ idle =>
      have lifts := lifts_sweep sheet.retention sheet.graph
      have swept := intact_sweep sheet.retention intact
      have nothing : (sheet.graph.sweep sheet.retention).2.pending.changedSlots = [] := by
        rw [Pending.changedSlots, lifts.1, (quiet idle).1]
        rfl
      refine nets.informs (quiet idle).1 (fun stat form path => ?_) fun id => ?_
      · exact ((extends_flush swept _).members stat form path).trans
          ((undisturbed_sweep sheet.retention intact).members stat form path)
      · rw [wanted, calls_flush swept, nothing, List.flatMap_nil, List.append_nil]
        exact calls_of_announcements lifts.announcements id

/-- A batch lets the changes of each roster wait until its last operation calls whoever watches it. -/
theorem Batch.informs (closed : vocabulary.Closed) {operations : List Operation}
    (reachable : Reachable vocabulary sheet)
    (within : ∀ operation ∈ operations, operation.Within vocabulary)
    (wanted : sheet.settings.announceRosters = true) (nets : sheet.graph.Nets was)
    (agrees : (sheet.run operations).graph.Agrees) (batch : sheet.Batch operations) :
    sheet.graph.Informs (sheet.run operations).graph was := by
  induction operations generalizing sheet with
  | nil => exact batch.elim
  | cons operation rest inductionHypothesis =>
      obtain ⟨here, later⟩ := List.forall_mem_cons.mp within
      cases rest with
      | nil => exact informs_apply closed reachable here wanted nets agrees batch
      | cons next rest =>
          obtain ⟨stillOpen, goesOn⟩ := batch
          have intact := reachable.intact closed
          have informs := inductionHypothesis (.apply operation reachable here) later
            ((settings_apply sheet operation).symm ▸ wanted)
            (nets_apply closed intact here nets stillOpen) agrees goesOn
          exact informs.after (defers_apply closed intact here stillOpen).announcements

end Sheet

/-! ### Any batch after any operations -/

open CharacterSheet.Graph

/-- Over any batch after any operations, if changes of rosters are wanted at all: whoever watches a
roster in the end is called once if other members are in it than before the batch, with those that are
in it now and were not, in their order, and with those that were in it and are not any more. If the
same members are in it, nobody is called. -/
theorem calls_tell_net_changes (settings : Settings) (retention : Retention)
    (before operations : List Operation) :
    let sheet := Sheet.run { settings, retention } before
    let closed := sheet.run operations
    settings.announceRosters = true → sheet.batchDepth = 0 → sheet.Batch operations →
      ∀ id slot, closed.graph.subscriptions.get? id = some (.slot slot) →
        let was := sheet.graph.members slot.stat slot.form slot.path
        let now := closed.graph.members slot.stat slot.form slot.path
        ((∀ member, member ∈ was ↔ member ∈ now) → closed.graph.calls id = sheet.graph.calls id) ∧
          ((¬ ∀ member, member ∈ was ↔ member ∈ now) → ∃ change, Delta.Net was now change ∧
            closed.graph.calls id = sheet.graph.calls id ++ [(slot, change)]) := by
  intro sheet closed wanted idle batch id slot listed was now
  have within := Operation.all_within_everything operations
  have reachable : Sheet.Reachable .everything sheet :=
    Sheet.reachable_everything settings retention before
  have intact := reachable.intact Vocabulary.closed_everything
  have quiet := Sheet.quiet_run Vocabulary.closed_everything reachable idle
  have honors : closed.graph.Honors _ :=
    Sheet.honors_run Vocabulary.closed_everything intact
      (Sheet.honors_everything settings retention before) within
  have kept : sheet.settings.announceRosters = true :=
    (congrArg Settings.announceRosters (Sheet.settings_run _ before)).trans wanted
  have informs := Sheet.Batch.informs Vocabulary.closed_everything reachable within kept
    (nets_membersOf intact.formed quiet.1) honors.toAgrees batch
  obtain ⟨change, net, calls⟩ := informs id slot listed
  refine ⟨fun same => ?_, fun differs => ⟨change, net, ?_⟩⟩
  · rw [calls, callFor, if_pos (net.isEmpty_iff.mpr same), List.append_nil]
  · rw [calls, callFor, if_neg (mt net.isEmpty_iff.mp differs)]

/-- The base additions of a stat are watched, among which there is one. -/
def watchingAdditions : List Operation :=
  [.add (.baseAdd ⟨1⟩ (.named "Power") 5), .subscribeRoster (.named "Power") .baseAdd .main]

/-- One addition takes the place of another, and a third comes and goes. -/
def replacingAdditions : List Operation :=
  [.beginBatch, .add (.baseAdd ⟨2⟩ (.named "Power") 3), .add (.baseAdd ⟨3⟩ (.named "Power") 4),
    .remove ⟨1⟩, .remove ⟨3⟩, .endBatch]

/-- The third addition is not mentioned. -/
theorem replacingAdditions_called :
    let sheet := Sheet.run {} watchingAdditions
    let closed := sheet.run replacingAdditions
    let slot : SlotId := ⟨(Stat.named "Power").id, .baseAdd, .main⟩
    sheet.batchDepth = 0 ∧ sheet.Batch replacingAdditions ∧
      closed.graph.subscriptions.get? ⟨1⟩ = some (.slot slot) ∧
        ∃ change, Delta.Net [⟨1⟩] [⟨2⟩] change ∧
          closed.graph.calls ⟨1⟩ = sheet.graph.calls ⟨1⟩ ++ [(slot, change)] := by
  have idle : (Sheet.run {} watchingAdditions).batchDepth = 0 := by decide +kernel
  have batch : (Sheet.run {} watchingAdditions).Batch replacingAdditions := by decide +kernel
  have listed : ((Sheet.run {} watchingAdditions).run replacingAdditions).graph.subscriptions.get? ⟨1⟩ =
      some (.slot ⟨(Stat.named "Power").id, .baseAdd, .main⟩) := by decide +kernel
  have was : (Sheet.run {} watchingAdditions).graph.members (Stat.named "Power").id .baseAdd .main =
      [⟨1⟩] := by decide +kernel
  have now : ((Sheet.run {} watchingAdditions).run replacingAdditions).graph.members
      (Stat.named "Power").id .baseAdd .main = [⟨2⟩] := by decide +kernel
  obtain ⟨-, told⟩ := calls_tell_net_changes {} {} watchingAdditions replacingAdditions rfl idle batch
    ⟨1⟩ ⟨(Stat.named "Power").id, .baseAdd, .main⟩ listed
  rw [was, now] at told
  exact ⟨idle, batch, listed, told fun same => absurd ((same ⟨1⟩).mp List.mem_cons_self) (by decide)⟩

end CharacterSheet
