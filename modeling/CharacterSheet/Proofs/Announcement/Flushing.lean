import CharacterSheet.Proofs.Announcement.Ordering
import CharacterSheet.Proofs.Announcement.Calling

/-!
Contract: what a flush delivers, and in which order.

Owns:
- every subscriber of a node that waits is given one notice, and nobody else is given any;
- a flush starts with nothing waiting any more, so what waits in the end came up in its course.
-/

namespace CharacterSheet

namespace Graph

variable {graph : Graph}

/-- What a flush does that finds something waiting: in which order it announces nodes, and by which
records their subscribers are told. -/
structure Discharges (announceRosters : Bool) (graph after : Graph) (order : List NodeId)
    (told : List Record) : Prop where
  /-- Nothing waits any more when the flush begins, and from then on there are only reads and entries
  into the journal. -/
  taken : graph.begun.pending = graph.pending.cleared ∧ Speaks .everything graph.begun after
  /-- No change of a roster waits in the end, and a change of a node only if behaviors came into force
  in the course of the flush. -/
  left : after.pending.slots = .empty ∧ ∃ begins added,
    after.journal = graph.journal ++ begins :: added ∧
      ((∃ entry ∈ added, entry.isRegistration) ∨ after.pending.nodes = [])
  /-- The waiting calls come first, if they are wanted. -/
  announcements : after.announcements =
    graph.announcements ++ (graph.openings announceRosters ++ told)
  /-- All other records are notices to the subscribers of the nodes in their order. -/
  notices : told.map Record.notice? = (order.flatMap graph.notices).map some
  /-- The nodes that wait and have subscribers are announced. -/
  announces : ∀ node, node ∈ order ↔ node ∈ graph.pending.nodes ∧ graph.readers node ≠ []
  /-- None of them is announced twice, and nobody is told twice. -/
  once : order.Nodup ∧ (told.filterMap Record.recipient?).Nodup
  /-- A node is announced after all that it depended on, unless nodes depended on each other. -/
  sorted : graph.Acyclic → ∀ producer ∈ order, ∀ consumer ∈ order, producer ≠ consumer →
    graph.Reaches producer consumer →
      ∃ earlier later, order = earlier ++ consumer :: later ∧ producer ∈ earlier

theorem followed_iff_readers (graph : Graph) (node : NodeId) :
    graph.Followed node ↔ graph.readers node ≠ [] := by
  unfold Followed readers
  cases graph.nodes.get? node <;> simp

theorem recipients_of_notices {told : List Record} {order : List NodeId}
    (notices : told.map Record.notice? = (order.flatMap graph.notices).map some) :
    told.filterMap Record.recipient? = order.flatMap graph.readers := by
  have recipient : Record.recipient? = fun entry => entry.notice?.map Prod.fst := by
    funext entry
    cases entry <;> rfl
  have given : told.filterMap Record.notice? = order.flatMap graph.notices := by
    have same := congrArg (List.filterMap id) notices
    simpa [List.filterMap_map, Function.comp_def] using same
  rw [recipient, ← List.map_filterMap, given, List.map_flatMap]
  simp only [map_notices]

/-- A flush of an intact graph discharges what waits. -/
theorem discharges_flush (intact : graph.Intact .everything) (announceRosters : Bool)
    (waits : ¬ graph.Settled) : ∃ told, Discharges announceRosters graph
      (graph.flush announceRosters) (graph.announced announceRosters).1 told := by
  obtain ⟨told, announcements, notices⟩ := announcements_flush intact announceRosters waits
  obtain ⟨slots, begins, records, journal, -, -, either⟩ := news_flush intact announceRosters waits
  exact ⟨told,
    { taken := ⟨rfl, (tells_flush intact announceRosters waits).speaks⟩
      left := ⟨slots, begins, records, journal, either⟩
      announcements := announcements
      notices := notices
      announces := fun node => by
        rw [mem_announced_iff intact, followed_iff_readers]
        exact And.comm
      once := ⟨(announced_order intact announceRosters).1,
        recipients_of_notices notices ▸ nodup_told intact announceRosters⟩
      sorted := fun acyclic _ first _ second => announced_after intact announceRosters acyclic first second }⟩

end Graph

open CharacterSheet.Graph

/-- Whenever something waits, between operations or in the midst of one, a flush calls the subscribers
of the rosters that changed and then gives a notice to each subscriber of each node that waits, and to
nobody else. It announces the nodes one after the other, and, as long as no node depends on itself,
each of them after all that it depends on. Nothing that waited at first waits in the end. -/
theorem flush_discharges (settings : Settings) (retention : Retention) (operations : List Operation)
    (announceRosters : Bool) (graph : Graph)
    (reached : graph = (Sheet.run { settings, retention } operations).graph ∨
      .flushed announceRosters graph ∈ Sheet.chronicle { settings, retention } operations)
    (waits : ¬ graph.Settled) :
    ∃ order told, Discharges announceRosters graph (graph.flush announceRosters) order told := by
  have intact : graph.Intact .everything := by
    rcases reached with rfl | flushed
    · exact Sheet.intact_everything settings retention operations
    · have unfolds : ({} : Graph).Unfolds (Sheet.chronicle { settings, retention } operations)
          (Sheet.run { settings, retention } operations).graph :=
        @Sheet.unfolds_chronicle { settings, retention } .initial operations
      exact (unfolds.proper _ flushed).fits
  exact ⟨_, discharges_flush intact announceRosters waits⟩

/-- The total of a stat is watched, and so are the total of another which it reads and the additions to
that; then the latter changes in a batch that stays open. -/
def waitingLife : List Operation :=
  [.add { id := ⟨1⟩, stats := [.named "Life"], form := .baseAdd
          value := .perStep (.named "Might") 10 5 },
    .subscribe (.named "Life") .total .main [], .subscribe (.named "Might") .total .main [],
    .subscribeRoster (.named "Might") .baseAdd .main, .beginBatch,
    .add (.baseAdd ⟨2⟩ (.named "Might") 30)]

/-- One call waits, and the producer is announced before its consumer. -/
theorem waitingLife_discharged :
    let graph := (Sheet.run {} waitingLife).graph
    ¬ graph.Settled ∧ graph.waitingCalls.length = 1 ∧ graph.Acyclic ∧ graph.Reaches ⟨15⟩ ⟨7⟩ ∧
      ∃ order told, Discharges true graph (graph.flush true) order told ∧
        ∃ earlier later, order = earlier ++ ⟨7⟩ :: later ∧ ⟨15⟩ ∈ earlier := by
  have facts : (⟨15⟩ ∈ (Sheet.run {} waitingLife).graph.pending.nodes ∧
      ⟨7⟩ ∈ (Sheet.run {} waitingLife).graph.pending.nodes) ∧
      (Sheet.run {} waitingLife).graph.waitingCalls.length = 1 ∧
      (Sheet.run {} waitingLife).graph.sortsAsListed = true ∧
      ⟨7⟩ ∈ (Sheet.run {} waitingLife).graph.dependents [⟨15⟩] ∧
      (Sheet.run {} waitingLife).graph.readers ⟨15⟩ ≠ [] ∧
      (Sheet.run {} waitingLife).graph.readers ⟨7⟩ ≠ [] := by
    decide +kernel
  obtain ⟨⟨first, second⟩, calls, sorts, depends, watched, also⟩ := facts
  have waits : ¬ (Sheet.run {} waitingLife).graph.Settled := fun settled => by
    rw [settled.2] at first
    exact List.not_mem_nil first
  have acyclic := acyclic_of_sortsAsListed sorts
  have reaches := reaches_of_mem_dependents depends
  obtain ⟨order, told, discharges⟩ := flush_discharges {} {} waitingLife true _ (.inl rfl) waits
  exact ⟨waits, calls, acyclic, reaches, order, told, discharges, discharges.sorted acyclic _
    ((discharges.announces _).mpr ⟨first, watched⟩) _ ((discharges.announces _).mpr ⟨second, also⟩)
    (by decide) reaches⟩

end CharacterSheet
