import CharacterSheet.Proofs.Announcement.Attending

/-!
Contract: what is said in the course of an announcement.

Owns:
- the calls that tell the subscribers of rosters what waits for these, and the notices that tell the
  subscribers of nodes;
- all calls of a flush come before its notices, which are those of the nodes in their order.

What a flush delivers is fixed when it begins, although its subscribers read nodes: reads change
neither who subscribes to a node nor what the node is called.
-/

namespace CharacterSheet

/-- Whom a record tells that a value changed, and of which node. -/
def Record.notice? : Record → Option (SubscriptionId × NodeName)
  | valueChanged id name _ => some (id, name)
  | _ => none

namespace Graph

variable {vocabulary : Vocabulary} {graph middle other : Graph}

/-- The calls to the subscribers of a roster that changed, in the order in which they came. -/
def callsOf (graph : Graph) (change : SlotId × Delta ModifierId) : List Record :=
  (graph.rosterAudience change.1).map fun id =>
    .rosterChanged id change.1.stat change.1.form change.1.path change.2

/-- The calls that wait: one for each subscriber of each roster whose changes did not cancel out. -/
def waitingCalls (graph : Graph) : List Record := graph.pending.changedSlots.flatMap graph.callsOf

/-- Whom the announcement of a node tells of it, in the order in which they subscribed. -/
def notices (graph : Graph) (node : NodeId) : List (SubscriptionId × NodeName) :=
  (graph.nodes.get? node).elim [] fun present =>
    present.subscribers.map fun subscriber => (subscriber.id, present.address.name)

theorem map_notices (graph : Graph) (node : NodeId) :
    (graph.notices node).map Prod.fst = graph.readers node := by
  unfold notices readers
  cases graph.nodes.get? node with
  | none => rfl
  | some present => simp [Function.comp_def]

theorem Extends.notices (larger : graph.Extends other) {node : NodeId} {present : Node}
    (found : graph.nodes.get? node = some present) : other.notices node = graph.notices node := by
  obtain ⟨cache, later⟩ := larger.nodes node present found
  rw [Graph.notices, Graph.notices, found, later]
  rfl

theorem announcements_record_outward (graph : Graph) {entry : Record}
    (outward : entry.isAnnouncement = true) :
    (graph.record entry).announcements = graph.announcements ++ [entry] := by
  rw [announcements, record, List.filter_append, List.filter_cons_of_pos outward]
  rfl

/-! ### Calls -/

theorem announcements_announceRoster (graph : Graph) (change : SlotId × Delta ModifierId) :
    (graph.announceRoster change).announcements = graph.announcements ++ graph.callsOf change := by
  have members (subscribers : List SubscriptionId) (graph : Graph) :
      (subscribers.foldl (fun told id => told.record
        (.rosterChanged id change.1.stat change.1.form change.1.path change.2)) graph).announcements =
          graph.announcements ++ subscribers.map fun id =>
            .rosterChanged id change.1.stat change.1.form change.1.path change.2 := by
    induction subscribers generalizing graph with
    | nil => exact (List.append_nil _).symm
    | cons id rest inductionHypothesis =>
        rw [List.foldl_cons, inductionHypothesis, announcements_record_outward _ rfl,
          List.append_assoc]
        rfl
  unfold announceRoster callsOf rosterAudience
  cases graph.roster? change.1 with
  | none => exact (List.append_nil _).symm
  | some roster => exact members roster.subscribers graph

theorem announcements_announceRosters (graph : Graph) (changes : List (SlotId × Delta ModifierId)) :
    (changes.foldl announceRoster graph).announcements =
      graph.announcements ++ changes.flatMap graph.callsOf := by
  induction changes generalizing graph with
  | nil => exact (List.append_nil _).symm
  | cons change rest inductionHypothesis =>
      have same : (graph.announceRoster change).callsOf = graph.callsOf := by
        obtain ⟨added, told, -⟩ := announceRosters_journal [change] graph
        rw [show graph.announceRoster change = _ from told]
        rfl
      rw [List.foldl_cons, inductionHypothesis, announcements_announceRoster, same,
        List.append_assoc, List.flatMap_cons]

/-- What is said before the first node is announced: that a flush begins, and the waiting calls if they
are wanted. -/
def openings (announceRosters : Bool) (graph : Graph) : List Record :=
  .flushing graph.pending.nodes.length graph.pending.changedSlots.length ::
    if announceRosters then graph.waitingCalls else []

theorem announcements_announced (announceRosters : Bool) (graph : Graph) :
    (graph.announced announceRosters).2.announcements =
      graph.announcements ++ graph.openings announceRosters := by
  have begins : graph.begun.announcements = graph.announcements ++
      [.flushing graph.pending.nodes.length graph.pending.changedSlots.length] :=
    announcements_record_outward _ rfl
  have informed : (graph.informed announceRosters).announcements =
      graph.announcements ++ graph.openings announceRosters := by
    unfold informed openings
    split
    · rw [announcements_announceRosters, begins, List.append_assoc]
      rfl
    · rw [begins]
  rcases announcementOrder_graph (graph.informed announceRosters) (graph.pending.nodes.filter
    fun node => 0 < (graph.informed announceRosters).subscriberCount node) with same | same
  · rw [announced, same, informed]
  · rw [announced, same, announcements_record rfl, informed]

/-! ### Notices -/

/-- What has been announced since is one record for each of some notices. -/
def Notifies (graph other : Graph) (told : List (SubscriptionId × NodeName)) : Prop :=
  ∃ records : List Record, other.announcements = graph.announcements ++ records ∧
    records.map Record.notice? = told.map some

theorem Notifies.silent (same : other.announcements = graph.announcements) :
    graph.Notifies other [] :=
  ⟨[], by rw [same, List.append_nil], rfl⟩

theorem Notifies.trans {told more : List (SubscriptionId × NodeName)}
    (first : graph.Notifies middle told) (second : middle.Notifies other more) :
    graph.Notifies other (told ++ more) := by
  obtain ⟨before, same, ones⟩ := first
  obtain ⟨after, later, others⟩ := second
  exact ⟨before ++ after, by rw [later, same, List.append_assoc],
    by rw [List.map_append, ones, others, List.map_append]⟩

section Notices

variable (intact : graph.Intact vocabulary)
include intact

theorem notifies_tell (name : NodeName) {subscriber : Subscriber}
    (within : ∀ reading ∈ subscriber.reads, reading.Within vocabulary) :
    graph.Notifies (tell name graph subscriber) [(subscriber.id, name)] := by
  have reads := explores_readAll intact.toResting within
  have silent : graph.Notifies (graph.readAll subscriber.reads).2 [] :=
    .silent (reads.advances intact.toResting).grows.announcements
  exact silent.trans ⟨[_], announcements_record_outward _ rfl, rfl⟩

theorem notifies_tellAll (name : NodeName) {subscribers : List Subscriber}
    (within : ∀ subscriber ∈ subscribers, ∀ reading ∈ subscriber.reads, reading.Within vocabulary) :
    graph.Notifies (subscribers.foldl (tell name) graph)
      (subscribers.map fun subscriber => (subscriber.id, name)) := by
  induction subscribers generalizing graph with
  | nil => exact .silent rfl
  | cons subscriber rest inductionHypothesis =>
      have here := within subscriber List.mem_cons_self
      have told := tells_tell intact name here
      exact (notifies_tell intact name here).trans (inductionHypothesis told.intact
        fun next member => within next (List.mem_cons_of_mem subscriber member))

theorem notifies_announceNode {node : NodeId} {present : Node}
    (found : graph.nodes.get? node = some present) :
    graph.Notifies (graph.announceNode node) (graph.notices node) := by
  obtain ⟨settles, announces, within⟩ := announceNode_eq intact found
  have silent := (settles.advances intact.toResting).grows.announcements
  rw [announces, notices, found]
  exact (Notifies.silent silent).trans
    (notifies_tellAll (intact.explore settles) present.address.name within)

theorem notifies_announceNodes {nodes : List NodeId}
    (present : ∀ node ∈ nodes, ∃ present, graph.nodes.get? node = some present) :
    graph.Notifies (nodes.foldl announceNode graph) (nodes.flatMap graph.notices) := by
  refine announceNodes_induct nodes graph intact present ?_ ?_
  · exact fun graph _ => .silent rfl
  · intro node rest graph here intact found stay later
    have same : rest.flatMap (graph.announceNode node).notices = rest.flatMap graph.notices := by
      refine List.flatMap_congr fun other member => ?_
      obtain ⟨there, before⟩ := stay other member
      exact (tells_announceNode intact found).toExtends.notices before
    rw [same] at later
    exact (notifies_announceNode intact found).trans later

/-- Unless nothing waits, a flush says that it begins, makes the waiting calls if they are wanted, and then
gives the notices of the nodes that it announces, one after the other. -/
theorem announcements_flush (announceRosters : Bool) (waits : ¬ graph.Settled) :
    ∃ told : List Record, (graph.flush announceRosters).announcements =
        graph.announcements ++ (graph.openings announceRosters ++ told) ∧
      told.map Record.notice? =
        ((graph.announced announceRosters).1.flatMap graph.notices).map some := by
  obtain ⟨added, begun, -⟩ := announced_journal announceRosters graph
  have ready : (graph.announced announceRosters).2.Intact vocabulary := by
    rw [begun]
    exact intact.aside rfl rfl rfl rfl rfl rfl rfl List.nodup_nil
  have same : (graph.announced announceRosters).2.notices = graph.notices := by
    rw [begun]
    rfl
  obtain ⟨told, announcements, notices⟩ := notifies_announceNodes ready fun node member => by
    rw [begun]
    exact ((announced_order intact announceRosters).2 node member).2
  rw [← flush_unsettled waits, announcements_announced, List.append_assoc] at announcements
  rw [same] at notices
  exact ⟨told, announcements, notices⟩

end Notices

end Graph
end CharacterSheet
