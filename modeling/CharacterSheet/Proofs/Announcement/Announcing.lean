import CharacterSheet.Proofs.Announcement.Journals
import CharacterSheet.Proofs.Subscription.Subscribing

/-!
Contract: who hears of what when changes are announced.

Owns:
- the order of announcements, in which no node stands twice;
- who was told of changed values, in order, and how often a subscription was;
- tellings, in the course of which subscribers hear of changes and read what they like;
- the flush, which leaves a graph intact and tells each subscription at most once.
-/

namespace CharacterSheet

/-! ### The order of announcements -/

/-- The nodes that a walk has yet to leave. -/
def Visit.left? : Visit → Option NodeId
  | .enter _ => none
  | .leave node => some node

theorem left?_enter (nodes : List NodeId) :
    (nodes.map Visit.enter).filterMap Visit.left? = [] := by
  induction nodes with
  | nil => rfl
  | cons node rest inductionHypothesis => exact inductionHypothesis

/-- A walk leaves every node once: those that it has left or has yet to leave differ from each
other, and have all been seen. -/
theorem nodup_finish {next : NodeId → List NodeId} (fuel : Nat) {seen : NodeSet}
    {finished : List NodeId} {stack : List Visit}
    (distinct : (stack.filterMap Visit.left? ++ finished).Nodup)
    (met : ∀ node ∈ stack.filterMap Visit.left? ++ finished, seen.contains node = true) :
    (finish next fuel seen finished stack).Nodup := by
  induction fuel generalizing seen finished stack with
  | zero => exact (List.nodup_append.mp distinct).2.1
  | succ fuel inductionHypothesis =>
      match stack with
      | [] => exact distinct
      | .leave node :: rest =>
          have moved : (rest.filterMap Visit.left? ++ node :: finished).Perm
              ((Visit.leave node :: rest).filterMap Visit.left? ++ finished) := by
            simp [Visit.left?, List.perm_middle]
          exact inductionHypothesis (moved.nodup_iff.mpr distinct)
            fun other member => met other (moved.subset member)
      | .enter node :: rest =>
          unfold finish
          split
          · exact inductionHypothesis distinct met
          · next unseen =>
            have onward : ((next node).map Visit.enter ++ Visit.leave node :: rest).filterMap
                Visit.left? = node :: rest.filterMap Visit.left? := by
              rw [List.filterMap_append, left?_enter]
              rfl
            apply inductionHypothesis
            · rw [onward, List.cons_append, List.nodup_cons]
              exact ⟨fun member => unseen (met node member), distinct⟩
            · rw [onward]
              intro other member
              rw [NodeSet.contains_insert, Bool.or_eq_true, decide_eq_true_eq]
              rcases List.mem_cons.mp member with rfl | earlier
              · exact Or.inr rfl
              · exact Or.inl (met other earlier)

/-- Whether a record says that a subscription was told of a changed value. -/
def Record.tells (id : SubscriptionId) : Record → Bool
  | valueChanged other _ _ => decide (other = id)
  | _ => false

/-- The subscription that was told of a changed value. -/
def Record.recipient? : Record → Option SubscriptionId
  | valueChanged id _ _ => some id
  | _ => none

/-- Whether a record says that anybody was told of a changed value. -/
def Record.isReport : Record → Bool
  | valueChanged _ _ _ => true
  | _ => false

namespace Graph

variable {vocabulary : Vocabulary} {graph middle other : Graph}

/-- The graph in which some nodes are ordered is the same up to its journal. -/
theorem announcementOrder_graph (graph : Graph) (nodes : List NodeId) :
    (graph.announcementOrder nodes).2 = graph ∨
      (graph.announcementOrder nodes).2 = graph.record .circularOrder := by
  unfold announcementOrder
  split
  · exact Or.inl rfl
  · split
    · exact Or.inl rfl
    · exact Or.inr rfl

theorem mem_announcementOrder {nodes : List NodeId} {node : NodeId}
    (member : node ∈ (graph.announcementOrder nodes).1) : node ∈ nodes := by
  unfold announcementOrder at member
  split at member
  · exact member
  · split at member
    · simpa using (List.mem_filter.mp member).2
    · exact member

/-- The nodes that a walk from some nodes along their consumers leaves, the last of them first. -/
def walked (graph : Graph) (starts : List NodeId) : List NodeId :=
  finish graph.consumption.next (2 * graph.nodes.size + graph.edges.length) {} []
    (starts.map .enter)

theorem nodup_walked (graph : Graph) (starts : List NodeId) : (graph.walked starts).Nodup := by
  have nothing := left?_enter starts
  exact nodup_finish _ (by simp [nothing]) (by simp [nothing])

/-- The nodes are ordered by a walk that starts from all of them. -/
theorem dependencyOrder?_eq_some_iff {order : List NodeId} :
    graph.dependencyOrder? = some order ↔
      graph.walked graph.nodesByPlace = order ∧
        producersFirst graph.production.next {} order = true := by
  rw [dependencyOrder?, ← walked]
  constructor
  · intro ordered
    split at ordered
    · next first =>
      cases ordered
      exact ⟨rfl, first⟩
    · contradiction
  · rintro ⟨rfl, first⟩
    exact if_pos first

/-- No node is announced twice in one go. -/
theorem nodup_announcementOrder {nodes : List NodeId} (distinct : nodes.Nodup) :
    (graph.announcementOrder nodes).1.Nodup := by
  unfold announcementOrder
  split
  · exact distinct
  · split
    · next order found =>
      rw [dependencyOrder?] at found
      split at found
      · cases found
        have nothing := left?_enter graph.nodesByPlace
        exact (nodup_finish _ (by simp [nothing]) (by simp [nothing])).filter _
      · contradiction
    · exact distinct

/-! ### Tellings -/

/-- How often a subscription has been told of a changed value. -/
def heard (id : SubscriptionId) (graph : Graph) : Nat := graph.journal.countP (·.tells id)

/-- The subscriptions to a node, in the order in which they came. -/
def readers (graph : Graph) (node : NodeId) : List SubscriptionId :=
  (graph.nodes.get? node).elim [] fun present => present.subscribers.map (·.id)

/-- Whoever hears of a node is subscribed to it. -/
theorem listed_of_reader (intact : graph.Intact vocabulary) {node : NodeId} {id : SubscriptionId}
    (member : id ∈ graph.readers node) : graph.subscriptions.get? id = some (.node node) := by
  unfold readers at member
  cases found : graph.nodes.get? node with
  | none => simp [found] at member
  | some present =>
      rw [found, Option.elim_some] at member
      obtain ⟨subscriber, inside, rfl⟩ := List.mem_map.mp member
      exact (intact.watched.enlisted node present found subscriber inside).1

theorem heard_record (id : SubscriptionId) (graph : Graph) (entry : Record) :
    (graph.record entry).heard id = graph.heard id + if entry.tells id then 1 else 0 := by
  simp [heard, record, List.countP_append]

/-- The subscriptions that were told of changed values, in order. -/
def tellings (graph : Graph) : List SubscriptionId := graph.journal.filterMap Record.recipient?

theorem tellings_record (graph : Graph) (entry : Record) :
    (graph.record entry).tellings = graph.tellings ++ entry.recipient?.toList := by
  rw [tellings, record, List.filterMap_append]
  rfl

theorem tellings_of_announcements (same : other.announcements = graph.announcements) :
    other.tellings = graph.tellings := by
  have outward (graph : Graph) :
      graph.tellings = graph.announcements.filterMap Record.recipient? := by
    rw [tellings, announcements, List.filterMap_filter]
    congr 1
    funext entry
    cases entry <;> rfl
  rw [outward, outward, same]

theorem heard_eq_count (id : SubscriptionId) (graph : Graph) :
    graph.heard id = graph.tellings.count id := by
  rw [heard, tellings, List.count_filterMap]
  congr 1
  funext entry
  cases entry <;> simp [Record.tells, Record.recipient?, beq_eq_decide]

theorem heard_of_announcements (same : other.announcements = graph.announcements)
    (id : SubscriptionId) : other.heard id = graph.heard id := by
  rw [heard_eq_count, heard_eq_count, tellings_of_announcements same]

/-- What happens in the course of one announcement: explorations, and entries into the journal. -/
inductive Speaks (vocabulary : Vocabulary) (graph : Graph) : Graph → Prop
  | refl : Speaks vocabulary graph graph
  | explore {middle after : Graph} : Speaks vocabulary graph middle → Explores vocabulary middle after →
      Speaks vocabulary graph after
  | record {middle : Graph} (entry : Record) : Speaks vocabulary graph middle →
      Speaks vocabulary graph (middle.record entry)

theorem Speaks.trans (first : Speaks vocabulary graph middle)
    (second : Speaks vocabulary middle other) : Speaks vocabulary graph other := by
  induction second with
  | refl => exact first
  | explore _ explores inductionHypothesis => exact .explore inductionHypothesis explores
  | record entry _ inductionHypothesis => exact .record entry inductionHypothesis

theorem Speaks.intact (speaks : Speaks vocabulary graph other) (intact : graph.Intact vocabulary) :
    other.Intact vocabulary := by
  induction speaks with
  | refl => exact intact
  | explore _ explores inductionHypothesis => exact inductionHypothesis.explore explores
  | record entry _ inductionHypothesis => exact inductionHypothesis.record entry

/-- In the course of one announcement some subscriptions are told, and all nodes stay. -/
structure Tells (vocabulary : Vocabulary) (graph other : Graph) (told : List SubscriptionId) :
    Prop extends graph.Extends other where
  speaks : Speaks vocabulary graph other
  intact : other.Intact vocabulary
  tellings : other.tellings = graph.tellings ++ told
  logs : graph.Logs other True
  slots : other.pending.slots = graph.pending.slots
  depth : other.pending.depth = graph.pending.depth

namespace Tells

variable {told more : List SubscriptionId}

theorem refl (intact : graph.Intact vocabulary) : Tells vocabulary graph graph [] :=
  ⟨.refl graph, .refl, intact, (List.append_nil _).symm, .refl graph trivial, rfl, rfl⟩

theorem trans (first : Tells vocabulary graph middle told)
    (second : Tells vocabulary middle other more) : Tells vocabulary graph other (told ++ more) where
  toExtends := first.toExtends.trans second.toExtends
  speaks := first.speaks.trans second.speaks
  intact := second.intact
  tellings := by rw [second.tellings, first.tellings, List.append_assoc]
  logs := (first.logs.trans second.logs).mono fun _ _ => trivial
  slots := second.slots.trans first.slots
  depth := second.depth.trans first.depth

theorem explore (intact : graph.Intact vocabulary) (explores : Explores vocabulary graph other) :
    Tells vocabulary graph other [] where
  toExtends := (explores.advances intact.toResting).grows.toExtends
  speaks := .explore .refl explores
  intact := intact.explore explores
  tellings := (tellings_of_announcements
    (explores.advances intact.toResting).grows.announcements).trans (List.append_nil _).symm
  logs := explores.logs intact.toResting
  slots := (explores.advances intact.toResting).grows.slots
  depth := (explores.advances intact.toResting).grows.depth

theorem record (intact : graph.Intact vocabulary) {entry : Record}
    (quiet : entry.isFlush = false) (recipient : entry.recipient?.toList = told) :
    Tells vocabulary graph (graph.record entry) told :=
  ⟨{ Extends.refl graph with }, .record entry .refl, intact.record entry,
    recipient ▸ tellings_record graph entry, logs_record graph quiet, rfl, rfl⟩

/-- Each of the subscriptions is told as often as it is listed. -/
theorem heard (tells : Tells vocabulary graph other told) (id : SubscriptionId) :
    other.heard id = graph.heard id + told.count id := by
  rw [heard_eq_count, heard_eq_count, tells.tellings, List.count_append]

theorem readers (tells : Tells vocabulary graph other told) {node : NodeId} {present : Node}
    (found : graph.nodes.get? node = some present) : other.readers node = graph.readers node := by
  obtain ⟨cache, later⟩ := tells.nodes node present found
  rw [Graph.readers, Graph.readers, found, later]
  rfl

end Tells

/-- Telling one subscriber of a node. -/
theorem tells_tell (intact : graph.Intact vocabulary) (name : NodeName) {subscriber : Subscriber}
    (within : ∀ reading ∈ subscriber.reads, reading.Within vocabulary) :
    Tells vocabulary graph (tell name graph subscriber) [subscriber.id] := by
  have reads := Tells.explore intact (explores_readAll intact.toResting within)
  exact reads.trans (.record reads.intact rfl rfl)

theorem tells_foldl (intact : graph.Intact vocabulary) (name : NodeName)
    {subscribers : List Subscriber}
    (within : ∀ subscriber ∈ subscribers, ∀ reading ∈ subscriber.reads,
      reading.Within vocabulary) :
    Tells vocabulary graph (subscribers.foldl (tell name) graph) (subscribers.map (·.id)) := by
  induction subscribers generalizing graph with
  | nil => exact .refl intact
  | cons subscriber rest inductionHypothesis =>
      have first := tells_tell intact name (within subscriber List.mem_cons_self)
      exact first.trans (inductionHypothesis first.intact fun other member =>
        within other (List.mem_cons_of_mem subscriber member))

/-- To announce a node is to settle it, which is an exploration, and then to tell all subscribers that it
has had before. -/
theorem announceNode_eq (intact : graph.Intact vocabulary) {node : NodeId} {present : Node}
    (found : graph.nodes.get? node = some present) :
    Explores vocabulary graph (graph.settle node) ∧
      graph.announceNode node =
        present.subscribers.foldl (tell present.address.name) (graph.settle node) ∧
      ∀ subscriber ∈ present.subscribers, ∀ reading ∈ subscriber.reads, reading.Within vocabulary := by
  have settles : Explores vocabulary graph (graph.settle node) :=
    explores_settle intact.toResting ⟨present.address, addressOf?_of_get? found⟩
  have settled := intact.explore settles
  obtain ⟨cache, later⟩ := (settles.advances intact.toResting).grows.nodes node present found
  refine ⟨settles, ?_, fun subscriber member => ?_⟩
  · rw [announceNode, later]
  · exact (settled.watched.enlisted node _ later subscriber member).2

/-- Announcing a node tells all its subscribers. -/
theorem tells_announceNode (intact : graph.Intact vocabulary) {node : NodeId} {present : Node}
    (found : graph.nodes.get? node = some present) :
    Tells vocabulary graph (graph.announceNode node) (graph.readers node) := by
  obtain ⟨settles, announces, within⟩ := announceNode_eq intact found
  have settled := Tells.explore intact settles
  rw [announces, readers, found]
  exact settled.trans (tells_foldl settled.intact present.address.name within)

/-- What is true if no nodes are to be announced, and true of some nodes if it is true of all but the first
after that was announced, is true of the announcement of any nodes, one after the other. -/
@[elab_as_elim]
theorem announceNodes_induct {motive : List NodeId → Graph → Prop}
    (nodes : List NodeId) (graph : Graph) (intact : graph.Intact vocabulary)
    (present : ∀ node ∈ nodes, ∃ present, graph.nodes.get? node = some present)
    (nil : ∀ graph, graph.Intact vocabulary → motive [] graph)
    (cons : ∀ node rest graph present, graph.Intact vocabulary →
      graph.nodes.get? node = some present →
      (∀ other ∈ rest, ∃ there, graph.nodes.get? other = some there) →
      motive rest (graph.announceNode node) → motive (node :: rest) graph) :
    motive nodes graph := by
  induction nodes generalizing graph with
  | nil => exact nil graph intact
  | cons node rest inductionHypothesis =>
      obtain ⟨here, found⟩ := present node List.mem_cons_self
      have tells := tells_announceNode intact found
      have stay : ∀ other ∈ rest, ∃ there, graph.nodes.get? other = some there :=
        fun other member => present other (List.mem_cons_of_mem node member)
      refine cons node rest graph here intact found stay (inductionHypothesis _ tells.intact ?_)
      intro other member
      obtain ⟨there, before⟩ := stay other member
      obtain ⟨cache, after⟩ := tells.nodes other there before
      exact ⟨_, after⟩

theorem tells_announceNodes (intact : graph.Intact vocabulary) {nodes : List NodeId}
    (present : ∀ node ∈ nodes, ∃ present, graph.nodes.get? node = some present) :
    Tells vocabulary graph (nodes.foldl announceNode graph) (nodes.flatMap graph.readers) := by
  refine announceNodes_induct nodes graph intact present ?_ ?_
  · exact fun graph intact => .refl intact
  · intro node rest graph here intact found stay later
    have first := tells_announceNode intact found
    have same : rest.flatMap (graph.announceNode node).readers = rest.flatMap graph.readers := by
      apply List.flatMap_congr
      intro other member
      obtain ⟨there, before⟩ := stay other member
      exact first.readers before
    rw [same] at later
    exact first.trans later

/-! ### The flush -/

/-- Telling the subscribers of a roster one after the other. -/
theorem tells_members (intact : graph.Intact vocabulary) (change : SlotId × Delta ModifierId)
    (subscribers : List SubscriptionId) :
    Tells vocabulary graph
      (subscribers.foldl (fun told id => told.record
        (.rosterChanged id change.1.stat change.1.form change.1.path change.2)) graph) [] ∧
      (subscribers.foldl (fun told id => told.record
        (.rosterChanged id change.1.stat change.1.form change.1.path change.2)) graph).nodes =
          graph.nodes := by
  induction subscribers generalizing graph with
  | nil => exact ⟨.refl intact, rfl⟩
  | cons id rest inductionHypothesis =>
      have first : Tells vocabulary graph (graph.record
          (.rosterChanged id change.1.stat change.1.form change.1.path change.2)) [] :=
        .record intact rfl rfl
      obtain ⟨later, same⟩ := inductionHypothesis first.intact
      exact ⟨first.trans later, same⟩

theorem tells_announceRosters (intact : graph.Intact vocabulary)
    (changes : List (SlotId × Delta ModifierId)) :
    Tells vocabulary graph (changes.foldl announceRoster graph) [] ∧
      (changes.foldl announceRoster graph).nodes = graph.nodes := by
  induction changes generalizing graph with
  | nil => exact ⟨.refl intact, rfl⟩
  | cons change rest inductionHypothesis =>
      have first : Tells vocabulary graph (graph.announceRoster change) [] ∧
          (graph.announceRoster change).nodes = graph.nodes := by
        unfold announceRoster
        split
        · exact ⟨.refl intact, rfl⟩
        · exact tells_members intact change _
      obtain ⟨later, same⟩ := inductionHypothesis first.1.intact
      exact ⟨first.1.trans later, same.trans first.2⟩

theorem intact_cleared (intact : graph.Intact vocabulary) :
    (graph.modifyPending Pending.cleared).Intact vocabulary :=
  intact.aside rfl rfl rfl rfl rfl rfl rfl List.nodup_nil

/-- The graph in which the announcement of all waiting changes begins. -/
def begun (graph : Graph) : Graph :=
  (graph.modifyPending Pending.cleared).record
    (.flushing graph.pending.nodes.length graph.pending.changedSlots.length)

/-- The graph after the changes of rosters were announced, if they are wanted. -/
def informed (announceRosters : Bool) (graph : Graph) : Graph :=
  if announceRosters then graph.pending.changedSlots.foldl announceRoster graph.begun
  else graph.begun

/-- The order in which a flush announces changed nodes. -/
def announced (announceRosters : Bool) (graph : Graph) : List NodeId × Graph :=
  (graph.informed announceRosters).announcementOrder (graph.pending.nodes.filter fun node =>
    0 < (graph.informed announceRosters).subscriberCount node)

/-- Whether nothing waits to be announced. -/
def Settled (graph : Graph) : Prop := graph.pending.changedSlots = [] ∧ graph.pending.nodes = []

theorem flush_settled (settled : graph.Settled) (announceRosters : Bool) :
    graph.flush announceRosters = graph.modifyPending Pending.cleared := by
  rw [flush, settled.1, settled.2]
  rfl

theorem flush_unsettled (unsettled : ¬ graph.Settled) (announceRosters : Bool) :
    graph.flush announceRosters =
      (graph.announced announceRosters).1.foldl announceNode (graph.announced announceRosters).2 := by
  have waiting : (graph.pending.changedSlots.isEmpty && graph.pending.nodes.isEmpty) = false := by
    rw [Bool.eq_false_iff, ne_eq, Bool.and_eq_true, List.isEmpty_iff, List.isEmpty_iff]
    exact unsettled
  simp only [flush, waiting]
  rfl

section Flush

variable (intact : graph.Intact vocabulary) (announceRosters : Bool)
include intact

theorem tells_informed : Tells vocabulary graph.begun (graph.informed announceRosters) [] ∧
    (graph.informed announceRosters).nodes = graph.nodes := by
  have noted : graph.begun.Intact vocabulary := (intact_cleared intact).record _
  unfold informed
  split
  · exact tells_announceRosters noted _
  · exact ⟨.refl noted, rfl⟩

/-- Only nodes that wait and have subscribers are announced, each of them once. -/
theorem announced_order : (graph.announced announceRosters).1.Nodup ∧
    ∀ node ∈ (graph.announced announceRosters).1, node ∈ graph.pending.nodes ∧
      ∃ present, graph.nodes.get? node = some present := by
  refine ⟨nodup_announcementOrder (intact.watched.once.filter _), fun node member => ?_⟩
  obtain ⟨pending, counted⟩ := List.mem_filter.mp (mem_announcementOrder member)
  refine ⟨pending, ?_⟩
  rw [decide_eq_true_eq, subscriberCount, (tells_informed intact announceRosters).2] at counted
  cases found : graph.nodes.get? node with
  | none => simp [found] at counted
  | some present => exact ⟨present, rfl⟩

/-- Unless nothing waits, a flush tells the subscribers of the nodes that it announces. -/
theorem tells_flush (unsettled : ¬ graph.Settled) :
    Tells vocabulary graph.begun (graph.flush announceRosters)
      ((graph.announced announceRosters).1.flatMap graph.readers) := by
  obtain ⟨listened, nodes⟩ := tells_informed intact announceRosters
  have prepared : Tells vocabulary (graph.informed announceRosters)
      (graph.announced announceRosters).2 [] ∧
        (graph.announced announceRosters).2.nodes = graph.nodes := by
    rcases announcementOrder_graph (graph.informed announceRosters) (graph.pending.nodes.filter
      fun node => 0 < (graph.informed announceRosters).subscriberCount node) with same | same
    · rw [announced, same]
      exact ⟨.refl listened.intact, nodes⟩
    · rw [announced, same]
      exact ⟨.record listened.intact rfl rfl, nodes⟩
  have present : ∀ node ∈ (graph.announced announceRosters).1,
      ∃ present, (graph.announced announceRosters).2.nodes.get? node = some present := by
    intro node inside
    rw [prepared.2]
    exact ((announced_order intact announceRosters).2 node inside).2
  have spoken := tells_announceNodes prepared.1.intact present
  have readers : (graph.announced announceRosters).2.readers = graph.readers := by
    funext node
    rw [Graph.readers, Graph.readers, prepared.2]
  rw [readers] at spoken
  rw [flush_unsettled unsettled]
  exact (listened.trans prepared.1).trans spoken

theorem intact_flush : (graph.flush announceRosters).Intact vocabulary := by
  by_cases settled : graph.Settled
  · rw [flush_settled settled]
    exact intact_cleared intact
  · exact (tells_flush intact announceRosters settled).intact

theorem extends_flush : graph.Extends (graph.flush announceRosters) := by
  by_cases settled : graph.Settled
  · rw [flush_settled settled]
    exact { Extends.refl graph with }
  · have begins : graph.Extends graph.begun := { Extends.refl graph with }
    exact begins.trans (tells_flush intact announceRosters settled).toExtends

/-- Different nodes have different subscribers, so nobody is told twice. -/
theorem nodup_told :
    ((graph.announced announceRosters).1.flatMap graph.readers).Nodup := by
  rw [List.nodup_flatMap]
  refine ⟨fun node _ => ?_, (announced_order intact announceRosters).1.imp ?_⟩
  · unfold readers
    cases found : graph.nodes.get? node with
    | none => exact List.nodup_nil
    | some present => exact intact.watched.distinct node present found
  · intro first second apart id member again
    have listed := listed_of_reader intact member
    rw [listed_of_reader intact again] at listed
    cases listed
    exact apart rfl

/-- A flush tells each subscription at most once, and nobody if nothing waits. -/
theorem heard_flush (id : SubscriptionId) :
    (graph.flush announceRosters).heard id ≤ graph.heard id + 1 ∧
      (graph.Settled → (graph.flush announceRosters).heard id = graph.heard id) := by
  by_cases settled : graph.Settled
  · rw [flush_settled settled]
    exact ⟨Nat.le_succ _, fun _ => rfl⟩
  · refine ⟨?_, fun contrary => absurd contrary settled⟩
    rw [(tells_flush intact announceRosters settled).heard]
    have begins : graph.begun.heard id = graph.heard id := heard_record id _ _
    have once := List.nodup_iff_count_le_one.mp (nodup_told intact announceRosters) id
    omega

end Flush
end Graph
end CharacterSheet
