import CharacterSheet.Proofs.Announcement.Attending
import CharacterSheet.Proofs.Total.Contents

/-!
Contract: what subscribers are told of changed values.

Owns:
- the news of a graph: all that subscribers were told of changed values, with the replies they read;
- the reports on a node, in which all reads of its subscribers are made on one and the same graph;
- within a catalogue an announcement tells the reports on the nodes that it announces, no matter
  which subscriber read first.
-/

namespace CharacterSheet
namespace Graph

variable {catalogue : StatId → Stat} {graph middle other : Graph}

/-- What subscribers were told of changed values so far. -/
def news (graph : Graph) : List Record := graph.journal.filter Record.isReport

/-- The replies of reads that are made of one graph. -/
def replies (graph : Graph) (readings : List Reading) : List Reply :=
  readings.map fun reading => (graph.readFor reading).1

/-- What the subscribers of a node are told of it if they read one graph. -/
def reports (graph : Graph) (node : NodeId) : List Record :=
  (graph.nodes.get? node).elim [] fun present => present.subscribers.map fun subscriber =>
    .valueChanged subscriber.id present.address.name (graph.replies subscriber.reads)

theorem news_of_announcements (same : other.announcements = graph.announcements) :
    other.news = graph.news := by
  have outward (graph : Graph) : graph.news = graph.announcements.filter Record.isReport := by
    rw [news, announcements, List.filter_filter]
    refine List.filter_congr fun entry _ => ?_
    cases entry <;> rfl
  rw [outward, outward, same]

theorem news_record (graph : Graph) {entry : Record} (report : entry.isReport = true) :
    (graph.record entry).news = graph.news ++ [entry] := by
  rw [news, record, List.filter_append, List.filter_cons_of_pos report]
  rfl

/-- A report is to one of the subscribers of the node. -/
theorem mem_reports {node : NodeId} {id : SubscriptionId} {name : NodeName} {replies : List Reply}
    (member : .valueChanged id name replies ∈ graph.reports node) :
    ∃ present subscriber, graph.nodes.get? node = some present ∧
      subscriber ∈ present.subscribers ∧ subscriber.id = id ∧ present.address.name = name ∧
        replies = graph.replies subscriber.reads := by
  rw [reports] at member
  cases found : graph.nodes.get? node with
  | none =>
      rw [found] at member
      exact absurd member List.not_mem_nil
  | some present =>
      rw [found, Option.elim_some] at member
      obtain ⟨subscriber, inside, same⟩ := List.mem_map.mp member
      cases same
      exact ⟨present, subscriber, rfl, inside, rfl, rfl, rfl⟩

/-! ### Reads in the course of an announcement -/

section Reads

variable (intact : graph.Intact (.catalogued catalogue))
  (otherIntact : other.Intact (.catalogued catalogue)) (tallies : graph.Tallies other)
include intact otherIntact tallies

/-- Several reads in a row have the replies that each of them has by itself. -/
theorem Tallies.readAll {readings : List Reading}
    (within : ∀ reading ∈ readings, reading.Within (.catalogued catalogue)) :
    (other.readAll readings).1 = graph.replies readings := by
  induction readings generalizing other with
  | nil => rfl
  | cons reading rest inductionHypothesis =>
      have here := within reading List.mem_cons_self
      have reads := explores_readFor otherIntact.toResting here
      have larger := (reads.advances otherIntact.toResting).grows.toExtends
      have first : (other.readFor reading).1 = (graph.readFor reading).1 :=
        tallies.perform_read intact otherIntact reading.stage here.stat here.path
      have later := inductionHypothesis (otherIntact.explore reads)
        (tallies.trans (.of_extends larger)) fun next member =>
          within next (List.mem_cons_of_mem reading member)
      show (other.readFor reading).1 :: ((other.readFor reading).2.readAll rest).1 = _
      rw [first, later]
      rfl

theorem Tallies.tell (name : NodeName) {subscriber : Subscriber}
    (within : ∀ reading ∈ subscriber.reads, reading.Within (.catalogued catalogue)) :
    (tell name other subscriber).news =
      other.news ++ [.valueChanged subscriber.id name (graph.replies subscriber.reads)] := by
  have reads := explores_readAll otherIntact.toResting within
  have silent := news_of_announcements (reads.advances otherIntact.toResting).grows.announcements
  show ((other.readAll subscriber.reads).2.record
    (.valueChanged subscriber.id name (other.readAll subscriber.reads).1)).news = _
  rw [tallies.readAll intact otherIntact within, news_record _ rfl, silent]

theorem Tallies.tellAll (name : NodeName) {subscribers : List Subscriber}
    (within : ∀ subscriber ∈ subscribers, ∀ reading ∈ subscriber.reads,
      reading.Within (.catalogued catalogue)) :
    (subscribers.foldl (Graph.tell name) other).news = other.news ++ subscribers.map fun subscriber =>
      .valueChanged subscriber.id name (graph.replies subscriber.reads) := by
  induction subscribers generalizing other with
  | nil => exact (List.append_nil _).symm
  | cons subscriber rest inductionHypothesis =>
      have here := within subscriber List.mem_cons_self
      have told := tells_tell otherIntact name here
      rw [List.foldl_cons, inductionHypothesis told.intact (tallies.trans (.of_extends told.toExtends))
        fun next member => within next (List.mem_cons_of_mem subscriber member),
        tallies.tell intact otherIntact name here, List.append_assoc, List.map_cons]
      rfl

end Reads

/-! ### Announcements -/

section Announcements

variable (intact : graph.Intact (.catalogued catalogue))
include intact

/-- The announcement of a node tells the reports on it. -/
theorem news_announceNode (otherIntact : other.Intact (.catalogued catalogue))
    (larger : graph.Extends other) {node : NodeId} {present : Node}
    (found : graph.nodes.get? node = some present) :
    (other.announceNode node).news = other.news ++ graph.reports node := by
  obtain ⟨before, there⟩ := larger.nodes node present found
  obtain ⟨settles, announces, within⟩ := announceNode_eq otherIntact there
  have grows := (settles.advances otherIntact.toResting).grows
  have tallies : graph.Tallies (other.settle node) :=
    Tallies.trans (.of_extends larger) (.of_extends grows.toExtends)
  rw [announces, reports, found]
  exact (tallies.tellAll intact (otherIntact.explore settles) present.address.name within).trans
    (congrArg (· ++ _) (news_of_announcements grows.announcements))

theorem news_announceNodes (otherIntact : other.Intact (.catalogued catalogue))
    (larger : graph.Extends other) {nodes : List NodeId}
    (present : ∀ node ∈ nodes, ∃ present, graph.nodes.get? node = some present) :
    (nodes.foldl announceNode other).news = other.news ++ nodes.flatMap graph.reports := by
  induction nodes generalizing other with
  | nil => exact (List.append_nil _).symm
  | cons node rest inductionHypothesis =>
      obtain ⟨here, found⟩ := present node List.mem_cons_self
      obtain ⟨_, there⟩ := larger.nodes node here found
      have tells := tells_announceNode otherIntact there
      rw [List.foldl_cons, inductionHypothesis tells.intact (larger.trans tells.toExtends)
        fun next member => present next (List.mem_cons_of_mem node member),
        news_announceNode intact otherIntact larger found, List.append_assoc, List.flatMap_cons]

/-- An announcement tells the reports on the nodes that it announces, one after the other. -/
theorem news_of_flush (announceRosters : Bool) :
    (graph.flush announceRosters).news =
      graph.news ++ (graph.announced announceRosters).1.flatMap graph.reports := by
  by_cases settled : graph.Settled
  · rw [flush_settled settled, announced_settled intact announceRosters settled]
    exact (List.append_nil _).symm
  · obtain ⟨added, begun, silent⟩ := announced_journal announceRosters graph
    have ready : (graph.announced announceRosters).2.Intact (.catalogued catalogue) := by
      rw [begun]
      exact intact.aside rfl rfl rfl rfl rfl rfl rfl List.nodup_nil
    have larger : graph.Extends (graph.announced announceRosters).2 := by
      rw [begun]
      exact { Extends.refl graph with }
    have same : (graph.announced announceRosters).2.news = graph.news := by
      have none : added.filter Record.isReport = [] :=
        List.filter_eq_nil_iff.mpr fun entry member => by simp [silent entry member]
      rw [begun, news, List.filter_append, none, List.append_nil]
      rfl
    rw [flush_unsettled settled, news_announceNodes intact ready larger fun node member =>
      ((announced_order intact announceRosters).2 node member).2, same]

end Announcements
end Graph
end CharacterSheet
