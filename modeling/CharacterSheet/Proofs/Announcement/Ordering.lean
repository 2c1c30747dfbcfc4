import CharacterSheet.Proofs.History.Annals

/-!
Contract: changes are announced to the subscribers of a producer before those of its consumers.

Owns:
- lists in which everything that follows a node stands behind it, and the depth-first walk, which
  lists its nodes in this way unless there is a circle;
- the order of the nodes of a graph: it exists if and only if no node depends on itself, and all that
  a node depends on stands before it;
- the order in which subscriptions are told.
The order is made from the edges that are there when an announcement begins. Nodes are calculated
while they are announced, and a read that is only then made for the first time comes too late for it.
-/

namespace CharacterSheet

/-! ### Walks without circles -/

/-- A node follows another along `next`, in at least one step. -/
def ComesAfter (next : NodeId → List NodeId) : NodeId → NodeId → Prop :=
  Relation.TransGen fun first second => second ∈ next first

/-- The node of a visit. -/
def Visit.node : Visit → NodeId
  | enter node | leave node => node

/-- The node of a visit follows any node that a walk is to leave later. -/
def Visit.Under (next : NodeId → List NodeId) (visit : Visit) : Visit → Prop
  | enter _ => True
  | leave node => ComesAfter next node visit.node

/-- Everything that follows a node of a list stands behind it. -/
def FollowersLast (next : NodeId → List NodeId) : List NodeId → Prop
  | [] => True
  | node :: rest => (∀ after ∈ next node, after ∈ rest) ∧ FollowersLast next rest

/-- Whatever comes after a node that a walk has yet to leave is finished, or is visited before the
walk leaves the node. -/
def Due (next : NodeId → List NodeId) (finished : List NodeId) : List NodeId → List Visit → Prop
  | _, [] => True
  | before, .enter node :: rest => Due next finished (node :: before) rest
  | before, .leave node :: rest =>
      (∀ after ∈ next node, after ∈ finished ∨ after ∈ before) ∧
        Due next finished (node :: before) rest

/-- A walk in the middle of its course, with the nodes seen, those that it has left and the visits that
are to come. -/
structure Walking (next : NodeId → List NodeId) (seen : NodeSet) (finished : List NodeId)
    (stack : List Visit) : Prop where
  met : ∀ node, seen.contains node = true → node ∈ finished ∨ .leave node ∈ stack
  under : stack.Pairwise (Visit.Under next)
  due : Due next finished [] stack
  ordered : FollowersLast next finished

section Walk

variable {next : NodeId → List NodeId} {seen : NodeSet} {finished before : List NodeId}
  {stack : List Visit} {node other : NodeId}

/-- What follows a node of such a list is on the list. -/
theorem FollowersLast.mem {nodes : List NodeId} (ordered : FollowersLast next nodes)
    (member : node ∈ nodes) (follows : other ∈ next node) : other ∈ nodes := by
  induction nodes with
  | nil => contradiction
  | cons head rest inductionHypothesis =>
      rcases List.mem_cons.mp member with rfl | later
      · exact List.mem_cons_of_mem node (ordered.1 other follows)
      · exact List.mem_cons_of_mem head (inductionHypothesis ordered.2 later)

theorem Due.mono {more earlier : List NodeId}
    (larger : ∀ node, node ∈ finished ∨ node ∈ before → node ∈ more ∨ node ∈ earlier)
    (due : Due next finished before stack) : Due next more earlier stack := by
  induction stack generalizing before earlier with
  | nil => trivial
  | cons visit rest inductionHypothesis =>
      have onward (own : NodeId) : ∀ node, node ∈ finished ∨ node ∈ own :: before →
          node ∈ more ∨ node ∈ own :: earlier := by
        intro node listed
        have step := larger node
        simp only [List.mem_cons] at listed ⊢
        tauto
      cases visit with
      | enter own => exact inductionHypothesis (onward own) due
      | leave own =>
          exact ⟨fun after follows => larger after (due.1 after follows),
            inductionHypothesis (onward own) due.2⟩

/-- If there is no circle, a node that is left later need not be visited before. -/
theorem Due.drop (acyclic : ∀ node, ¬ ComesAfter next node node)
    (under : stack.Pairwise (Visit.Under next)) (left : .leave node ∈ stack)
    (due : Due next finished (node :: before) stack) : Due next finished before stack := by
  induction stack generalizing before with
  | nil => contradiction
  | cons visit rest inductionHypothesis =>
      obtain ⟨top, below⟩ := List.pairwise_cons.mp under
      have onward (own : NodeId) (later : .leave node ∈ rest)
          (due : Due next finished (own :: node :: before) rest) :
          Due next finished (own :: before) rest :=
        inductionHypothesis below later <| due.mono fun other listed => by
          simp only [List.mem_cons] at listed ⊢
          tauto
      rcases List.mem_cons.mp left with rfl | later
      · refine ⟨fun after follows => (due.1 after follows).imp_right fun listed => ?_, ?_⟩
        · refine (List.mem_cons.mp listed).resolve_left fun same => ?_
          subst same
          exact acyclic after (.single follows)
        · exact due.2.mono fun other listed => by
            simp only [List.mem_cons] at listed ⊢
            tauto
      · cases visit with
        | enter own => exact onward own later due
        | leave own =>
            refine ⟨fun after follows => (due.1 after follows).imp_right fun listed => ?_,
              onward own later due.2⟩
            refine (List.mem_cons.mp listed).resolve_left fun same => ?_
            subst same
            exact acyclic after ((top _ later).tail follows)

theorem Due.enter {nodes : List NodeId} (due : Due next finished (nodes ++ before) stack) :
    Due next finished before (nodes.map .enter ++ stack) := by
  induction nodes generalizing before with
  | nil => exact due
  | cons node rest inductionHypothesis =>
      exact inductionHypothesis <| due.mono fun other listed => by
        simp only [List.mem_append, List.mem_cons] at listed ⊢
        tauto

namespace Walking

/-- A walk leaves a node when everything that comes after it is finished. -/
theorem leave (walking : Walking next seen finished (.leave node :: stack)) :
    Walking next seen (node :: finished) stack where
  met := by
    intro other known
    have before := walking.met other known
    simp only [List.mem_cons, Visit.leave.injEq] at before ⊢
    tauto
  under := (List.pairwise_cons.mp walking.under).2
  due := walking.due.2.mono fun other listed => by
    simp only [List.mem_cons, List.not_mem_nil, or_false] at listed ⊢
    tauto
  ordered := ⟨fun after follows => (walking.due.1 after follows).resolve_right List.not_mem_nil,
    walking.ordered⟩

/-- A walk passes over a node that it has seen. -/
theorem pass (acyclic : ∀ node, ¬ ComesAfter next node node)
    (walking : Walking next seen finished (.enter node :: stack)) (known : seen.contains node = true) :
    Walking next seen finished stack where
  met := fun other also => by simpa using walking.met other also
  under := (List.pairwise_cons.mp walking.under).2
  due := by
    have before : node ∈ finished ∨ .leave node ∈ stack := by simpa using walking.met node known
    rcases before with done | left
    · exact walking.due.mono fun other listed => by
        simp only [List.mem_cons, List.not_mem_nil, or_false] at listed ⊢
        rcases listed with listed | rfl
        · exact listed
        · exact done
    · exact Due.drop acyclic (List.pairwise_cons.mp walking.under).2 left walking.due
  ordered := walking.ordered

/-- A walk goes down from a node to all that comes after it before it leaves the node. -/
theorem enter (walking : Walking next seen finished (.enter node :: stack)) :
    Walking next (seen.insert node) finished ((next node).map .enter ++ .leave node :: stack) where
  met := by
    intro other known
    rw [NodeSet.contains_insert, Bool.or_eq_true, decide_eq_true_eq] at known
    rcases known with before | rfl
    · have met := walking.met other before
      simp only [List.mem_cons, reduceCtorEq, false_or, List.mem_append] at met ⊢
      tauto
    · exact Or.inr (List.mem_append_right _ List.mem_cons_self)
  under := by
    obtain ⟨top, below⟩ := List.pairwise_cons.mp walking.under
    refine List.pairwise_append.mpr ⟨?_, List.pairwise_cons.mpr ⟨top, below⟩, ?_⟩
    · refine List.pairwise_of_forall_mem_list fun first _ second member => ?_
      obtain ⟨own, -, rfl⟩ := List.mem_map.mp member
      trivial
    · intro visit member lower listed
      obtain ⟨after, follows, rfl⟩ := List.mem_map.mp member
      rcases List.mem_cons.mp listed with rfl | deeper
      · exact .single follows
      · have above := top lower deeper
        cases lower with
        | enter own => trivial
        | leave own => exact Relation.TransGen.tail above follows
  due := by
    refine Due.enter ⟨fun after follows => Or.inr (List.mem_append_left _ follows), ?_⟩
    exact walking.due.mono fun other listed => by
      simp only [List.mem_cons, List.not_mem_nil, or_false, List.append_nil] at listed ⊢
      tauto
  ordered := walking.ordered

end Walking

/-- If there is no circle, a walk lists every node before whatever follows it. -/
theorem followersLast_finish (acyclic : ∀ node, ¬ ComesAfter next node node) (fuel : Nat)
    (walking : Walking next seen finished stack) :
    FollowersLast next (finish next fuel seen finished stack) := by
  induction fuel generalizing seen finished stack with
  | zero => exact walking.ordered
  | succ fuel inductionHypothesis =>
      match stack with
      | [] => exact walking.ordered
      | .leave _ :: _ => exact inductionHypothesis walking.leave
      | .enter own :: _ =>
          unfold finish
          split
          · next known => exact inductionHypothesis (walking.pass acyclic known)
          · exact inductionHypothesis walking.enter

/-! ### Producers first -/

variable {producers : NodeId → List NodeId} {listed : NodeSet} {nodes earlier later : List NodeId}

theorem producersFirst_of_followersLast
    (related : ∀ producer node, producer ∈ producers node → node ∈ next producer)
    (distinct : nodes.Nodup) (ordered : FollowersLast next nodes)
    (complete : ∀ node ∈ nodes, ∀ producer ∈ producers node,
      listed.contains producer = true ∨ producer ∈ nodes) :
    producersFirst producers listed nodes = true := by
  induction nodes generalizing listed with
  | nil => rfl
  | cons node rest inductionHypothesis =>
      obtain ⟨new, distinct⟩ := List.nodup_cons.mp distinct
      rw [producersFirst, Bool.and_eq_true, List.all_eq_true]
      constructor
      · intro producer member
        refine (complete node List.mem_cons_self producer member).resolve_right fun behind => new ?_
        have follows := related producer node member
        rcases List.mem_cons.mp behind with rfl | deeper
        · exact ordered.1 producer follows
        · exact ordered.2.mem deeper follows
      · refine inductionHypothesis distinct ordered.2 fun other inside producer member => ?_
        rw [NodeSet.contains_insert, Bool.or_eq_true, decide_eq_true_eq]
        have due := complete other (List.mem_cons_of_mem node inside) producer member
        simp only [List.mem_cons] at due
        tauto

/-- In such a list all producers of a node stand before it, or were listed earlier. -/
theorem mem_of_producersFirst (first : producersFirst producers listed nodes = true)
    (split : nodes = earlier ++ node :: later) {producer : NodeId}
    (member : producer ∈ producers node) : listed.contains producer = true ∨ producer ∈ earlier := by
  induction earlier generalizing listed nodes with
  | nil =>
      subst split
      rw [List.nil_append, producersFirst, Bool.and_eq_true, List.all_eq_true] at first
      exact Or.inl (first.1 producer member)
  | cons head rest inductionHypothesis =>
      subst split
      rw [List.cons_append, producersFirst, Bool.and_eq_true] at first
      have found := inductionHypothesis first.2 rfl
      rw [NodeSet.contains_insert, Bool.or_eq_true, decide_eq_true_eq] at found
      rcases found with (before | rfl) | deeper
      · exact Or.inl before
      · exact Or.inr List.mem_cons_self
      · exact Or.inr (List.mem_cons_of_mem head deeper)

end Walk

namespace Graph

variable {vocabulary : Vocabulary} {graph middle other : Graph} {order earlier later : List NodeId}

/-- No node depends on itself along recorded reads. -/
def Acyclic (graph : Graph) : Prop := ∀ node, ¬ Relation.TransGen graph.Feeds node node

theorem reaches_of_mem_dependents {start node : NodeId} (member : node ∈ graph.dependents [start]) :
    graph.Reaches start node := by
  obtain ⟨own, listed, -, path⟩ := (graph.mem_dependents_iff [start] node).mp member
  exact List.mem_singleton.mp listed ▸ path

theorem mem_consumption_iff {producer node : NodeId} :
    node ∈ graph.consumption.next producer ↔ graph.Feeds producer node := by
  rw [next_consumption, mem_consumers_iff]

theorem mem_production_iff {producer node : NodeId} :
    producer ∈ graph.production.next node ↔ graph.Feeds producer node := by
  rw [next_production, mem_producers_iff]

section Order

variable (first : producersFirst graph.production.next {} order = true)
include first

/-- In an order with producers first, all that a node reads stands before it. -/
theorem mem_of_feeds {node producer : NodeId} (split : order = earlier ++ node :: later)
    (feeds : graph.Feeds producer node) : producer ∈ earlier := by
  exact (mem_of_producersFirst first split (mem_production_iff.mpr feeds)).resolve_left (by simp)

/-- In an order with producers first, all that a node depends on stands before it. -/
theorem mem_of_reaches {node producer : NodeId} (split : order = earlier ++ node :: later)
    (reaches : graph.Reaches producer node) (apart : producer ≠ node) : producer ∈ earlier := by
  induction reaches using Relation.ReflTransGen.head_induction_on with
  | refl => contradiction
  | head feeds rest inductionHypothesis =>
      next own target =>
      by_cases last : target = node
      · subst last
        exact mem_of_feeds first split feeds
      · obtain ⟨front, back, parts⟩ := List.append_of_mem (inductionHypothesis last)
        rw [parts, List.append_assoc, List.cons_append] at split
        rw [parts]
        exact List.mem_append_left _ (mem_of_feeds first split feeds)

/-- If all producers stand in such an order, no node depends on itself. -/
theorem acyclic_of_producersFirst (complete : ∀ edge ∈ graph.edges, edge.producer ∈ order) :
    graph.Acyclic := by
  intro node circle
  obtain ⟨target, feeds, rest⟩ := Relation.TransGen.head'_iff.mp circle
  obtain ⟨earlier, later, split, new⟩ := List.eq_append_cons_of_mem (complete _ feeds)
  by_cases same : target = node
  · subst same
    exact new (mem_of_feeds first split feeds)
  · obtain ⟨front, back, parts⟩ := List.append_of_mem (mem_of_reaches first split rest same)
    rw [parts, List.append_assoc, List.cons_append] at split
    exact new (parts ▸ List.mem_append_left _ (mem_of_feeds first split feeds))

end Order

/-- Whether a walk from the nodes as they are listed brings them into an order with producers first. -/
def sortsAsListed (graph : Graph) : Bool :=
  producersFirst graph.production.next {} (graph.walked graph.nodes.keys) &&
    graph.edges.all fun edge => (graph.walked graph.nodes.keys).contains edge.producer

theorem acyclic_of_sortsAsListed (sorts : graph.sortsAsListed = true) : graph.Acyclic := by
  rw [sortsAsListed, Bool.and_eq_true, List.all_eq_true] at sorts
  exact acyclic_of_producersFirst sorts.1 fun edge member => by simpa using sorts.2 edge member

/-- If the nodes are listed by their places, a walk from the nodes as they are listed orders them. -/
theorem dependencyOrder?_of_sortsAsListed (sorts : graph.sortsAsListed = true)
    (places : graph.nodes.values.map (·.place) = List.range graph.nodes.size) :
    graph.dependencyOrder? = some (graph.walked graph.nodes.keys) := by
  rw [sortsAsListed, Bool.and_eq_true] at sorts
  have ascending : graph.nodes.entries.Pairwise fun left right => left.2.place ≤ right.2.place := by
    have sorted : (List.range graph.nodes.size).Pairwise (· ≤ ·) := List.pairwise_le_range
    rw [← places, Table.values, List.map_map, List.pairwise_map] at sorted
    exact sorted
  have asListed : graph.nodesByPlace = graph.nodes.keys := by
    rw [nodesByPlace, List.mergeSort_of_pairwise (ascending.imp fun below => decide_eq_true below)]
    rfl
  exact dependencyOrder?_eq_some_iff.mpr ⟨congrArg graph.walked asListed, sorts.1⟩

theorem walking_enter (next : NodeId → List NodeId) (starts : List NodeId) :
    Walking next {} [] (starts.map .enter) where
  met := fun node known => by simp at known
  under := by
    refine List.pairwise_of_forall_mem_list fun first _ second member => ?_
    obtain ⟨own, -, rfl⟩ := List.mem_map.mp member
    trivial
  due := by
    have nothing : Due next [] (starts ++ []) [] := trivial
    simpa using nothing.enter
  ordered := trivial

/-- The nodes can be ordered if and only if they do not depend on each other in a circle. -/
theorem dependencyOrder?_isSome_iff (joined : graph.Joined) :
    graph.dependencyOrder?.isSome ↔ graph.Acyclic := by
  have produced {producer node : NodeId} (feeds : graph.Feeds producer node) :
      producer ∈ graph.walked graph.nodesByPlace := by
    obtain ⟨⟨address, there⟩, -⟩ := joined producer node feeds
    obtain ⟨present, found, -⟩ := Option.map_eq_some_iff.mp there
    exact mem_walked joined found
  constructor
  · intro ordered
    obtain ⟨order, ordered⟩ := Option.isSome_iff_exists.mp ordered
    obtain ⟨rfl, first⟩ := dependencyOrder?_eq_some_iff.mp ordered
    exact acyclic_of_producersFirst first fun edge => produced
  · intro acyclic
    have apart : ∀ node, ¬ ComesAfter graph.consumption.next node node := fun node circle =>
      acyclic node (Relation.TransGen.mono (fun _ _ => mem_consumption_iff.mp) _ _ circle)
    have sorted : FollowersLast graph.consumption.next (graph.walked graph.nodesByPlace) :=
      followersLast_finish apart _ (walking_enter _ _)
    have first : producersFirst graph.production.next {} (graph.walked graph.nodesByPlace) = true := by
      refine producersFirst_of_followersLast ?_ (graph.nodup_walked _) sorted ?_
      · exact fun producer node member => mem_consumption_iff.mpr (mem_production_iff.mp member)
      · exact fun node _ producer member => Or.inr (produced (mem_production_iff.mp member))
    exact Option.isSome_iff_exists.mpr ⟨_, dependencyOrder?_eq_some_iff.mpr ⟨rfl, first⟩⟩

/-! ### Announcements -/

theorem feeds_informed (graph : Graph) (announceRosters : Bool) :
    (graph.informed announceRosters).Feeds = graph.Feeds := by
  obtain ⟨added, begun, -⟩ := announced_journal announceRosters graph
  have same : (graph.announced announceRosters).2.edges = (graph.informed announceRosters).edges := by
    rcases announcementOrder_graph (graph.informed announceRosters) (graph.pending.nodes.filter
      fun node => 0 < (graph.informed announceRosters).subscriberCount node) with same | same
    · rw [announced, same]
    · rw [announced, same]
      rfl
  funext producer consumer
  rw [Feeds, Feeds, ← same, begun]
  rfl

section Flush

variable (intact : graph.Intact vocabulary) (announceRosters : Bool)
include intact

/-- Unless there is a circle, a node is announced after all that it depended on when the announcement
began. -/
theorem announced_after (acyclic : graph.Acyclic) {producer consumer : NodeId}
    (first : producer ∈ (graph.announced announceRosters).1)
    (second : consumer ∈ (graph.announced announceRosters).1) (apart : producer ≠ consumer)
    (reaches : graph.Reaches producer consumer) :
    ∃ earlier later, (graph.announced announceRosters).1 = earlier ++ consumer :: later ∧
      producer ∈ earlier := by
  have told := (tells_informed intact announceRosters).1
  have feeds := graph.feeds_informed announceRosters
  obtain ⟨order, ordered⟩ := Option.isSome_iff_exists.mp
    ((dependencyOrder?_isSome_iff told.intact.wired.joined).mpr (by rw [Acyclic, feeds]; exact acyclic))
  obtain ⟨-, sorted⟩ := dependencyOrder?_eq_some_iff.mp ordered
  have behind : (graph.informed announceRosters).Reaches producer consumer := by
    rw [Reaches, feeds]
    exact reaches
  rw [announced] at first second ⊢
  generalize graph.pending.nodes.filter _ = waiting at first second ⊢
  unfold announcementOrder at first second ⊢
  rw [ordered] at first second ⊢
  by_cases few : waiting.length < 2
  · rw [if_pos few] at first second
    rcases waiting with _ | ⟨only, _ | ⟨another, rest⟩⟩
    · contradiction
    · exact absurd ((List.mem_singleton.mp first).trans (List.mem_singleton.mp second).symm) apart
    · exact absurd few (by simp)
  · rw [if_neg few] at first second ⊢
    obtain ⟨inside, watched⟩ := List.mem_filter.mp second
    obtain ⟨earlier, later, split⟩ := List.append_of_mem inside
    have before := mem_of_reaches sorted split behind apart
    refine ⟨earlier.filter waiting.contains, later.filter waiting.contains, ?_,
      List.mem_filter.mpr ⟨before, (List.mem_filter.mp first).2⟩⟩
    dsimp only
    rw [split, List.filter_append, List.filter_cons_of_pos watched]

/-- Unless nothing waits, an announcement tells the subscribers of each node that it announces. -/
theorem tellings_flush : (graph.flush announceRosters).tellings =
    graph.tellings ++ (graph.announced announceRosters).1.flatMap graph.readers := by
  by_cases settled : graph.Settled
  · rw [flush_settled settled, announced_settled intact announceRosters settled]
    exact (List.append_nil _).symm
  · have begins : graph.begun.tellings = graph.tellings :=
      (tellings_record _ _).trans (List.append_nil _)
    rw [(tells_flush intact announceRosters settled).tellings, begins]

/-- Unless there is a circle, whoever hears of a node hears of it after all that hear of what the node
depended on when the announcement began. -/
theorem heard_after (acyclic : graph.Acyclic) {producer consumer : NodeId} {first second : SubscriptionId}
    (reads : first ∈ graph.readers producer) (follows : second ∈ graph.readers consumer)
    (before : first ∈ (graph.announced announceRosters).1.flatMap graph.readers)
    (after : second ∈ (graph.announced announceRosters).1.flatMap graph.readers)
    (apart : producer ≠ consumer) (reaches : graph.Reaches producer consumer) :
    [first, second].Sublist ((graph.announced announceRosters).1.flatMap graph.readers) := by
  have announces {node : NodeId} {id : SubscriptionId} (reader : id ∈ graph.readers node)
      (told : id ∈ (graph.announced announceRosters).1.flatMap graph.readers) :
      node ∈ (graph.announced announceRosters).1 := by
    obtain ⟨own, member, hears⟩ := List.mem_flatMap.mp told
    have listed := listed_of_reader intact hears
    rw [listed_of_reader intact reader] at listed
    cases listed
    exact member
  obtain ⟨earlier, later, split, member⟩ := announced_after intact announceRosters acyclic
    (announces reads before) (announces follows after) apart reaches
  rw [split, List.flatMap_append, List.flatMap_cons]
  have front : [first].Sublist (earlier.flatMap graph.readers) :=
    List.singleton_sublist.mpr (List.mem_flatMap.mpr ⟨producer, member, reads⟩)
  have back : [second].Sublist (graph.readers consumer ++ later.flatMap graph.readers) :=
    List.singleton_sublist.mpr (List.mem_append_left _ follows)
  exact front.append back

/-- Those are told who hear of a node that waits. -/
theorem mem_told_iff {id : SubscriptionId} :
    id ∈ (graph.announced announceRosters).1.flatMap graph.readers ↔
      ∃ node ∈ graph.pending.nodes, id ∈ graph.readers node := by
  rw [List.mem_flatMap]
  constructor
  · rintro ⟨node, announced, reader⟩
    exact ⟨node, ((mem_announced_iff intact announceRosters).mp announced).2, reader⟩
  · rintro ⟨node, waits, reader⟩
    exact ⟨node, (mem_announced_iff intact announceRosters).mpr ⟨followed_of_reader reader, waits⟩,
      reader⟩

end Flush

/-- What is reached along later edges was reached before, or an edge on the way is new. -/
theorem reaches_or_new {start finish : NodeId} (reaches : other.Reaches start finish) :
    graph.Reaches start finish ∨ ∃ read reader, other.Reaches start read ∧
      other.Feeds read reader ∧ ¬ graph.Feeds read reader ∧ other.Reaches reader finish := by
  induction reaches with
  | refl => exact Or.inl .refl
  | tail path feeds inductionHypothesis =>
      next middle last =>
      rcases inductionHypothesis with before | ⟨read, reader, first, new, missing, rest⟩
      · by_cases known : graph.Feeds middle last
        · exact Or.inl (before.tail known)
        · exact Or.inr ⟨middle, last, path, feeds, known, .refl⟩
      · exact Or.inr ⟨read, reader, first, new, missing, rest.tail feeds⟩

end Graph

open CharacterSheet.Graph

/-- Whenever changes are announced while no node depends on itself, the subscribers of the nodes that
wait are told, each of them once, and all subscribers of a node are told before those of any other
node that depended on it when the announcement began. So they are told before those of any other node
that depends on it afterwards, unless a read that only the announcement has recorded lies in
between. -/
theorem producers_heard_before_consumers (settings : Settings) (retention : Retention)
    (operations : List Operation) (announceRosters : Bool) (graph : Graph)
    (flushed : .flushed announceRosters graph ∈ Sheet.chronicle { settings, retention } operations)
    (acyclic : graph.Acyclic) :
    let after := graph.flush announceRosters
    ∃ told, after.tellings = graph.tellings ++ told ∧ told.Nodup ∧
      (∀ id, id ∈ told ↔ ∃ node ∈ graph.pending.nodes, id ∈ graph.readers node) ∧
      ∀ producer consumer, producer ≠ consumer →
        ∀ first ∈ graph.readers producer, ∀ second ∈ graph.readers consumer,
          first ∈ told → second ∈ told →
            (graph.Reaches producer consumer → [first, second].Sublist told) ∧
              (after.Reaches producer consumer → [first, second].Sublist told ∨
                ∃ read reader, after.Reaches producer read ∧ after.Feeds read reader ∧
                  ¬ graph.Feeds read reader ∧ after.Reaches reader consumer) := by
  intro after
  have unfolds : ({} : Graph).Unfolds (Sheet.chronicle { settings, retention } operations)
      (Sheet.run { settings, retention } operations).graph :=
    @Sheet.unfolds_chronicle { settings, retention } .initial operations
  have intact : graph.Intact .everything := (unfolds.proper _ flushed).fits
  refine ⟨_, tellings_flush intact announceRosters, nodup_told intact announceRosters,
    fun _ => mem_told_iff intact announceRosters, ?_⟩
  intro producer consumer apart first reads second follows before later
  have sorted := heard_after intact announceRosters acyclic reads follows before later apart
  exact ⟨sorted, fun reaches => (reaches_or_new reaches).imp_left sorted⟩

/-- Whether changes are about to be announced on a graph that passes a test. -/
def Event.announces (test : Graph → Bool) : Event → Bool
  | flushed true graph => test graph
  | _ => false

theorem exists_flushed {chronicle : List Event} (test : Graph → Bool)
    (found : chronicle.any (Event.announces test) = true) :
    ∃ graph, .flushed true graph ∈ chronicle ∧ test graph = true := by
  obtain ⟨event, member, announces⟩ := List.any_eq_true.mp found
  unfold Event.announces at announces
  split at announces
  · next graph => exact ⟨graph, member, announces⟩
  · contradiction

/-- The total of a stat is watched, and so is that of another which it reads; then the latter
changes. -/
def strongLife : List Operation :=
  [.add { id := ⟨1⟩, stats := [.named "Life"], form := .baseAdd
          value := .perStep (.named "Might") 10 5 },
    .subscribe (.named "Life") .total .main [], .subscribe (.named "Might") .total .main [],
    .add (.baseAdd ⟨2⟩ (.named "Might") 30)]

/-- Both are told, and the producer is told first although it was subscribed to later. -/
theorem strongLife_heard : ∃ graph, .flushed true graph ∈ Sheet.chronicle {} strongLife ∧
    graph.Acyclic ∧ graph.Reaches ⟨15⟩ ⟨7⟩ ∧ ⟨2⟩ ∈ graph.readers ⟨15⟩ ∧ ⟨1⟩ ∈ graph.readers ⟨7⟩ ∧
      ∃ told, (graph.flush true).tellings = graph.tellings ++ told ∧
        List.Sublist [⟨2⟩, ⟨1⟩] told := by
  obtain ⟨graph, flushed, facts⟩ := exists_flushed (fun graph =>
      graph.sortsAsListed && decide (⟨7⟩ ∈ graph.dependents [⟨15⟩] ∧
        ⟨2⟩ ∈ graph.readers ⟨15⟩ ∧ ⟨1⟩ ∈ graph.readers ⟨7⟩ ∧
          ⟨15⟩ ∈ graph.pending.nodes ∧ ⟨7⟩ ∈ graph.pending.nodes))
    (show (Sheet.chronicle {} strongLife).any _ = true by decide +kernel)
  rw [Bool.and_eq_true, decide_eq_true_eq] at facts
  obtain ⟨sorts, depends, second, first, waits, too⟩ := facts
  have acyclic := acyclic_of_sortsAsListed sorts
  have reaches := reaches_of_mem_dependents depends
  obtain ⟨told, heard, -, everyone, sorted⟩ :=
    producers_heard_before_consumers {} {} strongLife true graph flushed acyclic
  have apart : (⟨15⟩ : NodeId) ≠ ⟨7⟩ := by decide
  exact ⟨graph, flushed, acyclic, reaches, second, first, told, heard,
    (sorted _ _ apart _ second _ first ((everyone _).mpr ⟨_, waits, second⟩)
      ((everyone _).mpr ⟨_, too, first⟩)).1 reaches⟩

/-- The totals of two stats are watched; then both change in one batch, and the second comes to read
the first. -/
def lateReading : List Operation :=
  [.subscribe (.named "Might") .total .main [], .subscribe (.named "Power") .total .main [],
    .beginBatch, .add (.baseAdd ⟨1⟩ (.named "Might") 10),
    .add { id := ⟨2⟩, stats := [.named "Power"], form := .baseAdd, value := .total (.named "Might") },
    .endBatch]

/-- What depends on another after an announcement may be told first: the edges from which the order is
made are older. -/
theorem late_reader_heard_first : ¬ ∀ settings retention operations announceRosters graph,
    .flushed announceRosters graph ∈ Sheet.chronicle { settings, retention } operations →
    graph.behaviorCount = 0 → graph.Acyclic → (graph.flush announceRosters).Acyclic →
    ∀ told, (graph.flush announceRosters).tellings = graph.tellings ++ told →
      ∀ producer consumer, (graph.flush announceRosters).Reaches producer consumer →
        producer ≠ consumer →
          ∀ first ∈ graph.readers producer, ∀ second ∈ graph.readers consumer,
            first ∈ told → second ∈ told → [first, second].Sublist told := by
  intro always
  obtain ⟨graph, flushed, facts⟩ := exists_flushed (fun graph =>
      graph.sortsAsListed && (graph.informed true).sortsAsListed &&
        (List.foldl announceNode (graph.informed true) [⟨8⟩, ⟨0⟩]).sortsAsListed &&
        decide (graph.behaviorCount = 0 ∧ graph.readers ⟨0⟩ = [⟨1⟩] ∧ graph.readers ⟨8⟩ = [⟨2⟩] ∧
          (graph.informed true).nodes.values.map Node.place =
            List.range (graph.informed true).nodes.size ∧
          2 ≤ (graph.pending.nodes.filter fun node =>
            0 < (graph.informed true).subscriberCount node).length ∧
          ((graph.informed true).walked (graph.informed true).nodes.keys).filter
            (graph.pending.nodes.filter fun node =>
              0 < (graph.informed true).subscriberCount node).contains = [⟨8⟩, ⟨0⟩] ∧
          (⟨8⟩ : NodeId) ∈
            (List.foldl announceNode (graph.informed true) [⟨8⟩, ⟨0⟩]).dependents [⟨0⟩]))
    (show (Sheet.chronicle {} lateReading).any _ = true by decide +kernel)
  rw [Bool.and_eq_true, Bool.and_eq_true, Bool.and_eq_true, decide_eq_true_eq] at facts
  obtain ⟨⟨⟨before, sorts⟩, after⟩, plain, first, second, places, several, order, depends⟩ := facts
  have intact : graph.Intact .everything :=
    ((@Sheet.unfolds_chronicle {} .initial lateReading).proper _ flushed).fits
  have announced : graph.announced true = ([⟨8⟩, ⟨0⟩], graph.informed true) := by
    rw [announced, announcementOrder, if_neg (by omega),
      dependencyOrder?_of_sortsAsListed sorts places]
    exact congrArg (·, graph.informed true) order
  have unsettled : ¬ graph.Settled := fun settled => by
    have nobody := announced_settled intact true settled
    rw [announced] at nobody
    exact List.cons_ne_nil _ _ nobody
  have flush : graph.flush true = List.foldl announceNode (graph.informed true) [⟨8⟩, ⟨0⟩] := by
    rw [flush_unsettled unsettled, announced]
  have told := tellings_flush intact true
  rw [announced] at told
  have sorted := always {} {} lateReading true graph flushed plain (acyclic_of_sortsAsListed before)
    (flush ▸ acyclic_of_sortsAsListed after) _ told ⟨0⟩ ⟨8⟩
    (flush ▸ reaches_of_mem_dependents depends) (by decide) ⟨1⟩ (by simp [first]) ⟨2⟩ (by simp [second])
    (by simp [first, second]) (by simp [first, second])
  simp only [List.flatMap_cons, first, second, List.flatMap_nil] at sorted
  exact absurd sorted (by decide)

end CharacterSheet
