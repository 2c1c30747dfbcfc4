import CharacterSheet.Proofs.Change.Discarding
import Mathlib.Data.List.Nodup
import Mathlib.Data.List.Perm.Basic
import Mathlib.Logic.Relation

/-!
Contract: where nodes stand, and what is left of them when they go.

Owns:
- grounds: which nodes there are, what they calculate, where they stand, and which places are vacant;
- the two steps that change a ground: a node is set down on a free place, or some nodes go and vacate
  theirs. Places are given out again, numbers are not;
- orderly grounds, on which no two nodes stand in one place;
- tidy graphs, in which nothing that is recorded names a node that is gone, and the changes that keep a
  graph tidy.
-/

namespace CharacterSheet

/-! ### Grounds -/

/-- A node, what it calculates and where it stands. -/
structure Site where
  node : NodeId
  address : Address
  place : Nat

/-- All nodes, the number of the next one, and the places that are vacant, the one vacated last
first. -/
structure Ground where
  sites : List Site
  nextNode : Nat
  vacant : List Nat

namespace Ground

variable {ground middle other : Ground}

/-- Set a node down on the place that was vacated last, or else behind all others. -/
def add (ground : Ground) (address : Address) : Ground where
  sites := ground.sites ++ [⟨⟨ground.nextNode⟩, address, ground.vacant.headD ground.sites.length⟩]
  nextNode := ground.nextNode + 1
  vacant := ground.vacant.tail

/-- One change of a ground. -/
inductive Step (ground : Ground) : Ground → Prop
  | add (address) : Step ground (ground.add address)
  | drop (gone : NodeId → Bool) {vacated : List Nat} :
      vacated.Perm ((ground.sites.filter (gone ·.node)).map (·.place)) →
        Step ground
          { ground with
            sites := ground.sites.filter (!gone ·.node)
            vacant := vacated ++ ground.vacant }

/-- Changes of a ground, one after the other. -/
def Evolves : Ground → Ground → Prop := Relation.ReflTransGen Step

theorem Evolves.refl (ground : Ground) : ground.Evolves ground := Relation.ReflTransGen.refl

theorem Evolves.single (step : ground.Step other) : ground.Evolves other :=
  Relation.ReflTransGen.single step

theorem Evolves.trans (first : ground.Evolves middle) (second : middle.Evolves other) :
    ground.Evolves other := Relation.ReflTransGen.trans first second

/-- Numbers go up, and the places of the nodes and the vacant ones are all different and fill a
range. -/
structure Orderly (ground : Ground) : Prop where
  numbered : ∀ site ∈ ground.sites, site.node.number < ground.nextNode
  places : (ground.sites.map (·.place) ++ ground.vacant).Perm
    (List.range (ground.sites.length + ground.vacant.length))

theorem Orderly.add (orderly : ground.Orderly) (address : Address) :
    (ground.add address).Orderly where
  numbered := by
    intro site member
    rcases List.mem_append.mp member with before | new
    · exact Nat.lt_succ_of_lt (orderly.numbered site before)
    · rw [List.mem_singleton.mp new]
      exact Nat.lt_succ_self ground.nextNode
  places := by
    have before := orderly.places
    obtain ⟨sites, next, vacant⟩ := ground
    cases vacant with
    | nil =>
        simp only [List.append_nil, List.length_nil, Nat.add_zero] at before
        simpa [Ground.add, List.range_succ] using before.append_right [sites.length]
    | cons place rest =>
        have length : sites.length + 1 + rest.length = sites.length + (rest.length + 1) := by omega
        simpa [Ground.add, length] using before

/-- What goes vacates its places, so that none is lost. -/
theorem Orderly.drop (orderly : ground.Orderly) (gone : NodeId → Bool) {vacated : List Nat}
    (leaves : vacated.Perm ((ground.sites.filter (gone ·.node)).map (·.place))) :
    Orderly
      { ground with
        sites := ground.sites.filter (!gone ·.node)
        vacant := vacated ++ ground.vacant } where
  numbered := fun site member => orderly.numbered site (List.mem_of_mem_filter member)
  places := by
    have parts : (ground.sites.filter (!gone ·.node) ++ ground.sites.filter (gone ·.node)).Perm
        ground.sites :=
      List.perm_append_comm.trans (List.filter_append_perm (gone ·.node) ground.sites)
    have places : ((ground.sites.filter (!gone ·.node)).map (·.place) ++ vacated).Perm
        (ground.sites.map (·.place)) :=
      (leaves.append_left _).trans (by simpa only [List.map_append] using parts.map (·.place))
    have length : (ground.sites.filter (!gone ·.node)).length + vacated.length =
        ground.sites.length := by simpa using places.length_eq
    show ((ground.sites.filter (!gone ·.node)).map (·.place) ++ (vacated ++ ground.vacant)).Perm _
    rw [← List.append_assoc, List.length_append, ← Nat.add_assoc, length]
    exact (places.append_right _).trans orderly.places

theorem Evolves.orderly (evolves : ground.Evolves other) (orderly : ground.Orderly) :
    other.Orderly := by
  induction evolves with
  | refl => exact orderly
  | tail _ step inductionHypothesis =>
      cases step with
      | add address => exact inductionHypothesis.add address
      | drop gone leaves => exact inductionHypothesis.drop gone leaves

/-- No two nodes stand in one place. -/
theorem Orderly.distinct (orderly : ground.Orderly) : (ground.sites.map (·.place)).Nodup :=
  (List.nodup_append.mp (orderly.places.nodup_iff.mpr List.nodup_range)).1

/-- Whoever is there later and is not new was there before, calculates what it calculated then and
stands where it stood. -/
structure Precedes (ground other : Ground) : Prop where
  next : ground.nextNode ≤ other.nextNode
  kept : ∀ site ∈ other.sites, site.node.number < ground.nextNode → site ∈ ground.sites

theorem Evolves.precedes (evolves : ground.Evolves other) : ground.Precedes other := by
  induction evolves with
  | refl => exact ⟨Nat.le_refl _, fun _ member _ => member⟩
  | tail _ step inductionHypothesis =>
      obtain ⟨next, kept⟩ := inductionHypothesis
      cases step with
      | add address =>
          refine ⟨Nat.le_succ_of_le next, fun site member early => ?_⟩
          rcases List.mem_append.mp member with before | new
          · exact kept site before early
          · rw [List.mem_singleton.mp new] at early
            exact absurd next (Nat.not_le_of_lt early)
      | drop gone leaves =>
          exact ⟨next, fun site member => kept site (List.mem_of_mem_filter member)⟩

end Ground

namespace Graph

variable {vocabulary : Vocabulary} {graph middle other : Graph}

/-- The place of an entry of the table of nodes. -/
def siteOf (entry : NodeId × Node) : Site := ⟨entry.1, entry.2.address, entry.2.place⟩

def ground (graph : Graph) : Ground where
  sites := graph.nodes.entries.map siteOf
  nextNode := graph.nextNode
  vacant := graph.vacant

theorem mem_sites_iff (graph : Graph) (site : Site) :
    site ∈ graph.ground.sites ↔ ∃ present, graph.nodes.get? site.node = some present ∧
      present.address = site.address ∧ present.place = site.place := by
  simp only [Table.get?_eq_some_iff]
  constructor
  · intro member
    obtain ⟨⟨node, present⟩, listed, rfl⟩ := List.mem_map.mp member
    exact ⟨present, listed, rfl, rfl⟩
  · obtain ⟨node, address, place⟩ := site
    rintro ⟨present, listed, rfl, rfl⟩
    exact List.mem_map.mpr ⟨(node, present), listed, rfl⟩

/-- Which nodes there are is a matter of the ground. -/
theorem contains_of_ground (same : other.ground = graph.ground) (node : NodeId) :
    other.nodes.contains node = graph.nodes.contains node := by
  have exists_iff (graph : Graph) : graph.nodes.contains node = true ↔
      ∃ site ∈ graph.ground.sites, site.node = node := by
    simp only [Table.contains_iff, mem_sites_iff]
    constructor
    · rintro ⟨present, found⟩
      exact ⟨⟨node, present.address, present.place⟩, ⟨present, found, rfl, rfl⟩, rfl⟩
    · rintro ⟨site, ⟨present, found, _, _⟩, rfl⟩
      exact ⟨present, found⟩
  rw [Bool.eq_iff_iff, exists_iff, exists_iff, same]

/-! ### What leaves the ground as it is -/

theorem ground_of_nodes {selects : NodeId → Bool} (change : Node → Node)
    (keeps : ∀ node, (change node).address = node.address ∧ (change node).place = node.place)
    (nodes : other.nodes = graph.nodes.modifyWhere selects change)
    (nextNode : other.nextNode = graph.nextNode) (vacant : other.vacant = graph.vacant) :
    other.ground = graph.ground := by
  have sites : other.nodes.entries.map siteOf = graph.nodes.entries.map siteOf := by
    simp only [nodes, Table.modifyWhere, Table.changeIn, List.map_map]
    refine List.map_congr_left fun entry _ => ?_
    by_cases selected : selects entry.1 <;> simp [siteOf, selected, keeps]
  rw [ground, ground, sites, nextNode, vacant]

theorem ground_modifyNode (graph : Graph) (node : NodeId) {change : Node → Node}
    (keeps : ∀ node, (change node).address = node.address ∧ (change node).place = node.place) :
    (graph.modifyNode node change).ground = graph.ground :=
  ground_of_nodes change keeps rfl rfl rfl

theorem ground_markStale (graph : Graph) (starts : List NodeId) :
    (graph.markStale starts).ground = graph.ground :=
  ground_of_nodes (fun node => { node with cache := node.cache.invalidate }) (fun _ => ⟨rfl, rfl⟩)
    rfl rfl rfl

theorem ground_invalidate (graph : Graph) (start : NodeId) :
    (graph.invalidate start).ground = graph.ground := by
  rw [invalidate_eq]
  exact graph.ground_markStale [start]

theorem ground_invalidateAll (graph : Graph) (starts : List NodeId) :
    (graph.invalidateAll starts).ground = graph.ground := by
  unfold invalidateAll
  induction starts generalizing graph with
  | nil => rfl
  | cons start rest inductionHypothesis =>
      exact (inductionHypothesis (graph.invalidate start)).trans (graph.ground_invalidate start)

/-! ### Tidy graphs -/

/-- No edge stands twice, edges lead to nodes that are there, nodes that are there wait to be
announced, and no place is given out twice. -/
structure Tidy (graph : Graph) : Prop where
  single : graph.edges.Nodup
  joined : ∀ producer consumer, graph.Feeds producer consumer → graph.nodes.contains consumer = true
  waiting : ∀ node ∈ graph.pending.nodes, graph.nodes.contains node = true
  orderly : graph.ground.Orderly

theorem Tidy.initial : ({} : Graph).Tidy where
  single := List.nodup_nil
  joined := nofun
  waiting := nofun
  orderly := ⟨nofun, .nil⟩

/-- A change that keeps a graph tidy, and after which its ground has evolved. -/
def Maintains (graph other : Graph) : Prop :=
  graph.Tidy → other.Tidy ∧ graph.ground.Evolves other.ground

namespace Maintains

theorem refl (graph : Graph) : graph.Maintains graph := fun tidy => ⟨tidy, .refl _⟩

theorem trans (first : graph.Maintains middle) (second : middle.Maintains other) :
    graph.Maintains other := by
  intro tidy
  obtain ⟨between, evolves⟩ := first tidy
  obtain ⟨last, later⟩ := second between
  exact ⟨last, evolves.trans later⟩

theorem foldl {α : Type} {step : Graph → α → Graph} (items : List α)
    (maintains : ∀ (graph : Graph), ∀ item ∈ items, graph.Maintains (step graph item))
    (graph : Graph) :
    graph.Maintains (items.foldl step graph) := by
  induction items generalizing graph with
  | nil => exact .refl graph
  | cons item rest inductionHypothesis =>
      exact (maintains graph item List.mem_cons_self).trans
        (inductionHypothesis (fun graph other member =>
          maintains graph other (List.mem_cons_of_mem item member)) (step graph item))

/-- Edges may go, and nodes that are there may come to wait to be announced. -/
theorem of_ground (ground : other.ground = graph.ground) (edges : other.edges.Sublist graph.edges)
    (waiting : graph.Tidy → ∀ node ∈ other.pending.nodes,
      node ∈ graph.pending.nodes ∨ graph.nodes.contains node = true) : graph.Maintains other := by
  intro tidy
  refine ⟨⟨edges.nodup tidy.single, fun producer consumer feeds => ?_, fun node member => ?_, ?_⟩, ?_⟩
  · rw [contains_of_ground ground]
    exact tidy.joined producer consumer (edges.subset feeds)
  · rw [contains_of_ground ground]
    exact (waiting tidy node member).elim (tidy.waiting node) id
  · rw [ground]
    exact tidy.orderly
  · rw [ground]
    exact .refl _

/-- Whatever touches neither nodes nor edges, nor lets a node wait to be announced. -/
theorem aside (ground : other.ground = graph.ground) (edges : other.edges = graph.edges)
    (waiting : ∀ node ∈ other.pending.nodes, node ∈ graph.pending.nodes) : graph.Maintains other :=
  .of_ground ground (edges ▸ List.Sublist.refl _) fun _ node member => .inl (waiting node member)

end Maintains

theorem maintains_record (graph : Graph) (entry : Record) :
    graph.Maintains (graph.record entry) := .aside rfl rfl fun _ => id

/-- What depends on a node that is there is there, so only such nodes come to wait. -/
theorem maintains_invalidateAll (graph : Graph) (starts : List NodeId) :
    graph.Maintains (graph.invalidateAll starts) := by
  refine .of_ground (graph.ground_invalidateAll starts)
    ((graph.fades_invalidateAll starts).edges ▸ .refl _) fun tidy node member => ?_
  refine ((graph.pending_invalidateAll starts node).mp member).imp id fun reached => ?_
  obtain ⟨start, _, existing, reaches⟩ := (graph.mem_dependents_iff starts node).mp reached
  cases reaches with
  | refl => exact existing
  | tail _ feeds => exact tidy.joined _ _ feeds

/-! ### Nodes that come -/

theorem ground_addNode (fresh : graph.nodes.get? ⟨graph.nextNode⟩ = none) (address : Address) :
    (graph.addNode address).2.ground = graph.ground.add address := by
  simp only [ground, addNode, Table.entries_insert_of_absent fresh, List.map_append, Ground.add,
    freePlace, List.length_map, Table.size]
  rfl

/-- A number that has not been given out belongs to no node. -/
theorem Tidy.fresh (tidy : graph.Tidy) : graph.nodes.get? ⟨graph.nextNode⟩ = none := by
  rw [Option.eq_none_iff_forall_ne_some]
  intro present found
  have member : ⟨⟨graph.nextNode⟩, present.address, present.place⟩ ∈ graph.ground.sites :=
    (graph.mem_sites_iff _).mpr ⟨present, found, rfl, rfl⟩
  exact Nat.lt_irrefl _ (tidy.orderly.numbered _ member)

theorem maintains_addNode (graph : Graph) (address : Address) :
    graph.Maintains (graph.addNode address).2 := by
  intro tidy
  have ground := ground_addNode tidy.fresh address
  have stays {node : NodeId} (existing : graph.nodes.contains node = true) :
      (graph.addNode address).2.nodes.contains node = true := by
    obtain ⟨present, found⟩ := Table.contains_iff.mp existing
    refine Table.contains_iff.mpr ⟨present, ?_⟩
    refine (graph.nodes.get?_insert _ _ _).trans ((if_neg ?_).trans found)
    rintro rfl
    exact absurd found (by simp [tidy.fresh])
  refine ⟨⟨tidy.single, fun producer consumer feeds => stays (tidy.joined producer consumer feeds),
    fun node member => stays (tidy.waiting node member), ground ▸ tidy.orderly.add address⟩, ?_⟩
  rw [ground]
  exact Ground.Evolves.single (.add address)

theorem maintains_enforce (graph : Graph) (stat : StatId) (behaviors : List Behavior) :
    graph.Maintains (graph.enforce stat behaviors) := by
  have lists : graph.Maintains ({ graph with behaviors := graph.behaviors.insert stat behaviors }.record
      (.behaviorsRegistered stat behaviors.length)) := .aside rfl rfl fun _ => id
  exact lists.trans (maintains_invalidateAll _ _)

theorem maintains_ensurePipeline (graph : Graph) (stat : Stat) :
    graph.Maintains (graph.ensurePipeline stat) := by
  have opens : graph.Maintains (graph.openPipeline stat) := .aside rfl rfl fun _ => id
  rw [ensurePipeline_eq]
  split
  · exact .refl graph
  · split
    · exact opens
    · exact opens.trans (maintains_enforce _ _ _)

theorem maintains_addStage (graph : Graph) (stat : StatId) (stage : Stage) (path : Path) :
    graph.Maintains (graph.addStage stat stage path).2 :=
  (maintains_addNode graph (.pipeline stat stage path)).trans (.aside rfl rfl fun _ => id)

theorem maintains_obtain (graph : Graph) (stat : Stat) (stage : Stage) (path : Path) :
    graph.Maintains (graph.obtain stat stage path).2 :=
  obtain_induction stage (maintains_ensurePipeline graph stat)
    fun grown other place maintains _ _ _ => maintains.trans (maintains_addStage grown stat.id other place)

theorem maintains_locate (graph : Graph) (query : Query) :
    graph.Maintains (graph.locate query).2 := by
  cases query with
  | node stat stage path =>
      rw [locate_node]
      split
      · exact maintains_obtain graph stat stage path
      · exact .refl graph
  | contribution modifier =>
      rw [locate_contribution]
      split <;> exact .refl graph

/-! ### Nodes that are calculated -/

theorem maintains_enter (graph : Graph) (node : NodeId) : graph.Maintains (graph.enter node) :=
  .aside (graph.ground_modifyNode node fun _ => ⟨rfl, rfl⟩) rfl fun _ => id

/-- A node that read nothing twice is joined to each node that it read by one edge. -/
theorem maintains_leave {node : NodeId} (existing : graph.nodes.contains node = true)
    {reads : List NodeId} (distinct : reads.Nodup) (reply : Reply) :
    graph.Maintains (graph.leave node reads reply) := by
  have ground : (graph.leave node reads reply).ground = graph.ground := by
    rw [leave_eq]
    exact graph.ground_modifyNode node fun _ => ⟨rfl, rfl⟩
  intro tidy
  refine ⟨⟨?_, fun producer consumer feeds => ?_, fun other member => ?_, ?_⟩, ?_⟩
  · have fresh : ((reads.filter graph.nodes.contains).map (Edge.mk · node)).Nodup :=
      (distinct.filter _).map fun _ _ same => congrArg Edge.producer same
    rw [leave_eq]
    refine List.nodup_append.mpr ⟨tidy.single.filter _, fresh, ?_⟩
    rintro edge former _ added rfl
    obtain ⟨producer, _, rfl⟩ := List.mem_map.mp added
    exact absurd rfl (of_decide_eq_true (List.mem_filter.mp former).2)
  · rw [contains_of_ground ground]
    by_cases same : consumer = node
    · exact same ▸ existing
    · rw [feeds_leave, if_neg same] at feeds
      exact tidy.joined producer consumer feeds
  · rw [contains_of_ground ground]
    rw [leave_eq] at member
    exact tidy.waiting other member
  · rw [ground]
    exact tidy.orderly
  · rw [ground]
    exact .refl _

/-! ### Nodes that go -/

theorem ground_unlistAll (graph : Graph) (leaving : List Node) :
    (graph.unlistAll leaving).ground = graph.ground := by
  rw [unlistAll_eq]
  rfl

/-- The places that some nodes vacate are those on which they stand. -/
theorem vacated_perm (graph : Graph) {nodes : List NodeId} (distinct : nodes.Nodup) :
    ((nodes.filterMap graph.nodes.get?).map (·.place)).Perm
      ((graph.ground.sites.filter ((NodeSet.ofList nodes).contains ·.node)).map (·.place)) := by
  have places : (nodes.filterMap graph.nodes.get?).map (·.place) =
      (nodes.filterMap fun node => (graph.nodes.get? node).map fun present =>
        siteOf (node, present)).map (·.place) := by
    simp only [List.map_filterMap, Option.map_map, Function.comp_def, siteOf]
  rw [places]
  refine List.Perm.map Site.place ((List.perm_ext_iff_of_nodup ?_ ?_).mpr fun site => ?_)
  · refine distinct.filterMap fun node other site first second => ?_
    obtain ⟨_, _, rfl⟩ := Option.map_eq_some_iff.mp (Option.mem_def.mp first)
    obtain ⟨_, _, same⟩ := Option.map_eq_some_iff.mp (Option.mem_def.mp second)
    exact (congrArg Site.node same).symm
  · have keys : (graph.ground.sites.map (·.node)).Nodup := by
      rw [ground, List.map_map]
      exact graph.nodes.distinct
    exact keys.of_map.filter _
  · obtain ⟨node, address, place⟩ := site
    simp only [List.mem_filterMap, Option.map_eq_some_iff, List.mem_filter, mem_sites_iff,
      NodeSet.contains_ofList, List.contains_iff_mem, siteOf, Site.mk.injEq]
    constructor
    · rintro ⟨_, member, present, found, rfl, rfl, rfl⟩
      exact ⟨⟨present, found, rfl, rfl⟩, member⟩
    · rintro ⟨⟨present, found, rfl, rfl⟩, member⟩
      exact ⟨node, member, present, found, rfl, rfl, rfl⟩

theorem evolves_thin (graph : Graph) {nodes : List NodeId} (distinct : nodes.Nodup) :
    graph.ground.Evolves (graph.thin nodes).ground := by
  have stale : (graph.markStale (nodes.flatMap graph.consumption.next)).ground = graph.ground :=
    graph.ground_markStale _
  have sites : (graph.thin nodes).ground.sites =
      graph.ground.sites.filter (!(NodeSet.ofList nodes).contains ·.node) := by
    rw [← stale]
    simp only [ground, thin, Table.eraseWhere, List.filter_map, Function.comp_def, siteOf]
  have same : (graph.thin nodes).ground =
      { graph.ground with
        sites := graph.ground.sites.filter (!(NodeSet.ofList nodes).contains ·.node)
        vacant := ((nodes.filterMap graph.nodes.get?).map (·.place)).reverse ++
          graph.ground.vacant } := by
    rw [← sites]
    rfl
  rw [same]
  exact Ground.Evolves.single (.drop _ ((List.reverse_perm _).trans (graph.vacated_perm distinct)))

/-- With its nodes, all that names them goes. -/
theorem maintains_removeNodes (graph : Graph) {nodes : List NodeId} (distinct : nodes.Nodup) :
    graph.Maintains (graph.removeNodes nodes) := by
  rw [removeNodes_eq]
  split
  · exact .refl graph
  · intro tidy
    have evolves := graph.evolves_thin distinct
    have stays {node : NodeId} (existing : graph.nodes.contains node = true)
        (left : node ∉ nodes) : (graph.thin nodes).nodes.contains node = true := by
      rw [← contains_of_ground (graph.ground_markStale (nodes.flatMap graph.consumption.next))]
        at existing
      rw [Table.contains, get?_thin, if_neg left]
      exact existing
    have thins : (graph.thin nodes).Tidy :=
      { single := ((graph.fades_thin nodes).edges ▸ tidy.single).filter _
        joined := fun producer consumer feeds => by
          obtain ⟨before, _, left⟩ := (graph.feeds_thin nodes producer consumer).mp feeds
          exact stays (tidy.joined producer consumer before) left
        waiting := fun node member => by
          obtain ⟨before, left⟩ := List.mem_filter.mp member
          exact stays (tidy.waiting node before) (by simpa [NodeSet.contains_ofList] using left)
        orderly := evolves.orderly tidy.orderly }
    have unlists : (graph.thin nodes).Maintains
        ((graph.thin nodes).unlistAll (nodes.filterMap graph.nodes.get?)) := by
      refine .aside (ground_unlistAll _ _) ?_ ?_ <;> rw [unlistAll_eq]
      exact fun _ => id
    obtain ⟨last, same⟩ := unlists thins
    exact ⟨last, evolves.trans same⟩

end Graph
end CharacterSheet
