import CharacterSheet.Proofs.Membership.Backing
import CharacterSheet.Proofs.Announcement.Settling

/-!
Contract: what one change makes stale, and nothing else.

Owns:
- changes that invalidate some origins: whatever depends on an origin is stale and waits to be
  announced, every other node is as it was, and new nodes wait for nothing;
- that making nodes, changing a roster and changing a link are such changes, each with its origins.

Changes of this kind compose as long as no edge is recorded in between: what depends on an origin is
then the same before and after.
-/

namespace CharacterSheet

/-- A stat conveys exactly if it has ends, and from the one to the other. -/
theorem Stat.conveys_iff {stat : Stat} {source target : StatId} :
    (∃ share, stat.route? = some (share, source, target)) ↔
      ∃ first second, stat.ends? = some (first, second) ∧ first.id = source ∧ second.id = target := by
  unfold route? ends?
  cases stat.role with
  | regular => simp
  | conversion first second => simp
  | gain first second => simp

namespace Graph

variable {vocabulary : Vocabulary} {graph base middle other : Graph} {origin more : NodeId → Prop}

/-- A change that invalidates some origins with all that depends on them. -/
structure Invalidates (graph other : Graph) (origin : NodeId → Prop) : Prop where
  edges : other.edges = graph.edges
  pending : ∀ node, node ∈ other.pending.nodes ↔
    node ∈ graph.pending.nodes ∨ graph.Below origin node
  once : graph.pending.nodes.Nodup → other.pending.nodes.Nodup
  kept : ∀ node present, graph.nodes.get? node = some present → ¬ graph.Below origin node →
    other.nodes.get? node = some present
  dropped : ∀ node present, graph.nodes.get? node = some present → graph.Below origin node →
    other.nodes.get? node = some { present with cache := .stale }
  fresh : ∀ node present, graph.nodes.get? node = none → other.nodes.get? node = some present →
    present.cache = .stale ∧ present.subscribers = []
  placed : ∀ node, origin node → ∃ present, other.nodes.get? node = some present

theorem below_of_edges (edges : other.edges = graph.edges) : other.Below = graph.Below := by
  unfold Below Reaches Feeds
  rw [edges]

theorem below_or {node : NodeId} : graph.Below (fun start => origin start ∨ more start) node ↔
    graph.Below origin node ∨ graph.Below more node := by
  simp only [Below, or_and_right, exists_or]

theorem below_nothing {node : NodeId} : ¬ graph.Below (fun _ => False) node := by
  rintro ⟨_, none, _⟩
  exact none

namespace Invalidates

theorem refl (graph : Graph) : graph.Invalidates graph fun _ => False where
  edges := rfl
  pending := fun node => by simp [below_nothing]
  once := id
  kept := fun _ _ found _ => found
  dropped := fun _ _ _ below => absurd below below_nothing
  fresh := by
    intro node present absent found
    rw [absent] at found
    contradiction
  placed := fun _ none => none.elim

theorem congr (invalidates : graph.Invalidates other origin) (same : ∀ node, origin node ↔ more node) :
    graph.Invalidates other more := by
  rwa [← show origin = more from funext fun node => propext (same node)]

/-- A node that was there is there after the change, with its subscribers. -/
theorem stays (invalidates : graph.Invalidates other origin) {node : NodeId} {present : Node}
    (found : graph.nodes.get? node = some present) :
    ∃ cache, other.nodes.get? node = some { present with cache } := by
  by_cases below : graph.Below origin node
  · exact ⟨.stale, invalidates.dropped node present found below⟩
  · exact ⟨present.cache, invalidates.kept node present found below⟩

theorem trans (first : graph.Invalidates middle origin) (second : middle.Invalidates other more) :
    graph.Invalidates other fun node => origin node ∨ more node where
  edges := second.edges.trans first.edges
  pending := by
    intro node
    rw [second.pending, first.pending, below_of_edges first.edges, below_or, or_assoc]
  once := second.once ∘ first.once
  kept := by
    intro node present found apart
    rw [below_or, not_or] at apart
    refine second.kept node present (first.kept node present found apart.1) ?_
    rw [below_of_edges first.edges]
    exact apart.2
  dropped := by
    intro node present found below
    by_cases later : graph.Below more node
    · rw [← below_of_edges first.edges] at later
      obtain ⟨cache, between⟩ := first.stays found
      exact second.dropped node { present with cache } between later
    · have early := (below_or.mp below).resolve_right later
      rw [← below_of_edges first.edges] at later
      exact second.kept node _ (first.dropped node present found early) later
  fresh := by
    intro node present absent found
    cases between : middle.nodes.get? node with
    | none => exact second.fresh node present between found
    | some made =>
        obtain ⟨stale, unheard⟩ := first.fresh node made absent between
        by_cases later : middle.Below more node
        · rw [second.dropped node made between later] at found
          cases found
          exact ⟨rfl, unheard⟩
        · rw [second.kept node made between later] at found
          cases found
          exact ⟨stale, unheard⟩
  placed := by
    rintro node (early | late)
    · obtain ⟨present, found⟩ := first.placed node early
      obtain ⟨cache, still⟩ := second.stays found
      exact ⟨_, still⟩
    · exact second.placed node late

/-- Only nodes, edges and waiting nodes matter. -/
theorem of_same (invalidates : base.Invalidates other origin) (nodes : base.nodes = graph.nodes)
    (edges : base.edges = graph.edges) (pending : base.pending.nodes = graph.pending.nodes) :
    graph.Invalidates other origin where
  edges := invalidates.edges.trans edges
  pending := by
    intro node
    rw [invalidates.pending, below_of_edges edges, pending]
  once := fun distinct => invalidates.once (pending ▸ distinct)
  kept := by
    intro node present found apart
    rw [← below_of_edges edges] at apart
    exact invalidates.kept node present (nodes ▸ found) apart
  dropped := by
    intro node present found below
    rw [← below_of_edges edges] at below
    exact invalidates.dropped node present (nodes ▸ found) below
  fresh := fun node present absent => invalidates.fresh node present (nodes ▸ absent)
  placed := invalidates.placed

/-- To make a node invalidates nothing. -/
theorem of_insert {node : NodeId} {address : Address} {place : Nat}
    (absent : graph.nodes.get? node = none)
    (nodes : other.nodes = graph.nodes.insert node { address, place })
    (edges : other.edges = graph.edges) (pending : other.pending.nodes = graph.pending.nodes) :
    graph.Invalidates other fun _ => False where
  edges := edges
  pending := fun other => by simp [pending, below_nothing]
  once := fun distinct => pending ▸ distinct
  kept := by
    intro own present found _
    rw [nodes, Table.get?_insert_other, found]
    rintro rfl
    rw [absent] at found
    contradiction
  dropped := fun _ _ _ below => absurd below below_nothing
  fresh := by
    intro own present missing found
    rw [nodes, Table.get?_insert] at found
    split at found
    · cases found
      exact ⟨rfl, rfl⟩
    · rw [missing] at found
      contradiction
  placed := fun _ none => none.elim

/-- What depends on an origin is there and stale, if no edge leads to a node that is gone. -/
theorem stale (invalidates : graph.Invalidates other origin) (joined : graph.Joined) {node : NodeId}
    (below : graph.Below origin node) : other.Stale node := by
  have there : ∃ present, other.nodes.get? node = some present := by
    obtain ⟨start, starts, reaches⟩ := below
    rcases reaches.cases_tail with rfl | ⟨producer, _, feeds⟩
    · exact invalidates.placed node starts
    · obtain ⟨address, addressed⟩ := (joined producer node feeds).2
      obtain ⟨present, found, _⟩ := Option.map_eq_some_iff.mp addressed
      obtain ⟨cache, still⟩ := invalidates.stays found
      exact ⟨_, still⟩
  obtain ⟨present, found⟩ := there
  refine ⟨present, found, ?_⟩
  cases before : graph.nodes.get? node with
  | none => exact (invalidates.fresh node present before found).1
  | some old =>
      rw [invalidates.dropped node old before below] at found
      cases found
      rfl

end Invalidates

/-! ### Single changes -/

theorem invalidates_ensurePipeline (graph : Graph) {stat : Stat} (silent : stat.behaviors = []) :
    graph.Invalidates (graph.ensurePipeline stat) fun _ => False := by
  rw [ensurePipeline_eq, silent]
  split
  · exact .refl graph
  · exact (Invalidates.refl (graph.openPipeline stat)).of_same rfl rfl rfl

/-- To obtain a node of a stat without behaviors invalidates nothing. -/
theorem invalidates_obtain (formed : graph.WellFormed vocabulary) (stacked : graph.Stacked)
    {stat : Stat} (resolved : stat.isResolved = true) (within : stat.HeadWithin vocabulary)
    (silent : stat.behaviors = []) (stage : Stage) {path : Path} (route : path.Within vocabulary) :
    graph.Invalidates (graph.obtain stat stage path).2 fun _ => False := by
  have ready := advances_ensurePipeline formed stacked resolved within
  obtain ⟨pipeline, opened⟩ := graph.pipeline_ensurePipeline stat
  suffices grown : Advances vocabulary (graph.ensurePipeline stat) (graph.obtain stat stage path).2 ∧
      graph.Invalidates (graph.obtain stat stage path).2 fun _ => False from grown.2
  refine obtain_induction (motive := fun grown => Advances vocabulary (graph.ensurePipeline stat) grown ∧
    graph.Invalidates grown fun _ => False) stage ?_ ?_
  · exact ⟨.refl ready.formed ready.stacked, graph.invalidates_ensurePipeline silent⟩
  · rintro grown other place ⟨advances, invalidates⟩ either fits missing
    refine ⟨advances.addStage opened (within_of_route route either) fits missing, ?_⟩
    have made : grown.Invalidates (grown.addStage stat.id other place).2 fun _ => False :=
      .of_insert advances.formed.fresh rfl rfl rfl
    exact (invalidates.trans made).congr fun _ => or_self_iff

theorem invalidates_introduce (formed : graph.WellFormed vocabulary) (modifier : Modifier) :
    graph.Invalidates (graph.introduce modifier) fun _ => False :=
  .of_insert formed.fresh rfl rfl rfl

/-- While nothing is being calculated, an invalidation drops what depends on its starts. -/
theorem invalidates_invalidateAll (resting : graph.Resting vocabulary) {starts : List NodeId}
    (present : ∀ start ∈ starts, ∃ address, graph.addressOf? start = some address) :
    graph.Invalidates (graph.invalidateAll starts) (· ∈ starts) := by
  have fades := graph.fades_invalidateAll starts
  have dependents (node : NodeId) : node ∈ graph.dependents starts ↔ graph.Below (· ∈ starts) node := by
    rw [mem_dependents_iff]
    refine exists_congr fun start => and_congr_right fun member => and_iff_right ?_
    obtain ⟨address, found⟩ := present start member
    exact contains_of_addressed found
  have idle {node : NodeId} {there : Node} (found : graph.nodes.get? node = some there) :
      there.cache.invalidate = .stale := by
    cases cached : there.cache with
    | computing =>
        have running := (resting.stacked.computing node).mp ⟨there, found, cached⟩
        rw [resting.idle] at running
        exact absurd running List.not_mem_nil
    | stale | ready => rfl
  exact
    { edges := fades.edges
      once := fades.once
      pending := by
        intro node
        rw [pending_invalidateAll, dependents]
      kept := by
        intro node there found apart
        rw [fades.kept node (mt (dependents node).mp apart), found]
      dropped := by
        intro node there found below
        rw [fades.dropped node ((dependents node).mpr below), found, Option.map_some, idle found]
      fresh := by
        intro node there absent found
        have same := fades.contains node
        rw [Table.contains, Table.contains, absent, found] at same
        contradiction
      placed := by
        intro node starting
        obtain ⟨address, found⟩ := present node starting
        rw [← addressOf?_of_shape fades.shape] at found
        obtain ⟨there, placed, _⟩ := Option.map_eq_some_iff.mp found
        exact ⟨there, placed⟩ }

theorem mem_rosterStarts_iff (graph : Graph) (slot : SlotId) (widens : Bool) (node : NodeId) :
    node ∈ graph.rosterStarts slot widens ↔
      graph.node? slot.stat slot.form.stage slot.path = some node ∨
        widens = true ∧ graph.node? slot.stat .uncappedSubtotal .main = some node := by
  cases widens <;> simp [rosterStarts]

theorem node?_changeRoster (graph : Graph) (slot : SlotId) (filled : Slot) (memberships : Nat)
    (change : Delta ModifierId) (widens : Bool) :
    (graph.changeRoster slot filled memberships change widens).node? = graph.node? :=
  (node?_of_shape (graph.shape_changeRoster slot filled memberships change widens)).trans
    (graph.node?_enterRoster slot filled memberships)

/-- A change of a roster invalidates the stage that collects it and, where it widens or narrows the
paths of the stat, the sum over them. -/
theorem invalidates_changeRoster (resting : graph.Resting vocabulary) {slot : SlotId} {filled : Slot}
    (fits : filled.WellFormed vocabulary graph.modifiers slot.stat slot.form slot.path)
    (memberships : Nat) (change : Delta ModifierId) (widens : Bool) :
    graph.Invalidates (graph.changeRoster slot filled memberships change widens)
      (· ∈ graph.rosterStarts slot widens) := by
  have entered : ((graph.enterRoster slot filled memberships).modifyPending
      (·.submitSlot slot change)).Resting vocabulary :=
    { formed := (resting.formed.enterRoster memberships fits).of_shape (shape_modifyPending _ _)
      stacked := ⟨resting.stacked.computing, resting.stacked.distinct, resting.stacked.outdated⟩
      idle := resting.idle }
  refine Invalidates.of_same (invalidates_invalidateAll entered fun start member => ?_) rfl rfl
    (submitSlot_rest _ _ _).1
  rcases (graph.mem_rosterStarts_iff slot widens start).mp member with collects | ⟨_, sums⟩
  · obtain ⟨full, address, _⟩ := resting.formed.address_of_node? collects
    exact ⟨_, address⟩
  · obtain ⟨full, address, _⟩ := resting.formed.address_of_node? sums
    exact ⟨_, address⟩

theorem linkTargets_of_shape (same : other.shape = graph.shape) (source target : StatId) :
    other.linkTargets source target = graph.linkTargets source target := by
  unfold linkTargets
  rw [node?_of_shape same, show other.links = graph.links from congrArg Shape.links same]

/-- A change of a link invalidates what depends on which targets its source feeds. -/
theorem invalidates_relink (resting : graph.Resting vocabulary) {links : Links}
    (formed : links.WellFormed vocabulary) (entry : Record) (source target : StatId) :
    graph.Invalidates (graph.relink links entry source target)
      (· ∈ (graph.relink links entry source target).linkTargets source target) := by
  have linked : ({ graph with links }.record entry).Resting vocabulary :=
    { formed := ({ resting.formed with links := formed } : ({ graph with links } : Graph).WellFormed
        vocabulary).of_shape (shape_record _ _)
      stacked := ⟨resting.stacked.computing, resting.stacked.distinct, resting.stacked.outdated⟩
      idle := resting.idle }
  have same := linkTargets_of_shape (graph.shape_relink links entry source target) source target
  rw [same, relink, linkChanged_eq]
  refine Invalidates.of_same (invalidates_invalidateAll linked fun start member => ?_) rfl rfl rfl
  have located {stat : StatId} {stage : Stage} {path : PathId}
      (found : graph.node? stat stage path = some start) :
      ∃ address, graph.addressOf? start = some address := by
    obtain ⟨full, address, _⟩ := resting.formed.address_of_node? found
    exact ⟨_, address⟩
  rcases (mem_linkTargets_iff _ _ _ _).mp member with retains | ⟨stat, _, sums | converts⟩
  · exact located retains
  · exact located sums
  · exact located converts

/-- The same of the ends of a stat that conveys. -/
theorem invalidates_relinkEnds (resting : graph.Resting vocabulary) {links : Links}
    (formed : links.WellFormed vocabulary) (entry : Record) {stat source target : Stat}
    (ends : stat.ends? = some (source, target)) :
    graph.Invalidates (graph.relink links entry source.id target.id) fun node =>
      ∃ share first second, stat.route? = some (share, first, second) ∧
        node ∈ (graph.relink links entry source.id target.id).linkTargets first second := by
  refine (invalidates_relink resting formed entry source.id target.id).congr fun node => ?_
  obtain ⟨share, conveys⟩ := Stat.conveys_iff.mpr ⟨source, target, ends, rfl, rfl⟩
  simp only [conveys, Option.some.injEq, Prod.mk.injEq]
  constructor
  · exact fun bears => ⟨share, _, _, ⟨rfl, rfl, rfl⟩, bears⟩
  · rintro ⟨_, _, _, ⟨rfl, rfl, rfl⟩, bears⟩
    exact bears

/-- A stat without ends starts nothing by a link. -/
theorem invalidates_unended {stat : Stat} (ends : stat.ends? = none) (graph : Graph) :
    graph.Invalidates graph fun node => ∃ share first second,
      stat.route? = some (share, first, second) ∧ node ∈ graph.linkTargets first second := by
  refine (Invalidates.refl graph).congr fun node => iff_of_false id ?_
  rintro ⟨share, source, target, conveys, _⟩
  rw [Stat.route?_of_ends? ends] at conveys
  contradiction

/-- What a first modifier of a stat starts by linking it. -/
theorem invalidates_linkIf (closed : vocabulary.Closed) (resting : graph.Resting vocabulary)
    (first : Prop) [Decidable first] {stat : Stat} (within : stat.HeadWithin vocabulary) :
    graph.Invalidates (graph.linkIf first stat) fun node => first ∧ ∃ share source target,
      stat.route? = some (share, source, target) ∧
        node ∈ (graph.linkIf first stat).linkTargets source target := by
  unfold linkIf
  by_cases now : first
  · simp only [now, ↓reduceIte, true_and]
    cases ends : stat.ends? with
    | none => exact graph.invalidates_unended ends
    | some both =>
        exact invalidates_relinkEnds resting (resting.formed.links.register closed within) _ ends
  · simp only [now, ↓reduceIte, false_and]
    exact .refl graph

/-- What the last modifier of a stat starts by unlinking it, if it is linked. -/
theorem invalidates_unlinkIf (resting : graph.Resting vocabulary) (last : Prop) [Decidable last]
    {stat : Stat} (linked : last → stat.route?.isSome → (graph.links.unregister? stat).isSome) :
    graph.Invalidates (graph.unlinkIf last stat) fun node => last ∧ ∃ share source target,
      stat.route? = some (share, source, target) ∧
        node ∈ (graph.unlinkIf last stat).linkTargets source target := by
  unfold unlinkIf
  by_cases now : last
  · simp only [now, ↓reduceIte, true_and]
    cases ends : stat.ends? with
    | none => exact graph.invalidates_unended ends
    | some both =>
        obtain ⟨share, conveys⟩ := Stat.conveys_iff.mpr ⟨both.1, both.2, ends, rfl, rfl⟩
        obtain ⟨links, undone⟩ := Option.isSome_iff_exists.mp (linked now (by rw [conveys]; rfl))
        simp only [undone]
        exact invalidates_relinkEnds resting (resting.formed.links.unregister undone) _ ends
  · simp only [now, ↓reduceIte, false_and]
    exact .refl graph

theorem node?_linkIf (graph : Graph) (first : Prop) [Decidable first] (stat : Stat) :
    (graph.linkIf first stat).node? = graph.node? := by
  unfold node?
  rw [pipelines_linkIf]

end Graph
end CharacterSheet
