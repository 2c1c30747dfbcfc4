import CharacterSheet.Proofs.Invalidation.Fading
import CharacterSheet.Proofs.Calculation.Runs
import CharacterSheet.Proofs.Calculation.Stages

/-!
Contract: reads only let a graph grow.

Owns:
- extension and growth: nodes, pipelines, rosters and subscriptions stay, up to cached values
  and edges;
- the stack of calculations that are going on, and which of them are outdated;
- the steps by which a requested node is made, each of which grows a well-formed graph;
- every calculation and every run of a plan advances a well-formed graph.
-/

namespace CharacterSheet

theorem PathOf.id_at (path : Path) (stage : Stage) : (path.at stage).id = path.id.at stage := by
  unfold PathOf.at
  split <;> rfl

theorem PathOf.at_at {σ : Type} (path : PathOf σ) (stage : Stage) :
    (path.at stage).at stage = path.at stage := by
  unfold PathOf.at
  split <;> rfl

theorem PathOf.at_cases {σ : Type} (path : PathOf σ) (stage : Stage) :
    path.at stage = path ∨ path.at stage = .main := by
  unfold PathOf.at
  split
  · exact Or.inr rfl
  · exact Or.inl rfl

namespace Graph

variable {vocabulary : Vocabulary}

/-- What has been announced, in order. -/
def announcements (graph : Graph) : List Record := graph.journal.filter Record.isAnnouncement

theorem announcements_record {graph : Graph} {entry : Record}
    (inward : entry.isAnnouncement = false) : (graph.record entry).announcements = graph.announcements := by
  simp [announcements, record, inward]

/-! ### Growth -/

/-- All nodes, rosters and subscriptions stay; values, edges and new nodes may differ. -/
structure Extends (graph other : Graph) : Prop where
  nodes : ∀ node present, graph.nodes.get? node = some present →
    ∃ cache, other.nodes.get? node = some { present with cache }
  unwatched : ∀ node present, other.nodes.get? node = some present →
    graph.nodes.get? node = none → present.subscribers = []
  pipelines : ∀ stat pipeline, graph.pipelines.get? stat = some pipeline →
    ∃ nodes, other.pipelines.get? stat = some { pipeline with nodes } ∧
      ∀ key node, pipeline.nodes.get? key = some node → nodes.get? key = some node
  opened : ∀ stat pipeline, other.pipelines.get? stat = some pipeline →
    graph.pipelines.get? stat = none → pipeline.slots = .empty ∧ pipeline.memberships = 0
  modifiers : other.modifiers = graph.modifiers
  contributions : other.contributions = graph.contributions
  links : other.links = graph.links
  subscriptions : other.subscriptions = graph.subscriptions
  lastSubscription : other.lastSubscription = graph.lastSubscription
  registered : other.registered = graph.registered
  next : graph.nextNode ≤ other.nextNode

/-- A graph that is extended while nothing is announced; what waits to be announced goes on
waiting. -/
structure Grows (graph other : Graph) : Prop extends graph.Extends other where
  announcements : other.announcements = graph.announcements
  depth : other.pending.depth = graph.pending.depth
  slots : other.pending.slots = graph.pending.slots
  pending : ∀ node ∈ graph.pending.nodes, node ∈ other.pending.nodes
  once : graph.pending.nodes.Nodup → other.pending.nodes.Nodup

namespace Extends

variable {graph middle other : Graph}

theorem refl (graph : Graph) : graph.Extends graph where
  nodes := fun _ present found => ⟨present.cache, found⟩
  unwatched := by
    intro node present found missing
    rw [missing] at found
    contradiction
  pipelines := fun _ pipeline found => ⟨pipeline.nodes, found, fun _ _ listed => listed⟩
  opened := by
    intro stat pipeline found missing
    rw [missing] at found
    contradiction
  modifiers := rfl
  contributions := rfl
  links := rfl
  subscriptions := rfl
  lastSubscription := rfl
  registered := rfl
  next := Nat.le_refl _

theorem trans (first : graph.Extends middle) (second : middle.Extends other) :
    graph.Extends other where
  nodes := by
    intro node present found
    obtain ⟨_, between⟩ := first.nodes node present found
    obtain ⟨cache, later⟩ := second.nodes node _ between
    exact ⟨cache, later⟩
  unwatched := by
    intro node present found missing
    cases between : middle.nodes.get? node with
    | none => exact second.unwatched node present found between
    | some earlier =>
        obtain ⟨cache, same⟩ := second.nodes node earlier between
        rw [same] at found
        cases found
        exact first.unwatched node earlier between missing
  pipelines := by
    intro stat pipeline found
    obtain ⟨nodes, between, kept⟩ := first.pipelines stat pipeline found
    obtain ⟨more, later, keptLater⟩ := second.pipelines stat _ between
    exact ⟨more, later, fun key node listed => keptLater key node (kept key node listed)⟩
  opened := by
    intro stat pipeline found missing
    cases between : middle.pipelines.get? stat with
    | none => exact second.opened stat pipeline found between
    | some earlier =>
        obtain ⟨nodes, same, _⟩ := second.pipelines stat earlier between
        rw [same] at found
        cases found
        exact first.opened stat earlier between missing
  modifiers := by rw [second.modifiers, first.modifiers]
  contributions := by rw [second.contributions, first.contributions]
  links := by rw [second.links, first.links]
  subscriptions := by rw [second.subscriptions, first.subscriptions]
  lastSubscription := by rw [second.lastSubscription, first.lastSubscription]
  registered := by rw [second.registered, first.registered]
  next := Nat.le_trans first.next second.next

theorem addressed (larger : graph.Extends other) {node : NodeId} {address : Address}
    (found : graph.addressOf? node = some address) : other.addressOf? node = some address := by
  rw [addressOf?, Option.map_eq_some_iff] at found
  obtain ⟨present, here, rfl⟩ := found
  obtain ⟨cache, later⟩ := larger.nodes node present here
  rw [addressOf?, later]
  rfl

theorem node? (larger : graph.Extends other) {stat : StatId} {stage : Stage} {path : PathId}
    {node : NodeId} (found : graph.node? stat stage path = some node) :
    other.node? stat stage path = some node := by
  rw [Graph.node?, Option.bind_eq_some_iff] at found
  obtain ⟨pipeline, here, listed⟩ := found
  obtain ⟨nodes, later, kept⟩ := larger.pipelines stat pipeline here
  rw [Graph.node?, later]
  exact kept _ _ listed

theorem located (larger : graph.Extends other) {query : Query} {node : NodeId}
    (found : graph.located query = some node) : other.located query = some node := by
  cases query with
  | node stat stage path =>
      simp only [Graph.located] at found ⊢
      split at found
      · next resolved =>
        rw [if_pos resolved]
        exact larger.node? found
      · contradiction
  | contribution modifier =>
      simp only [Graph.located, larger.contributions] at found ⊢
      exact found

theorem members (larger : graph.Extends other) (stat : StatId) (form : Form) (path : PathId) :
    other.members stat form path = graph.members stat form path := by
  unfold Graph.members
  cases found : graph.pipelines.get? stat with
  | some pipeline =>
      obtain ⟨nodes, later, _⟩ := larger.pipelines stat pipeline found
      rw [later]
      rfl
  | none =>
      cases later : other.pipelines.get? stat with
      | none => rfl
      | some pipeline =>
          have empty := (larger.opened stat pipeline later found).1
          simp only [Pipeline.members, empty]
          rfl

theorem paths (larger : graph.Extends other) (stat : StatId) :
    other.paths stat = graph.paths stat := by
  unfold Graph.paths
  rw [larger.links]
  cases found : graph.pipelines.get? stat with
  | some pipeline =>
      obtain ⟨nodes, later, _⟩ := larger.pipelines stat pipeline found
      rw [later]
      rfl
  | none =>
      cases later : other.pipelines.get? stat with
      | none => rfl
      | some pipeline =>
          have empty := (larger.opened stat pipeline later found).1
          simp only [Pipeline.ownPaths, empty]
          rfl

theorem enrolls (larger : graph.Extends other) {address : Address} {modifier : ModifierId} :
    other.Enrolls address modifier ↔ graph.Enrolls address modifier := by
  cases address with
  | pipeline stat stage path => simp only [Enrolls, larger.members]
  | contribution own => exact Iff.rfl

theorem keeps (larger : graph.Extends other) {stat : Stat} (kept : graph.Keeps stat) :
    other.Keeps stat := by
  obtain ⟨pipeline, found, same⟩ := kept
  obtain ⟨nodes, later, _⟩ := larger.pipelines _ pipeline found
  exact ⟨_, later, same⟩

/-- Nodes go on calculating the same. -/
theorem planOf (larger : graph.Extends other) (formed : graph.WellFormed vocabulary)
    {node : NodeId} {address : Address} (found : graph.addressOf? node = some address) :
    other.planOf address = graph.planOf address := by
  cases address with
  | contribution modifier => simp only [Graph.planOf, larger.modifiers]
  | pipeline stat stage path =>
      obtain ⟨pipeline, here, inside⟩ := formed.named _ _ _ _ found
      obtain ⟨_, _, _, place⟩ := formed.listed _ _ _ _ _ here inside
      apply planOf_congr _ place
      · intro other there
        exact (formed.pipelines stat other there).keyed
      · obtain ⟨nodes, later, _⟩ := larger.pipelines stat pipeline here
        constructor
        · rw [here, later]
          rfl
        · intro form _
          exact larger.members stat form path.id
        · intro _ member _
          simp only [priorityOf, larger.modifiers]
        · intro _ source _
          rw [larger.links]
          exact ⟨rfl, Or.inl rfl⟩
        · intro _ _
          rw [larger.links]
          exact ⟨rfl, rfl⟩
        · intro _
          exact larger.paths stat

end Extends

namespace Grows

variable {graph middle other : Graph}

theorem refl (graph : Graph) : graph.Grows graph where
  toExtends := .refl graph
  announcements := rfl
  depth := rfl
  slots := rfl
  pending := fun _ member => member
  once := fun distinct => distinct

theorem trans (first : graph.Grows middle) (second : middle.Grows other) : graph.Grows other where
  toExtends := first.toExtends.trans second.toExtends
  announcements := by rw [second.announcements, first.announcements]
  depth := by rw [second.depth, first.depth]
  slots := by rw [second.slots, first.slots]
  pending := fun node member => second.pending node (first.pending node member)
  once := fun distinct => second.once (first.once distinct)

theorem of_fades {affected : NodeId → Prop} (fades : graph.Fades other affected) :
    graph.Grows other where
  nodes := by
    intro node present found
    by_cases reached : affected node
    · exact ⟨present.cache.invalidate, by rw [fades.dropped node reached, found]; rfl⟩
    · exact ⟨present.cache, by rw [fades.kept node reached]; exact found⟩
  unwatched := by
    intro node present found missing
    by_cases reached : affected node
    · rw [fades.dropped node reached, missing] at found
      contradiction
    · rw [fades.kept node reached, missing] at found
      contradiction
  pipelines := by
    intro stat pipeline found
    refine ⟨pipeline.nodes, ?_, fun _ _ listed => listed⟩
    rw [show other.pipelines = graph.pipelines from congrArg Shape.pipelines fades.shape]
    exact found
  opened := by
    intro stat pipeline found missing
    rw [show other.pipelines = graph.pipelines from congrArg Shape.pipelines fades.shape,
      missing] at found
    contradiction
  modifiers := congrArg Shape.modifiers fades.shape
  contributions := congrArg Shape.contributions fades.shape
  links := congrArg Shape.links fades.shape
  subscriptions := fades.subscriptions
  lastSubscription := fades.lastSubscription
  registered := fades.registered
  next := Nat.le_of_eq (congrArg Shape.nextNode fades.shape).symm
  announcements := congrArg (List.filter Record.isAnnouncement) fades.journal
  depth := fades.depth
  slots := fades.slots
  pending := fades.pending
  once := fades.once

end Grows

/-! ### Calculations that are going on -/

/-- The nodes being calculated are those on the stack, once each, and only those can be
outdated. -/
structure Stacked (graph : Graph) : Prop where
  computing : ∀ node, (∃ present, graph.nodes.get? node = some present ∧
    present.cache = .computing) ↔ node ∈ graph.evaluating
  distinct : graph.evaluating.Nodup
  outdated : ∀ node ∈ graph.outdated, node ∈ graph.evaluating

theorem Stacked.of_fades {graph other : Graph} {affected : NodeId → Prop}
    (stacked : graph.Stacked) (fades : graph.Fades other affected) : other.Stacked where
  computing := by
    intro node
    rw [fades.evaluating, ← stacked.computing]
    by_cases reached : affected node
    · rw [fades.dropped node reached]
      cases graph.nodes.get? node with
      | none => simp
      | some present => cases cached : present.cache <;> simp [Cache.invalidate, cached]
    · rw [fades.kept node reached]
  distinct := fades.evaluating ▸ stacked.distinct
  outdated := by
    intro node member
    rw [fades.evaluating]
    rcases fades.outdated node member with before | running
    · exact stacked.outdated node before
    · exact running

/-- A graph after some reads: it has grown, and the calculations that were going on still
are. -/
structure Advances (vocabulary : Vocabulary) (graph other : Graph) : Prop where
  formed : other.WellFormed vocabulary
  stacked : other.Stacked
  grows : graph.Grows other
  evaluating : other.evaluating = graph.evaluating
  noted : ∀ node ∈ graph.evaluating, node ∈ graph.outdated → node ∈ other.outdated

namespace Advances

variable {graph middle other : Graph}

theorem refl (formed : graph.WellFormed vocabulary) (stacked : graph.Stacked) :
    Advances vocabulary graph graph :=
  ⟨formed, stacked, .refl graph, rfl, fun _ _ noted => noted⟩

theorem trans (first : Advances vocabulary graph middle)
    (second : Advances vocabulary middle other) : Advances vocabulary graph other where
  formed := second.formed
  stacked := second.stacked
  grows := first.grows.trans second.grows
  evaluating := by rw [second.evaluating, first.evaluating]
  noted := by
    intro node running noted
    apply second.noted node
    · rw [first.evaluating]
      exact running
    · exact first.noted node running noted

theorem of_fades {affected : NodeId → Prop} (formed : graph.WellFormed vocabulary)
    (stacked : graph.Stacked) (fades : graph.Fades other affected) :
    Advances vocabulary graph other where
  formed := formed.of_shape fades.shape
  stacked := stacked.of_fades fades
  grows := .of_fades fades
  evaluating := fades.evaluating
  noted := fun node _ noted => fades.noted node noted

theorem record (formed : graph.WellFormed vocabulary) (stacked : graph.Stacked) {entry : Record}
    (inward : entry.isAnnouncement = false) : Advances vocabulary graph (graph.record entry) where
  formed := formed.of_shape (shape_record graph entry)
  stacked := ⟨stacked.computing, stacked.distinct, stacked.outdated⟩
  grows := { Grows.refl graph with announcements := announcements_record inward }
  evaluating := rfl
  noted := fun _ _ noted => noted

end Advances

end Graph
end CharacterSheet
