import CharacterSheet.Proofs.Calculation.Evaluation

/-!
Contract: which edges a graph can have.

Owns:
- wired graphs: edges join nodes that exist, and whatever reads the contribution of a
  modifier collects that modifier;
- the proof that reads and calculations keep a graph wired.
-/

namespace CharacterSheet
namespace Graph

variable {vocabulary : Vocabulary} {graph other : Graph}

/-- Edges join existing nodes, and contributions are read only where they are collected. -/
structure Wired (graph : Graph) : Prop where
  producer : ∀ producer consumer, graph.Feeds producer consumer →
    ∃ address, graph.addressOf? producer = some address
  enrolled : ∀ producer consumer, graph.Feeds producer consumer →
    ∃ address, graph.addressOf? consumer = some address ∧
      ∀ modifier, graph.addressOf? producer = some (.contribution modifier) →
        graph.Enrolls address modifier

/-- Edges join existing nodes. -/
def Joined (graph : Graph) : Prop :=
  ∀ producer consumer, graph.Feeds producer consumer →
    (∃ address, graph.addressOf? producer = some address) ∧
      ∃ address, graph.addressOf? consumer = some address

theorem Wired.joined (wired : graph.Wired) : graph.Joined := by
  intro producer consumer feeds
  obtain ⟨address, found, _⟩ := wired.enrolled producer consumer feeds
  exact ⟨wired.producer producer consumer feeds, address, found⟩

/-- Only edges, addresses and what nodes collect matter. -/
theorem Wired.keep (wired : graph.Wired)
    (edges : ∀ producer consumer, other.Feeds producer consumer → graph.Feeds producer consumer)
    (addressed : ∀ producer consumer, other.Feeds producer consumer →
      other.addressOf? producer = graph.addressOf? producer ∧
        other.addressOf? consumer = graph.addressOf? consumer)
    (enrolls : ∀ producer consumer address modifier, other.Feeds producer consumer →
      graph.addressOf? producer = some (.contribution modifier) →
        graph.Enrolls address modifier → other.Enrolls address modifier) : other.Wired where
  producer := by
    intro producer consumer feeds
    rw [(addressed _ _ feeds).1]
    exact wired.producer producer consumer (edges _ _ feeds)
  enrolled := by
    intro producer consumer feeds
    rw [(addressed _ _ feeds).1, (addressed _ _ feeds).2]
    obtain ⟨address, found, collects⟩ := wired.enrolled producer consumer (edges _ _ feeds)
    exact ⟨address, found, fun modifier contributes =>
      enrolls producer consumer address modifier feeds contributes (collects modifier contributes)⟩

theorem Wired.grow (wired : graph.Wired) (grows : graph.Grows other)
    (edges : other.edges = graph.edges) : other.Wired := by
  refine wired.keep (fun _ _ feeds => ?_) (fun producer consumer feeds => ?_)
    fun _ _ _ _ _ _ => grows.enrolls.mpr
  · rw [Feeds, edges] at feeds
    exact feeds
  · rw [Feeds, edges] at feeds
    obtain ⟨first, here⟩ := wired.producer producer consumer feeds
    obtain ⟨second, there, _⟩ := wired.enrolled producer consumer feeds
    exact ⟨(grows.addressed here).trans here.symm, (grows.addressed there).trans there.symm⟩

theorem enrolls_of_shape (same : other.shape = graph.shape) {address : Address}
    {modifier : ModifierId} : other.Enrolls address modifier ↔ graph.Enrolls address modifier := by
  cases address with
  | contribution own => exact Iff.rfl
  | pipeline stat stage path =>
      simp only [Enrolls, members, show other.pipelines = graph.pipelines from
        congrArg Shape.pipelines same]

/-- A request of a plan that finds a contribution finds one that the node collects. -/
theorem WellFormed.collects (grown : other.WellFormed vocabulary) {address : Address}
    {query : Query} {node : NodeId} {modifier : ModifierId}
    (asked : (graph.scopeOf vocabulary address).query query)
    (found : other.located query = some node)
    (contributes : other.addressOf? node = some (.contribution modifier)) :
    graph.Enrolls address modifier := by
  cases query with
  | node stat stage path =>
      simp only [located] at found
      split at found
      · rw [node?, Option.bind_eq_some_iff] at found
        obtain ⟨pipeline, here, listed⟩ := found
        obtain ⟨full, place, _⟩ := grown.listed _ _ _ _ _ here listed
        rw [place] at contributes
        cases contributes
      · contradiction
  | contribution own =>
      have place := grown.contributing _ _ found
      rw [place] at contributes
      cases contributes
      exact asked

theorem edges_ensurePipeline (graph : Graph) (stat : Stat) :
    (graph.ensurePipeline stat).edges = graph.edges := by
  rw [ensurePipeline_eq]
  split
  · rfl
  · split
    · rfl
    · rw [enforce, invalidateTargets_eq, (fades_invalidateAll _ _).edges]
      rfl

theorem edges_obtain (graph : Graph) (stat : Stat) (stage : Stage) (path : Path) :
    (graph.obtain stat stage path).2.edges = graph.edges := by
  apply obtain_induction (motive := fun grown => grown.edges = graph.edges)
  · exact graph.edges_ensurePipeline stat
  · intro grown other place same _ _ _
    exact same

theorem edges_locate (graph : Graph) (query : Query) :
    (graph.locate query).2.edges = graph.edges := by
  cases query with
  | node stat stage path =>
      rw [locate_node]
      split
      · exact graph.edges_obtain stat stage path
      · rfl
  | contribution modifier =>
      rw [locate_contribution]
      split <;> rfl

end Graph

open CharacterSheet.Graph

section Induction

variable {vocabulary : Vocabulary}

mutual

/-- A calculation keeps a graph wired. -/
theorem Evaluates.wired {node : NodeId} {graph after : Graph} {reply : Reply} :
    Evaluates node graph reply after → graph.WellFormed vocabulary → graph.Stacked →
      graph.Wired → after.Wired
  | .absent _, _, _, wired => wired
  | .cached _ _, _, _, wired => wired
  | .circular _ _, _, _, wired => wired
  | @Evaluates.calculated _ _ present _ frame found stale runs, formed, stacked, wired => by
      have entered := formed.enter node
      have enteredStack := stacked.enter found stale
      have address := addressOf?_enter found
      have asks := planOf_asks entered address
      have advances := runs.advances entered enteredStack (asks.stated entered)
      obtain ⟨inner, reads⟩ := runs.wired entered enteredStack
        (wired.grow (grows_enter graph node) rfl) asks
      have kept := advances.grows.addressed address
      constructor
      · intro producer consumer feeds
        rw [addressOf?_of_shape (shape_leave _ _ _ _)]
        rw [feeds_leave] at feeds
        split at feeds
        · obtain ⟨there, here⟩ := Option.isSome_iff_exists.mp feeds.2
          exact ⟨there.address, addressOf?_of_get? here⟩
        · exact inner.producer producer consumer feeds
      · intro producer consumer feeds
        rw [addressOf?_of_shape (shape_leave _ _ _ _)]
        rw [feeds_leave] at feeds
        split at feeds
        · next own =>
          subst own
          refine ⟨present.address, kept, ?_⟩
          intro modifier contributes
          rcases reads producer feeds.1 with before | collects
          · contradiction
          · exact (enrolls_of_shape (shape_leave _ _ _ _)).mpr
              (advances.grows.enrolls.mpr (collects modifier contributes))
        · obtain ⟨own, here, enrolls⟩ := inner.enrolled producer consumer feeds
          refine ⟨own, here, ?_⟩
          intro modifier contributes
          exact (enrolls_of_shape (shape_leave _ _ _ _)).mpr (enrolls modifier contributes)

/-- The run of a plan keeps a graph wired and reads contributions only where they are
collected. -/
theorem Runs.wired {plan : Plan (Option Value)} {frame after : Frame} {reply : Reply}
    {address : Address} :
    Runs plan frame reply after → frame.graph.WellFormed vocabulary → frame.graph.Stacked →
      frame.graph.Wired → plan.Asks (frame.graph.scopeOf vocabulary address) →
        after.graph.Wired ∧ ∀ producer ∈ after.reads, producer ∈ frame.reads ∨
          ∀ modifier, after.graph.addressOf? producer = some (.contribution modifier) →
            frame.graph.Enrolls address modifier
  | .finish, _, _, wired, _ => ⟨wired, fun _ => Or.inl⟩
  | .note rest, formed, stacked, wired, asks => by
      have noted := Advances.record formed stacked (Record.inward_of_note asks.1)
      exact rest.wired noted.formed noted.stacked (wired.grow noted.grows rfl)
        (Asks.grow noted.grows asks.2)
  | .consult rest, formed, stacked, wired, asks => by
      exact rest.wired formed stacked wired (asks.2 _ formed.transforms_within)
  | .answered refused rest, formed, stacked, wired, asks => by
      have same := (refused_locate refused).1
      have later := rest.wired (same ▸ formed) (same ▸ stacked) (same ▸ wired)
        (same ▸ asks.2 _)
      rw [same] at later
      exact later
  | @Runs.read query resume frame located grown answer graph _ after here evaluates rest, formed,
      stacked, wired, asks => by
      have stated := stated_of_scopeOf formed asks.1
      have making := advances_locate formed stacked stated
      have edges := frame.graph.edges_locate query
      rw [here] at making edges
      have place := located_locate formed stacked stated here
      have evaluated := evaluates.advances making.formed making.stacked
      have reached := making.trans evaluated
      have calculated := evaluates.wired making.formed making.stacked (wired.grow making.grows edges)
      have restAsks := Asks.grow reached.grows (asks.2 answer)
      obtain ⟨wiredAfter, reads⟩ := rest.wired evaluated.formed evaluated.stacked calculated restAsks
      refine ⟨wiredAfter, ?_⟩
      intro producer member
      rcases reads producer member with before | collects
      · rw [Frame.mem_reads_after] at before
        rcases before with earlier | rfl
        · exact Or.inl earlier
        · right
          intro modifier contributes
          have last := rest.advances evaluated.formed evaluated.stacked
            (Plan.Asks.stated evaluated.formed restAsks)
          have found := making.formed.located_addressed place
          obtain ⟨own, before⟩ := found
          rw [last.grows.addressed (evaluated.grows.addressed before)] at contributes
          cases contributes
          exact making.formed.collects asks.1 place before
      · right
        intro modifier contributes
        exact reached.grows.enrolls.mp (collects modifier contributes)

end

end Induction

end CharacterSheet
