import CharacterSheet.Proofs.Calculation.Coherence

/-!
Contract: why a node without a value cannot be calculated.

Owns:
- plans that are doomed as long as some nodes have no value, and plans that insist on a
  request;
- sets of stuck nodes, each held back by its own plan or by another node of the set;
- what a change leaves of such a set, and what a node bears: a value, or being stuck.

A set of stuck nodes may run in circles: that is how nodes that read each other in a circle
are stuck. Only the edges that a node has count against it, so whatever could set a stuck
node free reaches it along these edges.
-/

namespace CharacterSheet

namespace Plan

variable {α : Type} {graph other : Graph} {fed barred : NodeId → Prop}

/-- A plan that ends in a fault when fed nodes answer what they know and barred ones a
fault. -/
inductive Doomed (graph : Graph) (fed barred : NodeId → Prop) : Plan α → Prop
  | fault {fault} : Doomed graph fed barred (.finish (.error fault))
  | note {record next} :
      Doomed graph fed barred next → Doomed graph fed barred (.note record next)
  | consult {stat stage path resume} :
      Doomed graph fed barred (resume (graph.transformsFor stat stage path)) →
      Doomed graph fed barred (.consult stat stage path resume)
  | refused {stat stage path resume} : stat.isResolved = false →
      Doomed graph fed barred (.ask (.node stat stage path) resume)
  | barred {query resume node} : graph.located query = some node → fed node → barred node →
      Doomed graph fed barred (.ask query resume)
  | read {query resume node cached} : graph.located query = some node → fed node →
      graph.known node = some cached → Doomed graph fed barred (resume (.ok cached)) →
      Doomed graph fed barred (.ask query resume)

/-- A plan that has no result before it has asked for a certain node. -/
inductive Insists (query : Query) : Plan α → Prop
  | here {resume} : Insists query (.ask query resume)
  | later {other resume} : (∀ value, Insists query (resume (.ok value))) →
      Insists query (.ask other resume)
  | note {record next} : Insists query next → Insists query (.note record next)

/-- Doom passes to another graph with the nodes and values that it rests on. -/
theorem Doomed.transfer {vocabulary : Vocabulary} (formed : graph.WellFormed vocabulary)
    {address : Address} {plan : Plan α} {more : NodeId → Prop}
    (doomed : plan.Doomed graph fed barred)
    (asks : plan.Asks (graph.scopeOf vocabulary address))
    (located : ∀ query producer, fed producer → graph.located query = some producer →
      other.located query = some producer)
    (known : ∀ producer cached, fed producer → graph.known producer = some cached →
      other.known producer = some cached)
    (kept : ∀ producer, fed producer → barred producer → more producer)
    (transforms : other.transformsOf address = graph.transformsOf address) :
    plan.Doomed other fed more := by
  induction doomed with
  | fault => exact .fault
  | note _ inductionHypothesis => exact .note (inductionHypothesis asks.2)
  | @consult stat stage path resume _ inductionHypothesis =>
      obtain ⟨⟨full, rfl, rfl⟩, given⟩ := asks
      have same : other.transformsFor stat stage full.id = graph.transformsFor stat stage full.id :=
        transforms
      apply Doomed.consult
      rw [same]
      exact inductionHypothesis (given _ formed.transforms_within)
  | refused unresolved => exact .refused unresolved
  | barred found feeds bars => exact .barred (located _ _ feeds found) feeds (kept _ feeds bars)
  | read found feeds cached _ inductionHypothesis =>
      exact .read (located _ _ feeds found) feeds (known _ _ feeds cached)
        (inductionHypothesis (asks.2 _))

theorem Doomed.mono {plan : Plan α} {wider more : NodeId → Prop}
    (doomed : plan.Doomed graph fed barred) (feeds : ∀ node, fed node → wider node)
    (bars : ∀ node, barred node → more node) : plan.Doomed graph wider more := by
  induction doomed with
  | fault => exact .fault
  | note _ inductionHypothesis => exact .note inductionHypothesis
  | consult _ inductionHypothesis => exact .consult inductionHypothesis
  | refused unresolved => exact .refused unresolved
  | barred found given missing => exact .barred found (feeds _ given) (bars _ missing)
  | read found given cached _ inductionHypothesis =>
      exact .read found (feeds _ given) cached inductionHypothesis

/-- A plan that yields a value is not doomed, as long as barred nodes know nothing. -/
theorem Doomed.not_yields {plan : Plan α} (unknown : ∀ node, barred node → graph.known node = none)
    (doomed : plan.Doomed graph fed barred) {value : α} {reads : List NodeId} :
    ¬ plan.Yields graph value reads := by
  intro yields
  induction yields with
  | finish => cases doomed
  | note _ inductionHypothesis =>
      cases doomed with
      | note rest => exact inductionHypothesis rest
  | consult _ inductionHypothesis =>
      cases doomed with
      | consult rest => exact inductionHypothesis rest
  | read found cached _ inductionHypothesis =>
      cases doomed with
      | refused unresolved => simp [Graph.located, unresolved] at found
      | barred there _ bars =>
          rw [found] at there
          cases there
          rw [unknown _ bars] at cached
          contradiction
      | read there _ known rest =>
          rw [found] at there
          cases there
          rw [cached] at known
          cases known
          exact inductionHypothesis rest

/-- A plan that insists on a request yields no value unless the node asked for has one. -/
theorem Insists.known {plan : Plan α} {query : Query} (insists : plan.Insists query) {value : α}
    {reads : List NodeId} (yields : plan.Yields graph value reads) :
    ∃ node cached, graph.located query = some node ∧ graph.known node = some cached := by
  induction yields with
  | finish => cases insists
  | note _ inductionHypothesis =>
      cases insists with
      | note rest => exact inductionHypothesis rest
  | consult _ _ => cases insists
  | @read other resume node cached _ _ found known _ inductionHypothesis =>
      cases insists with
      | here => exact ⟨node, cached, found, known⟩
      | later rest => exact inductionHypothesis (rest cached)

end Plan

namespace Graph

variable {vocabulary : Vocabulary} {graph other : Graph}
  {exempt stuck affected dirty : NodeId → Prop}

/-! ### Stuck nodes -/

/-- The plan of a node is doomed by what it read, or insists on a stuck node that it read. -/
def Held (graph : Graph) (stuck : NodeId → Prop) (node : NodeId) : Prop :=
  ∃ address, graph.addressOf? node = some address ∧
    ((graph.planOf address).Doomed graph (graph.Feeds · node) stuck ∨
      ∃ query producer, (graph.planOf address).Insists query ∧
        graph.located query = some producer ∧ graph.Feeds producer node ∧ stuck producer)

/-- None of some nodes knows a value, and all but the exempt ones are held back. -/
def Stalled (graph : Graph) (exempt stuck : NodeId → Prop) : Prop :=
  ∀ node, stuck node → graph.known node = none ∧ (exempt node ∨ graph.Held stuck node)

theorem Held.mono {node : NodeId} {more : NodeId → Prop} (held : graph.Held stuck node)
    (wider : ∀ producer, stuck producer → more producer) : graph.Held more node := by
  obtain ⟨address, found, doomed | ⟨query, producer, insists, located, feeds, bars⟩⟩ := held
  · exact ⟨address, found, Or.inl (doomed.mono (fun _ feeds => feeds) wider)⟩
  · exact ⟨address, found, Or.inr ⟨query, producer, insists, located, feeds, wider _ bars⟩⟩

theorem Stalled.or {more : NodeId → Prop} (first : graph.Stalled exempt stuck)
    (second : graph.Stalled exempt more) :
    graph.Stalled exempt fun node => stuck node ∨ more node := by
  rintro node (early | late)
  · exact ⟨(first node early).1, (first node early).2.imp_right (·.mono fun _ => Or.inl)⟩
  · exact ⟨(second node late).1, (second node late).2.imp_right (·.mono fun _ => Or.inr)⟩

theorem Held.spared (formed : graph.WellFormed vocabulary) {node : NodeId}
    {more : NodeId → Prop} (held : graph.Held stuck node) (spares : graph.Spares other node)
    (kept : ∀ producer, graph.Feeds producer node → stuck producer → more producer) :
    other.Held more node := by
  obtain ⟨address, found, held⟩ := held
  obtain ⟨kept', plan, transforms⟩ := spares.view address found
  refine ⟨address, kept', ?_⟩
  rw [plan]
  rcases held with doomed | ⟨query, producer, insists, located, feeds, bars⟩
  · left
    apply Plan.Doomed.mono _ (fun producer => (spares.feeds producer).mpr) fun _ bars => bars
    exact doomed.transfer formed (planOf_asks formed found) (fun query producer =>
      spares.located query producer) spares.known kept transforms
  · exact Or.inr ⟨query, producer, insists, spares.located query producer feeds located,
      (spares.feeds producer).mpr feeds, kept producer feeds bars⟩

/-- What a change does not affect stays stuck. -/
theorem Stalled.alter (formed : graph.WellFormed vocabulary) {more : NodeId → Prop}
    (stalled : graph.Stalled exempt stuck) (alters : graph.Alters other affected dirty)
    (covered : ∀ node, stuck node → ¬ affected node → exempt node ∨ dirty node → more node) :
    other.Stalled more fun node => stuck node ∧ ¬ affected node := by
  rintro node ⟨here, unaffected⟩
  obtain ⟨unknown, held⟩ := stalled node here
  refine ⟨by rw [alters.known node unaffected]; exact unknown, ?_⟩
  rcases held with spared | held
  · exact Or.inl (covered node here unaffected (Or.inl spared))
  · by_cases dirtied : dirty node
    · exact Or.inl (covered node here unaffected (Or.inr dirtied))
    · right
      apply held.spared formed (alters.spares unaffected dirtied)
      intro producer feeds bars
      exact ⟨bars, alters.spared unaffected feeds⟩

/-- A node that cannot be calculated. -/
def Stuck (graph : Graph) (node : NodeId) : Prop :=
  ∃ stuck, graph.Stalled Clean stuck ∧ stuck node

/-- What a node bears: a value, or, without one, being stuck. -/
def Bears (graph : Graph) (node : NodeId) : Option (Option Value) → Prop
  | some value => graph.known node = some value
  | none => graph.Stuck node

theorem Bears.alter (formed : graph.WellFormed vocabulary) {node : NodeId}
    {outcome : Option (Option Value)} (bears : graph.Bears node outcome)
    (alters : graph.Alters other affected Clean) (unaffected : ¬ affected node) :
    other.Bears node outcome := by
  cases outcome with
  | some value =>
      show other.known node = some value
      rw [alters.known node unaffected]
      exact bears
  | none =>
      obtain ⟨stuck, stalled, here⟩ := bears
      exact ⟨_, stalled.alter formed alters fun _ _ _ none => none.elim id id, here, unaffected⟩

end Graph
end CharacterSheet
