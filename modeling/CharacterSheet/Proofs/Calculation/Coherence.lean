import CharacterSheet.Proofs.Calculation.Advancing

/-!
Contract: what it means that the cached values of a graph are right.

Owns:
- what a plan yields on cached values alone, and which of them it reads;
- justified values, which their plan yields from exactly the recorded reads;
- grounded values, which rest on cached values all the way down;
- coherent graphs, in which every value is grounded and, unless it is dirty, justified;
- changes of a graph that spare a node, and coherence after such a change;
- how changes join, and how a change joins with the invalidation that follows it.
-/

namespace CharacterSheet

/-- `plan.Yields graph value reads`: run on cached values, the plan ends with `value` after it
read the nodes `reads`. -/
inductive Plan.Yields {α : Type} (graph : Graph) : Plan α → α → List NodeId → Prop
  | finish {value} : Yields graph (.finish (.ok value)) value []
  | note {record next value reads} :
      Yields graph next value reads → Yields graph (.note record next) value reads
  | consult {stat stage path resume value reads} :
      Yields graph (resume (graph.transformsFor stat stage path)) value reads →
      Yields graph (.consult stat stage path resume) value reads
  | read {query resume node cached value reads} : graph.located query = some node →
      graph.known node = some cached → Yields graph (resume (.ok cached)) value reads →
      Yields graph (.ask query resume) value (node :: reads)

theorem Plan.Yields.known {α : Type} {graph : Graph} {plan : Plan α} {value : α}
    {reads : List NodeId} (yields : plan.Yields graph value reads) {node : NodeId}
    (member : node ∈ reads) : ∃ cached, graph.known node = some cached := by
  induction yields with
  | finish => contradiction
  | note _ inductionHypothesis => exact inductionHypothesis member
  | consult _ inductionHypothesis => exact inductionHypothesis member
  | read _ known _ inductionHypothesis =>
      rcases List.mem_cons.mp member with rfl | later
      · exact ⟨_, known⟩
      · exact inductionHypothesis later

theorem Plan.Yields.transfer {vocabulary : Vocabulary} {graph other : Graph} (formed : graph.WellFormed vocabulary)
    {α : Type} {address : Address} {plan : Plan α} {value : α} {reads : List NodeId}
    (yields : plan.Yields graph value reads)
    (asks : plan.Asks (graph.scopeOf vocabulary address))
    (located : ∀ query producer, producer ∈ reads → graph.located query = some producer →
      other.located query = some producer)
    (known : ∀ producer cached, producer ∈ reads → graph.known producer = some cached →
      other.known producer = some cached)
    (transforms : other.transformsOf address = graph.transformsOf address) :
    plan.Yields other value reads := by
  induction yields with
  | finish => exact .finish
  | note _ inductionHypothesis => exact .note (inductionHypothesis asks.2 located known)
  | @consult stat stage path resume value reads _ inductionHypothesis =>
      obtain ⟨⟨full, rfl, rfl⟩, given⟩ := asks
      have same : other.transformsFor stat stage full.id = graph.transformsFor stat stage full.id :=
        transforms
      apply Plan.Yields.consult
      rw [same]
      exact inductionHypothesis (given _ formed.transforms_within) located known
  | read found cached _ inductionHypothesis =>
      refine .read (located _ _ List.mem_cons_self found) (known _ _ List.mem_cons_self cached) ?_
      exact inductionHypothesis (asks.2 _)
        (fun query producer member => located query producer (List.mem_cons_of_mem _ member))
        (fun producer cached member => known producer cached (List.mem_cons_of_mem _ member))

namespace Graph

variable {vocabulary : Vocabulary}

/-- The plan of a node yields a value from exactly the nodes on its incoming edges. -/
def Justified (graph : Graph) (node : NodeId) (value : Option Value) : Prop :=
  ∃ address reads, graph.addressOf? node = some address ∧
    (graph.planOf address).Yields graph value reads ∧
      ∀ producer, producer ∈ reads ↔ graph.Feeds producer node

/-- A cached value that rests on cached values, and those on cached values in turn. -/
inductive Grounded (graph : Graph) : NodeId → Prop
  | intro {node value} : graph.known node = some value →
      (∀ producer, graph.Feeds producer node → Grounded graph producer) → Grounded graph node

theorem Grounded.known {graph : Graph} {node : NodeId} (grounded : graph.Grounded node) :
    ∃ value, graph.known node = some value := by
  cases grounded with
  | intro known _ => exact ⟨_, known⟩

theorem Grounded.producer {graph : Graph} {node producer : NodeId}
    (grounded : graph.Grounded node) (feeds : graph.Feeds producer node) :
    graph.Grounded producer := by
  cases grounded with
  | intro _ below => exact below producer feeds

/-- Every cached value is grounded, and every one outside of the dirty nodes is justified. -/
structure Coherent (graph : Graph) (dirty : NodeId → Prop) : Prop where
  grounded : ∀ node value, graph.known node = some value → graph.Grounded node
  justified : ∀ node value, graph.known node = some value → ¬ dirty node →
    graph.Justified node value

/-- No node is dirty. -/
def Clean (_ : NodeId) : Prop := False

/-- Without cached values there is nothing to be wrong. -/
theorem Coherent.of_unknown {graph : Graph} {dirty : NodeId → Prop}
    (unknown : ∀ node, graph.known node = none) : graph.Coherent dirty where
  grounded node _ known := nomatch (unknown node).symm.trans known
  justified node _ known := nomatch (unknown node).symm.trans known

/-! ### Changes that spare a node -/

/-- All that the value of a node rests on is still there. -/
structure Spares (graph other : Graph) (node : NodeId) : Prop where
  feeds : ∀ producer, other.Feeds producer node ↔ graph.Feeds producer node
  known : ∀ producer cached, graph.Feeds producer node → graph.known producer = some cached →
    other.known producer = some cached
  located : ∀ query producer, graph.Feeds producer node → graph.located query = some producer →
    other.located query = some producer
  view : ∀ address, graph.addressOf? node = some address → other.addressOf? node = some address ∧
    other.planOf address = graph.planOf address ∧
      other.transformsOf address = graph.transformsOf address

theorem Justified.spared {graph other : Graph} (formed : graph.WellFormed vocabulary)
    {node : NodeId} {value : Option Value} (justified : graph.Justified node value)
    (spares : graph.Spares other node) : other.Justified node value := by
  obtain ⟨address, reads, found, yields, exact'⟩ := justified
  obtain ⟨kept, plan, transforms⟩ := spares.view address found
  refine ⟨address, reads, kept, ?_, ?_⟩
  · rw [plan]
    apply Plan.Yields.transfer formed yields (planOf_asks formed found) _ _ transforms
    · intro query producer member located
      exact spares.located query producer ((exact' producer).mp member) located
    · intro producer cached member known
      exact spares.known producer cached ((exact' producer).mp member) known
  · intro producer
    rw [exact', spares.feeds]

/-- A grounded value stays grounded as long as it and the values below it are kept. -/
theorem Grounded.transfer {graph other : Graph}
    (below : ∀ node, graph.Grounded node → (∃ value, other.known node = some value) →
      ∀ producer, other.Feeds producer node →
        graph.Feeds producer node ∧ ∃ value, other.known producer = some value)
    {node : NodeId} (grounded : graph.Grounded node) {value : Option Value}
    (kept : other.known node = some value) : other.Grounded node := by
  induction grounded generalizing value with
  | @intro node _ known producers inductionHypothesis =>
      refine .intro kept ?_
      intro producer feeds
      obtain ⟨before, _, keptBelow⟩ := below node (.intro known producers) ⟨value, kept⟩
        producer feeds
      exact inductionHypothesis producer before keptBelow

/-- A change after which the `affected` nodes have no value, and which spares all others but
the `dirty` ones. -/
structure Alters (graph other : Graph) (affected dirty : NodeId → Prop) : Prop where
  closed : ∀ producer consumer, graph.Feeds producer consumer → affected producer →
    affected consumer
  feeds : ∀ producer node, ¬ affected node →
    (other.Feeds producer node ↔ graph.Feeds producer node)
  known : ∀ node, ¬ affected node → other.known node = graph.known node
  dropped : ∀ node, affected node → other.known node = none
  located : ∀ query node, ¬ affected node → graph.located query = some node →
    other.located query = some node
  addressed : ∀ node address, ¬ affected node → graph.addressOf? node = some address →
    other.addressOf? node = some address
  view : ∀ node address, ¬ affected node → ¬ dirty node → graph.addressOf? node = some address →
    other.planOf address = graph.planOf address ∧
      other.transformsOf address = graph.transformsOf address

namespace Alters

variable {graph other : Graph} {affected dirty : NodeId → Prop}

/-- What feeds a node that is spared is spared. -/
theorem spared (alters : graph.Alters other affected dirty) {producer consumer : NodeId}
    (unaffected : ¬ affected consumer) (feeds : graph.Feeds producer consumer) :
    ¬ affected producer := fun reached => unaffected (alters.closed _ _ feeds reached)

theorem spares (alters : graph.Alters other affected dirty) {node : NodeId}
    (unaffected : ¬ affected node) (clean : ¬ dirty node) : graph.Spares other node where
  feeds := fun producer => alters.feeds producer node unaffected
  known := by
    intro producer cached feeds known
    rw [alters.known producer]
    · exact known
    · exact alters.spared unaffected feeds
  located := by
    intro query producer feeds found
    exact alters.located query producer (alters.spared unaffected feeds) found
  view := by
    intro address found
    exact ⟨alters.addressed node address unaffected found,
      alters.view node address unaffected clean found⟩

/-- A change keeps a graph coherent up to what was dirty before or has become dirty, less what
is affected. -/
theorem coherent (alters : graph.Alters other affected dirty)
    (formed : graph.WellFormed vocabulary) {before after : NodeId → Prop}
    (coherent : graph.Coherent before)
    (covered : ∀ node, before node ∨ dirty node → affected node ∨ after node) :
    other.Coherent after := by
  have kept {node : NodeId} {value : Option Value} (known : other.known node = some value) :
      ¬ affected node := by
    intro reached
    rw [alters.dropped node reached] at known
    contradiction
  constructor
  · intro node value known
    have unaffected := kept known
    rw [alters.known node unaffected] at known
    refine Grounded.transfer ?_ (coherent.grounded node value known)
      (by rw [alters.known node unaffected]; exact known)
    rintro consumer grounded ⟨held, stays⟩ producer feeds
    have untouched := kept stays
    have fed := (alters.feeds producer consumer untouched).mp feeds
    refine ⟨fed, ?_⟩
    rw [alters.known producer (alters.spared untouched fed)]
    exact (grounded.producer fed).known
  · intro node value known clean
    have unaffected := kept known
    have untouched : ¬ (before node ∨ dirty node) := by
      intro dirtied
      rcases covered node dirtied with reached | later
      · exact unaffected reached
      · exact clean later
    rw [not_or] at untouched
    rw [alters.known node unaffected] at known
    exact (coherent.justified node value known untouched.1).spared formed
      (alters.spares unaffected untouched.2)

theorem clean {before : NodeId → Prop} (alters : graph.Alters other affected Clean)
    (formed : graph.WellFormed vocabulary) (coherent : graph.Coherent before) :
    other.Coherent before :=
  alters.coherent formed coherent fun _ dirty => Or.inr (dirty.elim id False.elim)

/-- Only the shape of a graph and what its nodes know matter. -/
theorem of_shape (shape : other.shape = graph.shape) (edges : other.edges = graph.edges)
    (known : other.known = graph.known) : graph.Alters other Clean Clean where
  closed := fun _ _ _ none => none
  feeds := fun _ _ _ => by rw [Feeds, Feeds, edges]
  known := fun node _ => by rw [known]
  dropped := fun _ none => none.elim
  located := fun query node _ found => by rw [located_of_shape shape]; exact found
  addressed := fun node address _ found => by rw [addressOf?_of_shape shape]; exact found
  view := fun _ _ _ _ _ => by
    rw [planOf_of_shape shape, transformsOf_of_shape shape]
    exact ⟨rfl, rfl⟩

theorem of_fades (fades : graph.Fades other affected) : graph.Alters other affected Clean where
  closed := fades.closed
  feeds := fun _ _ _ => by rw [Feeds, Feeds, fades.edges]
  known := fun _ spared => fades.known_kept spared
  dropped := fun _ reached => fades.known_dropped reached
  located := fun query node _ found => by rw [located_of_shape fades.shape]; exact found
  addressed := fun node address _ found => by rw [addressOf?_of_shape fades.shape]; exact found
  view := fun _ _ _ _ _ => by
    rw [planOf_of_shape fades.shape, transformsOf_of_shape fades.shape]
    exact ⟨rfl, rfl⟩

end Alters

theorem alters_record (graph : Graph) (entry : Record) :
    graph.Alters (graph.record entry) Clean Clean :=
  .of_shape (shape_record graph entry) rfl rfl

/-- A change that keeps edges, cached values and the place of every node dirties only the
nodes that calculate something else than before. -/
theorem Alters.of_content {graph other : Graph} {dirty : NodeId → Prop}
    (edges : other.edges = graph.edges)
    (known : ∀ node, other.known node = graph.known node)
    (located : ∀ query node, graph.located query = some node → other.located query = some node)
    (addressed : ∀ node address, graph.addressOf? node = some address →
      other.addressOf? node = some address)
    (view : ∀ node address, ¬ dirty node → graph.addressOf? node = some address →
      other.planOf address = graph.planOf address ∧
        other.transformsOf address = graph.transformsOf address) :
    graph.Alters other Clean dirty where
  closed := fun _ _ _ none => none
  feeds := fun _ _ _ => by rw [Feeds, Feeds, edges]
  known := fun node _ => known node
  dropped := fun _ none => none.elim
  located := fun query node _ found => located query node found
  addressed := fun node address _ found => addressed node address found
  view := fun node address _ clean found => view node address clean found

/-! ### Joining changes -/

section Joining

variable {graph middle other : Graph} {affected dirty more spoilt : NodeId → Prop}

theorem Alters.trans (first : graph.Alters middle affected dirty)
    (second : middle.Alters other more spoilt) :
    graph.Alters other (fun node => affected node ∨ more node)
      fun node => dirty node ∨ spoilt node where
  closed := by
    intro producer consumer feeds reached
    by_cases early : affected consumer
    · exact Or.inl early
    · right
      rcases reached with before | later
      · exact absurd (first.closed producer consumer feeds before) early
      · exact second.closed producer consumer ((first.feeds producer consumer early).mpr feeds)
          later
  feeds := by
    intro producer node spared
    rw [not_or] at spared
    rw [second.feeds producer node spared.2, first.feeds producer node spared.1]
  known := by
    intro node spared
    rw [not_or] at spared
    rw [second.known node spared.2, first.known node spared.1]
  dropped := by
    intro node reached
    by_cases later : more node
    · exact second.dropped node later
    · rw [second.known node later]
      exact first.dropped node (reached.resolve_right later)
  located := by
    intro query node spared found
    rw [not_or] at spared
    exact second.located query node spared.2 (first.located query node spared.1 found)
  addressed := by
    intro node address spared found
    rw [not_or] at spared
    exact second.addressed node address spared.2 (first.addressed node address spared.1 found)
  view := by
    intro node address spared clean found
    rw [not_or] at spared clean
    obtain ⟨plan, transforms⟩ := first.view node address spared.1 clean.1 found
    obtain ⟨later, inForce⟩ := second.view node address spared.2 clean.2
      (first.addressed node address spared.1 found)
    exact ⟨later.trans plan, inForce.trans transforms⟩

/-- What is affected need not be dirty. -/
theorem Alters.absorb (alters : graph.Alters other affected dirty)
    (covered : ∀ node address, graph.addressOf? node = some address → dirty node →
      affected node ∨ spoilt node) : graph.Alters other affected spoilt :=
  { alters with
    view := by
      intro node address spared clean found
      apply alters.view node address spared _ found
      intro dirtied
      exact (covered node address found dirtied).elim spared clean }

/-- A change that affects nothing and leaves nothing dirty adds nothing to the one after it. -/
theorem Alters.clean_trans (first : graph.Alters middle Clean Clean)
    (second : middle.Alters other affected dirty) : graph.Alters other affected dirty := by
  have joined := first.trans second
  have absorbed (held : NodeId → Prop) : (fun node => Clean node ∨ held node) = held := by
    funext node
    simp [Clean]
  rwa [absorbed, absorbed] at joined

/-- A change of what nodes calculate joins with the invalidation of these nodes. -/
theorem Alters.invalidate (alters : graph.Alters middle Clean dirty) (starts : List NodeId)
    (covered : ∀ node address, graph.addressOf? node = some address → dirty node →
      node ∈ starts ∨ spoilt node) :
    graph.Alters (middle.invalidateAll starts) (fun node => node ∈ middle.dependents starts)
      spoilt := by
  have joined := alters.trans (.of_fades (middle.fades_invalidateAll starts))
  have same : (fun node => Clean node ∨ node ∈ middle.dependents starts) =
      fun node => node ∈ middle.dependents starts := by
    funext node
    simp [Clean]
  rw [same] at joined
  apply joined.absorb
  rintro node address found (dirtied | none)
  · rcases covered node address found dirtied with start | later
    · left
      refine (middle.mem_dependents_iff starts node).mpr ⟨node, start, ?_, .refl⟩
      have kept := alters.addressed node address (fun none => none) found
      rw [addressOf?, Option.map_eq_some_iff] at kept
      obtain ⟨present, here, _⟩ := kept
      rw [Table.contains, here]
      rfl
    · exact Or.inr later
  · exact none.elim

/-- A record changes nothing that nodes calculate. -/
theorem Alters.record (alters : graph.Alters middle affected dirty) (entry : Record) :
    graph.Alters (middle.record entry) affected dirty :=
  { alters with
    located := fun query node spared found => by
      rw [located_of_shape (shape_record middle entry)]
      exact alters.located query node spared found
    view := fun node address spared clean found => by
      rw [planOf_of_shape (shape_record middle entry),
        transformsOf_of_shape (shape_record middle entry)]
      exact alters.view node address spared clean found }

end Joining

/-! ### Making a node keeps a graph coherent -/

section Making

variable {graph : Graph}

theorem alters_openPipeline (formed : graph.WellFormed vocabulary) {stat : Stat}
    (grows : graph.Grows (graph.openPipeline stat)) :
    graph.Alters (graph.openPipeline stat) Clean Clean :=
  .of_content rfl (fun _ => rfl) (fun _ _ found => grows.located found)
    (fun _ _ found => grows.addressed found)
    (fun _ _ _ found => ⟨grows.planOf formed found, by
      unfold transformsOf
      rfl⟩)

theorem known_addStage (formed : graph.WellFormed vocabulary) (stat : StatId) (stage : Stage)
    (path : Path) (node : NodeId) :
    (graph.addStage stat stage path).2.known node = graph.known node := by
  simp only [known, addStage, addNode, modifyPipeline, Table.get?_insert]
  split
  · next same =>
    rw [same, formed.fresh]
    rfl
  · rfl

theorem alters_addStage (formed : graph.WellFormed vocabulary) {stat : StatId} {stage : Stage}
    {path : Path} (grows : graph.Grows (graph.addStage stat stage path).2) :
    graph.Alters (graph.addStage stat stage path).2 Clean Clean :=
  .of_content rfl (known_addStage formed stat stage path) (fun _ _ found => grows.located found)
    (fun _ _ found => grows.addressed found)
    (fun _ _ _ found => ⟨grows.planOf formed found, by
      unfold transformsOf
      rfl⟩)

/-- The nodes to which some behaviors apply. -/
theorem mem_behaviorTargets_iff {behavior : Behavior} {node : NodeId} :
    node ∈ graph.behaviorTargets behavior ↔ ∃ stat pipeline stage path,
      graph.pipelines.get? stat = some pipeline ∧ pipeline.nodes.get? (stage, path) = some node ∧
        behavior.appliesTo stat stage path := by
  simp only [behaviorTargets, List.mem_flatMap]
  constructor
  · rintro ⟨stat, affects, member⟩
    split at member
    · next pipeline found =>
      obtain ⟨⟨⟨stage, path⟩, _⟩, listed, rfl⟩ := List.mem_map.mp member
      obtain ⟨inside, applies⟩ := List.mem_filter.mp listed
      exact ⟨stat, pipeline, stage, path, found,
        (Table.get?_eq_some_iff _ _ _).mpr inside, applies⟩
    · contradiction
  · rintro ⟨stat, pipeline, stage, path, found, listed, applies⟩
    have affects : stat ∈ behavior.affects := by
      simp only [Behavior.appliesTo, Bool.and_eq_true, List.contains_iff_mem] at applies
      exact applies.2
    refine ⟨stat, affects, ?_⟩
    rw [found]
    apply List.mem_map.mpr
    exact ⟨((stage, path), node),
      List.mem_filter.mpr ⟨(Table.get?_eq_some_iff _ _ _).mp listed, applies⟩, rfl⟩

/-- The transforms in force, entry by entry. -/
theorem transformsFor_eq (graph : Graph) (stat : StatId) (stage : Stage) (path : PathId) :
    graph.transformsFor stat stage path =
      graph.behaviors.entries.flatMap fun entry =>
        (entry.2.filter (·.appliesTo stat stage path)).map (·.transform) := by
  unfold transformsFor Table.values
  induction graph.behaviors.entries with
  | nil => rfl
  | cons entry rest inductionHypothesis =>
      simp only [List.map_cons, List.flatten_cons, List.filter_append, List.map_append,
        List.flatMap_cons, inductionHypothesis]

/-- A node outside of the targets of some behaviors is not subject to any of them. -/
theorem untargeted (formed : graph.WellFormed vocabulary) {behaviors : List Behavior}
    {node : NodeId} {stat : StatId} {stage : Stage} {path : Path}
    (found : graph.addressOf? node = some (.pipeline stat stage path))
    (missed : node ∉ behaviors.flatMap graph.behaviorTargets) :
    behaviors.filter (·.appliesTo stat stage path.id) = [] := by
  rw [List.filter_eq_nil_iff]
  intro behavior member applies
  apply missed
  obtain ⟨pipeline, here, listed⟩ := formed.named _ _ _ _ found
  exact List.mem_flatMap.mpr ⟨behavior, member,
    mem_behaviorTargets_iff.mpr ⟨stat, pipeline, stage, path.id, here, listed, applies⟩⟩

end Making

end Graph

theorem Table.entries_insert_of_absent {κ α : Type} [DecidableEq κ] {table : Table κ α} {key : κ}
    (absent : table.get? key = none) (value : α) :
    (table.insert key value).entries = table.entries ++ [(key, value)] := by
  obtain ⟨entries, distinct⟩ := table
  simp only [insert, get?] at absent ⊢
  clear distinct
  induction entries with
  | nil => rfl
  | cons entry rest inductionHypothesis =>
      unfold findIn at absent
      split at absent
      · contradiction
      · next other =>
        rw [putIn, if_neg other, inductionHypothesis absent, List.cons_append]

end CharacterSheet
