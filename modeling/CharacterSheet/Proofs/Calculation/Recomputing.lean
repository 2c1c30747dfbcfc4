import CharacterSheet.Proofs.Calculation.Rereading

/-!
Contract: what a node calculates when no cached value is used.

Owns:
- the calculation of a plan from rosters, modifiers, links and behaviors alone, in which every
  read is made anew;
- a grounded value is what such a calculation comes to, from exactly the recorded reads;
- so every cached value is right, whatever operations led to it.
-/

namespace CharacterSheet
namespace Graph

/-! ### Calculating anew -/

/-- The graph with a pipeline for a stat, whose behaviors are not put in force. -/
def opened (graph : Graph) (stat : Stat) : Graph :=
  if graph.pipelines.contains stat.id then graph else graph.openPipeline stat

/-- The name of what a request asks for and what that calculates, or the answer to a request that
is answered at once. -/
def sought (graph : Graph) : Query → Except Reply (NodeName × Plan (Option Value))
  | .node stat stage path =>
      if stat.isResolved then
        let address := ((graph.node? stat.id stage path.id).bind graph.addressOf?).getD
          (.pipeline stat.id stage (path.at stage))
        .ok (address.name, (graph.opened stat).planOf address)
      else .error (.error (.unresolvedReference stat.id))
  | .contribution modifier =>
      if graph.contributions.contains modifier then
        .ok (.contribution modifier, graph.planOf (.contribution modifier))
      else .error (.ok none)

/-- The fault of needing what is being calculated; the stack has the innermost calculation first. -/
def circle (stack : List NodeName) (name : NodeName) : Fault :=
  .cycle (name :: (stack.takeWhile (· ≠ name)).reverse ++ [name])

/-- How the requests of a plan are answered by a calculation for each of them; the names of what
was read are kept. -/
def anew (graph : Graph) (stack : List NodeName)
    (calculate : NodeName → Plan (Option Value) → Option Reply) : Interpreter (List NodeName) where
  answer query reads :=
    match graph.sought query with
    | .error reply => some (reply, reads)
    | .ok (name, plan) =>
        let reading := if name ∈ reads then reads else reads ++ [name]
        if name ∈ stack then some (.error (circle stack name), reading)
        else (calculate name plan).map fun reply => (reply, reading)
  transforms stat stage path _ := graph.transformsFor stat stage path
  record _ reads := reads

/-- What a plan comes to and what it reads if no cached value is used; nothing if its reads nest
deeper than a number of levels. -/
def recompute (graph : Graph) : Nat → List NodeName → Plan (Option Value) →
    Option (Reply × List NodeName)
  | 0, _, _ => none
  | levels + 1, stack, plan =>
      plan.run (graph.anew stack fun name plan =>
        (recompute graph levels (name :: stack) plan).map Prod.fst) []

variable {vocabulary : Vocabulary} {graph base : Graph}

/-! ### Grounded values -/

/-- No grounded value rests on itself. -/
theorem Grounded.irreflexive {node : NodeId} (grounded : graph.Grounded node) :
    ¬ Relation.TransGen graph.Feeds node node := by
  induction grounded with
  | intro _ _ inductionHypothesis =>
      intro circle
      obtain ⟨producer, reaches, feeds⟩ := Relation.TransGen.tail'_iff.mp circle
      exact inductionHypothesis producer feeds (Relation.TransGen.head' feeds reaches)

/-- All that a grounded value rests on is grounded. -/
theorem Grounded.beneath {node lower : NodeId} (grounded : graph.Grounded node)
    (below : Relation.TransGen graph.Feeds lower node) : graph.Grounded lower := by
  induction below using Relation.TransGen.head_induction_on with
  | single feeds => exact grounded.producer feeds
  | head feeds _ higher => exact higher.producer feeds

theorem length_le_size {nodes : List NodeId} (distinct : nodes.Nodup)
    (present : ∀ node ∈ nodes, ∃ address, graph.addressOf? node = some address) :
    nodes.length ≤ graph.nodes.size := by
  have inside : nodes ⊆ graph.nodes.keys := by
    intro node member
    obtain ⟨address, found⟩ := present node member
    obtain ⟨there, here, _⟩ := Option.map_eq_some_iff.mp found
    exact (Table.mem_keys_iff ..).mpr (by rw [here]; rfl)
  calc nodes.length ≤ graph.nodes.keys.length := distinct.length_le_of_subset inside
    _ = graph.nodes.size := List.length_map ..

/-- On another graph, requests come to the plans of the nodes that answer them on this one. -/
structure Mirrors (vocabulary : Vocabulary) (graph base : Graph) : Prop where
  sought : ∀ query node address, (statedScope vocabulary).query query →
    graph.located query = some node → graph.addressOf? node = some address →
      base.sought query = .ok (address.name, graph.planOf address)
  transforms : ∀ stat stage path,
    base.transformsFor stat stage path = graph.transformsFor stat stage path

theorem Mirrors.self (formed : graph.WellFormed vocabulary) : graph.Mirrors vocabulary graph where
  sought := by
    intro query node address _ found place
    cases query with
    | node stat stage path =>
        rw [located] at found
        split at found
        · next resolved =>
          obtain ⟨pipeline, here, _⟩ := Option.bind_eq_some_iff.mp found
          have there : graph.opened stat = graph := by
            rw [opened, if_pos]
            rw [Table.contains, here]
            rfl
          rw [Graph.sought, if_pos resolved, found, Option.bind_some, place, there]
          rfl
        · contradiction
    | contribution modifier =>
        have here : graph.contributions.get? modifier = some node := found
        rw [formed.contributing modifier node here] at place
        cases place
        rw [Graph.sought, if_pos]
        · rfl
        · rw [Table.contains, here]
          rfl
  transforms := fun _ _ _ => rfl

/-- A plan that yields a value yields it anew, if what it reads does. -/
theorem run_anew (mirrors : graph.Mirrors vocabulary base) (formed : graph.WellFormed vocabulary)
    (stack : List NodeName) (calculate : NodeName → Plan (Option Value) → Option Reply)
    {plan : Plan (Option Value)} {value : Option Value} {reads : List NodeId}
    (yields : plan.Yields graph value reads) (asks : plan.Asks (statedScope vocabulary))
    (calculates : ∀ producer ∈ reads, ∀ cached address, graph.known producer = some cached →
      graph.addressOf? producer = some address →
        address.name ∉ stack ∧ calculate address.name (graph.planOf address) = some (.ok cached))
    (before : List NodeName) :
    ∃ names, plan.run (base.anew stack calculate) before = some (.ok value, names) ∧
      ∀ name, name ∈ names ↔ name ∈ before ∨
        ∃ producer ∈ reads, graph.nameOf? producer = some name := by
  induction yields generalizing before with
  | finish => exact ⟨before, rfl, by simp⟩
  | note _ inductionHypothesis => exact inductionHypothesis asks.2 calculates before
  | @consult stat stage path resume _ _ _ inductionHypothesis =>
      have later := inductionHypothesis (asks.2 _ formed.transforms_within) calculates before
      rw [← mirrors.transforms] at later
      exact later
  | @read query resume node cached _ reads found known _ inductionHypothesis =>
      obtain ⟨address, place⟩ := formed.located_addressed found
      obtain ⟨outside, calculated⟩ := calculates node List.mem_cons_self cached address known place
      obtain ⟨names, runs, exact'⟩ := inductionHypothesis (asks.2 (.ok cached))
        (fun producer member => calculates producer (List.mem_cons_of_mem node member))
        (if address.name ∈ before then before else before ++ [address.name])
      refine ⟨names, ?_, fun name => ?_⟩
      · have answered : (base.anew stack calculate).answer query before =
            some (.ok cached, if address.name ∈ before then before else before ++ [address.name]) := by
          simp only [anew, mirrors.sought query node address asks.1 found place, outside, calculated,
            ↓reduceIte, Option.map_some]
        rw [Plan.run, answered]
        exact runs
      · have named := name_of_addressOf? place
        rw [exact']
        simp only [List.exists_mem_cons_iff, named]
        split
        · next listed =>
          constructor
          · exact Or.imp_right Or.inr
          · rintro (before | same | later)
            · exact Or.inl before
            · cases same
              exact Or.inl listed
            · exact Or.inr later
        · rw [List.mem_append, List.mem_singleton, Option.some_inj, or_assoc, eq_comm]

/-- A grounded value comes out of a calculation anew, from exactly the nodes that were read for
it, while only what rests on its node is being calculated. -/
theorem recompute_grounded (mirrors : graph.Mirrors vocabulary base)
    (formed : graph.WellFormed vocabulary) (coherent : graph.Coherent Clean) {node : NodeId}
    (grounded : graph.Grounded node) {value : Option Value} {address : Address}
    (known : graph.known node = some value) (place : graph.addressOf? node = some address)
    {levels : Nat} {above : List NodeId} {stack : List NodeName} (distinct : above.Nodup)
    (resting : ∀ upper ∈ above, Relation.TransGen graph.Feeds node upper ∧
      ∃ address, graph.addressOf? upper = some address)
    (enough : graph.nodes.size < levels + above.length)
    (apart : ∀ lower name, Relation.TransGen graph.Feeds lower node →
      graph.nameOf? lower = some name → name ∉ stack) :
    ∃ names, base.recompute levels (address.name :: stack) (graph.planOf address) =
        some (.ok value, names) ∧
      ∀ name, name ∈ names ↔ ∃ producer, graph.Feeds producer node ∧
        graph.nameOf? producer = some name := by
  induction grounded generalizing value address levels above stack with
  | @intro node _ _ producers inductionHypothesis =>
    have itself : graph.Grounded node := coherent.grounded node value known
    have fresh : (node :: above).Nodup :=
      List.nodup_cons.mpr ⟨fun member => itself.irreflexive (resting node member).1, distinct⟩
    have present : ∀ upper ∈ node :: above, ∃ address, graph.addressOf? upper = some address :=
      List.forall_mem_cons.mpr ⟨⟨address, place⟩, fun upper member => (resting upper member).2⟩
    have bounded : (node :: above).length ≤ graph.nodes.size := length_le_size fresh present
    rw [List.length_cons] at bounded
    obtain ⟨fewer, rfl⟩ : ∃ fewer, levels = fewer + 1 := ⟨levels - 1, by omega⟩
    obtain ⟨again, reads, here, yields, fed⟩ := coherent.justified node value known id
    cases place.symm.trans here
    -- Nothing that the node rests on has its name, or the name of what rests on the node.
    have clear : ∀ lower name, Relation.TransGen graph.Feeds lower node →
        graph.nameOf? lower = some name → name ∉ address.name :: stack := by
      intro lower name below named member
      rcases List.mem_cons.mp member with rfl | member
      · cases formed.named_once named (name_of_addressOf? place)
        exact itself.irreflexive below
      · exact apart lower name below named member
    have calculates : ∀ producer ∈ reads, ∀ cached at',
        graph.known producer = some cached → graph.addressOf? producer = some at' →
          at'.name ∉ address.name :: stack ∧
            (base.recompute fewer (at'.name :: address.name :: stack) (graph.planOf at')).map
              Prod.fst = some (.ok cached) := by
      intro producer member cached at' ready where'
      have feeds : graph.Feeds producer node := (fed producer).mp member
      refine ⟨clear producer _ (.single feeds) (name_of_addressOf? where'), ?_⟩
      obtain ⟨names, runs, _⟩ := inductionHypothesis producer feeds ready where' fresh
        (List.forall_mem_cons.mpr ⟨⟨.single feeds, address, place⟩, fun upper member =>
          ⟨.head feeds (resting upper member).1, (resting upper member).2⟩⟩)
        (show graph.nodes.size < fewer + (above.length + 1) by omega)
        fun lower name below named => clear lower name (below.tail feeds) named
      rw [runs]
      rfl
    obtain ⟨names, runs, listed⟩ := run_anew mirrors formed (address.name :: stack)
      (fun name plan => (base.recompute fewer (name :: address.name :: stack) plan).map Prod.fst)
      yields
      ((planOf_asks formed place).stated formed) calculates []
    refine ⟨names, runs, fun name => ?_⟩
    simp only [listed, List.not_mem_nil, false_or, fed]

end Graph

/-! ### Cached values are right -/

/-- The widest vocabulary in which no fault is swallowed, no behavior changes the total of a path,
and paths for what comes from a single stat have the global source. -/
def Vocabulary.reliable : Vocabulary :=
  .bounding Formula.Propagates
    (fun behavior => behavior.transform.Propagates ∧ Stage.pathTotal ∉ behavior.stages)
    (fun path => path.convertedStat?.isSome → path.source = .global) fun _ => rfl

theorem Vocabulary.closed_reliable : Vocabulary.reliable.Closed :=
  Vocabulary.closed_bounding (fun _ converted => nomatch converted) fun _ _ => rfl

theorem Vocabulary.faithful_reliable : Vocabulary.reliable.Faithful where
  propagating := ⟨fun _ propagates => propagates, fun _ propagates => propagates.1⟩
  global := fun _ global => global

theorem Vocabulary.flat_reliable : Vocabulary.reliable.Flat := fun _ behavior => behavior.2

open CharacterSheet.Graph

/-- Whatever reliable operations came before: a calculation without any cached value comes to the
value that a node has cached, with exactly the reads on the incoming edges of the node, and what
was read has a cached value in turn. So a read never serves a value that is out of date. -/
theorem cached_values_are_right (settings : Settings) (retention : Retention)
    (operations : List Operation) (within : ∀ operation ∈ operations, operation.Within .reliable)
    (node : NodeId) (address : Address) (value : Option Value) :
    let graph := (Sheet.run { settings, retention } operations).graph
    graph.addressOf? node = some address → graph.known node = some value →
      (∀ levels, graph.nodes.size < levels →
        ∃ names, graph.recompute levels [address.name] (graph.planOf address) =
            some (.ok value, names) ∧
          ∀ name, name ∈ names ↔ ∃ producer ∈ graph.producers node,
            graph.nameOf? producer = some name) ∧
      (∀ producer ∈ graph.producers node, ∃ cached, graph.known producer = some cached) ∧
      (graph.valueOf node).1 = .ok value := by
  intro graph place known
  have intact : graph.Intact .reliable :=
    (Sheet.reachable_run (.new settings retention) within).intact Vocabulary.closed_reliable
  have coherent : graph.Coherent Clean :=
    intact.clean Vocabulary.faithful_reliable Vocabulary.flat_reliable
  have grounded : graph.Grounded node := coherent.grounded node value known
  simp only [mem_producers_iff]
  refine ⟨fun levels enough => ?_, fun producer feeds => (grounded.producer feeds).known, ?_⟩
  · exact recompute_grounded (.self intact.formed) intact.formed coherent grounded known place
      .nil (fun _ member => nomatch member) enough fun _ _ _ _ member => nomatch member
  · exact (evaluates_known known (evaluates_valueOf intact.toResting node)).1

/-- A total that a behavior has changed meanwhile is read again, and right. -/
theorem reader_is_right :
    let graph := (Sheet.run {} [.add auraReader, .value aura .total .main,
      .value (.named "Reader") .total .main]).graph
    ∃ names, graph.recompute 33 [.contribution ⟨1⟩] (graph.planOf (.contribution ⟨1⟩)) =
        some (.ok (some (.scalar 1)), names) ∧
      .pipeline (Stat.named "Power").id .total .main ∈ names := by
  intro graph
  have within : ∀ operation ∈ [Operation.add auraReader, .value aura .total .main,
      .value (.named "Reader") .total .main], operation.Within .reliable := by
    have allowed : ∀ behavior ∈ aura.behaviors,
        behavior.transform.Propagates ∧ Stage.pathTotal ∉ behavior.stages :=
      fun behavior member => ⟨aura_propagates behavior member, by
        revert behavior
        decide +kernel⟩
    rintro operation (_ | ⟨_, _ | ⟨_, _ | ⟨_, ⟨⟩⟩⟩⟩)
    · exact auraReader_within_bounding allowed auraReader_propagates
    · exact ⟨(aura_within_bounding allowed).headWithin, .main⟩
    · exact ⟨(named_within_bounding "Reader").headWithin, .main⟩
  have named : (graph.addressOf? ⟨0⟩).map Address.name = some (.contribution ⟨1⟩) := by
    decide +kernel
  obtain ⟨_ | modifier, place, ⟨⟩⟩ := Option.map_eq_some_iff.mp named
  obtain ⟨right, _⟩ := cached_values_are_right {} {} _ within ⟨0⟩ (.contribution ⟨1⟩)
    (some (.scalar 1)) place (by decide +kernel)
  obtain ⟨names, comes, reads⟩ := right 33 (by decide +kernel)
  exact ⟨names, comes, (reads _).mpr ⟨⟨23⟩, by decide +kernel, by decide +kernel⟩⟩

end CharacterSheet
