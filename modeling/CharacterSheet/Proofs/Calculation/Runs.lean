import CharacterSheet.Graph.Evaluate

/-!
Contract: what it means that a node is calculated, without levels and interpreters.

Owns:
- the making of a requested node, as a step of its own;
- the relation between a node, the graph before its calculation, the reply and the graph
  after it, and the same for the run of a plan;
- every calculation with a number of levels is such a calculation, and runs a plan only for a node that
  is stale.
-/

namespace CharacterSheet

namespace Frame

/-- The frame after a node was read. -/
def after (frame : Frame) (node : NodeId) (graph : Graph) : Frame :=
  { frame.addRead node with graph }

theorem mem_reads_after (frame : Frame) (node other : NodeId) (graph : Graph) :
    other ∈ (frame.after node graph).reads ↔ other ∈ frame.reads ∨ other = node := by
  unfold after addRead
  split
  · next present =>
    constructor
    · exact Or.inl
    · rintro (before | rfl)
      · exact before
      · exact present
  · simp

end Frame

namespace Graph

/-- Find or make the node that answers a request; a request without a node has a reply of
its own. -/
def locate (graph : Graph) : Query → Except Reply NodeId × Graph
  | .node stat stage path =>
      match graph.obtain? stat stage path with
      | (.error fault, same) => (.error (.error fault), same)
      | (.ok node, grown) => (.ok node, grown)
  | .contribution modifier =>
      match graph.contributions.get? modifier with
      | none => (.error (.ok none), graph)
      | some node => (.ok node, graph)

end Graph

mutual

/-- `Evaluates node graph reply after`: the value of `node` in `graph` is `reply`, and the
graph is then `after`. -/
inductive Evaluates : NodeId → Graph → Reply → Graph → Prop where
  | absent {node graph} : graph.nodes.get? node = none → Evaluates node graph (.ok none) graph
  | cached {node graph present value} : graph.nodes.get? node = some present →
      present.cache = .ready value → Evaluates node graph (.ok value) graph
  | circular {node graph present} : graph.nodes.get? node = some present →
      present.cache = .computing → Evaluates node graph (.error (graph.cycleFault node)) graph
  | calculated {node graph present reply frame} : graph.nodes.get? node = some present →
      present.cache = .stale →
      Runs ((graph.enter node).planOf present.address) { graph := graph.enter node } reply frame →
      Evaluates node graph reply (frame.graph.leave node frame.reads reply)

/-- `Runs plan frame reply after`: the plan ends with `reply` and leaves `after`. -/
inductive Runs : Plan (Option Value) → Frame → Reply → Frame → Prop where
  | finish {reply frame} : Runs (.finish reply) frame reply frame
  | note {record next frame reply after} :
      Runs next { frame with graph := frame.graph.record record } reply after →
      Runs (.note record next) frame reply after
  | consult {stat stage path resume frame reply after} :
      Runs (resume (frame.graph.transformsFor stat stage path)) frame reply after →
      Runs (.consult stat stage path resume) frame reply after
  | answered {query resume frame answer graph reply after} :
      frame.graph.locate query = (.error answer, graph) →
      Runs (resume answer) { frame with graph } reply after →
      Runs (.ask query resume) frame reply after
  | read {query resume frame node located answer graph reply after} :
      frame.graph.locate query = (.ok node, located) →
      Evaluates node located answer graph →
      Runs (resume answer) (frame.after node graph) reply after →
      Runs (.ask query resume) frame reply after

end

namespace Frame

/-- An answer is either given at once or comes from the node that was located. -/
theorem answer_eq (evaluator : Evaluator) (query : Query) (frame : Frame) :
    answer evaluator query frame =
      match frame.graph.locate query with
      | (.error reply, graph) => some (reply, { frame with graph })
      | (.ok node, graph) =>
          (evaluator node graph).map fun outcome => (outcome.1, frame.after node outcome.2) := by
  have fromNode (node : NodeId) (located : Graph) :
      readNode evaluator node { frame with graph := located } =
        (evaluator node located).map fun outcome => (outcome.1, frame.after node outcome.2) := by
    have reading : ({ frame with graph := located } : Frame).addRead node =
        { frame.addRead node with graph := located } := by
      unfold addRead
      split <;> rfl
    unfold readNode
    rw [reading]
    dsimp only
    cases evaluator node located <;> rfl
  cases query with
  | node stat stage path =>
      unfold answer Graph.locate
      dsimp only
      rcases frame.graph.obtain? stat stage path with ⟨fault | node, located⟩
      · rfl
      · exact fromNode node located
  | contribution modifier =>
      unfold answer Graph.locate
      dsimp only
      cases frame.graph.contributions.get? modifier with
      | none => rfl
      | some node => exact fromNode node frame.graph

end Frame

theorem run_sound {evaluator : Evaluator} {plan : Plan (Option Value)} {frame after : Frame}
    {reply : Reply}
    (sound : ∀ node graph reply next, evaluator node graph = some (reply, next) →
      Evaluates node graph reply next)
    (ran : plan.run (Frame.interpreter evaluator) frame = some (reply, after)) :
    Runs plan frame reply after := by
  induction plan generalizing frame with
  | finish ended =>
      cases ran
      exact .finish
  | ask query resume inductionHypothesis =>
      unfold Plan.run at ran
      split at ran
      · contradiction
      · next answer next answered =>
        have rest := inductionHypothesis answer ran
        have answers := Frame.answer_eq evaluator query frame
        rw [show Frame.answer evaluator query frame = _ from answered] at answers
        split at answers
        · next given graph refused =>
          cases answers
          exact .answered refused rest
        · next node located found =>
          obtain ⟨⟨given, graph⟩, evaluated, same⟩ := Option.map_eq_some_iff.mp answers.symm
          cases same
          exact .read found (sound _ _ _ _ evaluated) rest
  | consult stat stage path resume inductionHypothesis =>
      exact .consult (inductionHypothesis _ ran)
  | note record rest inductionHypothesis => exact .note (inductionHypothesis ran)

/-- Whatever is calculated with some number of levels is calculated. -/
theorem evaluate_sound {levels : Nat} {node : NodeId} {graph after : Graph} {reply : Reply}
    (evaluated : Graph.evaluate levels node graph = some (reply, after)) :
    Evaluates node graph reply after := by
  induction levels generalizing node graph reply after with
  | zero => contradiction
  | succ levels inductionHypothesis =>
      unfold Graph.evaluate Graph.evaluateBy at evaluated
      split at evaluated
      · next missing =>
        cases evaluated
        exact .absent missing
      · next present found =>
        split at evaluated
        · next value ready =>
          cases evaluated
          exact .cached found ready
        · next computing =>
          cases evaluated
          exact .circular found computing
        · next stale =>
          dsimp only at evaluated
          split at evaluated
          · contradiction
          · next reached frame ran =>
            cases evaluated
            exact .calculated found stale
              (run_sound (fun _ _ _ _ => inductionHypothesis) ran)

/-- A node either stays as it is, and so does the graph, or it is stale and its plan is run. -/
theorem Graph.evaluateBy_cases {inner : Evaluator} {node : NodeId} {graph after : Graph}
    {reply : Reply} (evaluated : Graph.evaluateBy inner node graph = some (reply, after)) :
    (after = graph ∧ ∀ present, graph.nodes.get? node = some present → present.cache ≠ .stale) ∨
      ∃ present frame, graph.nodes.get? node = some present ∧ present.cache = .stale ∧
        ((graph.enter node).planOf present.address).run (Frame.interpreter inner)
          { graph := graph.enter node } = some (reply, frame) ∧
        after = frame.graph.leave node frame.reads reply := by
  unfold Graph.evaluateBy at evaluated
  split at evaluated
  · next missing =>
    cases evaluated
    refine .inl ⟨rfl, fun present found => ?_⟩
    rw [missing] at found
    contradiction
  · next present found =>
    have kept (cached : present.cache ≠ .stale) :
        ∀ other, graph.nodes.get? node = some other → other.cache ≠ .stale := by
      intro other same
      rw [found] at same
      cases same
      exact cached
    split at evaluated
    · next value ready =>
      cases evaluated
      exact .inl ⟨rfl, kept (by simp [ready])⟩
    · next computing =>
      cases evaluated
      exact .inl ⟨rfl, kept (by simp [computing])⟩
    · next stale =>
      dsimp only at evaluated
      split at evaluated
      · contradiction
      · next given frame ran =>
        cases evaluated
        exact .inr ⟨present, frame, found, stale, ran, rfl⟩

end CharacterSheet
