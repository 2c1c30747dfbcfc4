import CharacterSheet.Graph.Depth
import CharacterSheet.Graph.Nodes
import CharacterSheet.Graph.Stages

/-!
Contract: how nodes get their values.

Owns:
- the calculation of a stale node: it is marked as being calculated, its plan is run
  with reads that calculate in turn, and its edges and its cache are brought up to
  date whether the plan succeeds or fails;
- the running of plans from outside of any calculation.

Reads nest; the number of levels that a calculation may use is a parameter, and a
calculation that would need more has no outcome. From outside, a usual number of levels
is tried first, then as many as the graph has names for nodes, which suffices for every
graph.
-/

namespace CharacterSheet

/-- A graph during the run of one plan, with the nodes that the plan has read so far. -/
structure Frame where
  graph : Graph
  reads : List NodeId := []

/-- Add a node to those that were read, once. -/
def Frame.addRead (frame : Frame) (node : NodeId) : Frame :=
  if node ∈ frame.reads then frame else { frame with reads := frame.reads ++ [node] }

/-- A way to get the value of a node. -/
abbrev Evaluator := NodeId → Graph → Option (Reply × Graph)

namespace Frame

/-- Read a node by means of an evaluator. -/
def readNode (evaluator : Evaluator) (node : NodeId) (frame : Frame) : Option (Reply × Frame) :=
  let reading := frame.addRead node
  match evaluator node reading.graph with
  | none => none
  | some (reply, graph) => some (reply, { reading with graph })

/-- Answer a request. A read of a stage makes its node if it is missing; a modifier
without a node contributes nothing. -/
def answer (evaluator : Evaluator) (query : Query) (frame : Frame) : Option (Reply × Frame) :=
  match query with
  | .node stat stage path =>
      match frame.graph.obtain? stat stage path with
      | (.error fault, graph) => some (.error fault, { frame with graph })
      | (.ok node, graph) => readNode evaluator node { frame with graph }
  | .contribution modifier =>
      match frame.graph.contributions.get? modifier with
      | none => some (.ok none, frame)
      | some node => readNode evaluator node frame

/-- How plans are run over a graph. -/
def interpreter (evaluator : Evaluator) : Interpreter Frame where
  answer := answer evaluator
  transforms stat stage path frame := frame.graph.transformsFor stat stage path
  record record frame := { frame with graph := frame.graph.record record }

end Frame

namespace Graph

/-- The fault of reading a node that is being calculated: the calculations that are
going on, from that node on, and the node once more. -/
def cycleFault (graph : Graph) (node : NodeId) : Fault :=
  let inner := graph.evaluating.takeWhile (· ≠ node)
  .cycle ((node :: inner.reverse ++ [node]).filterMap graph.nameOf?)

/-- Begin the calculation of a node. -/
def enter (graph : Graph) (node : NodeId) : Graph :=
  { graph.setCache node .computing with evaluating := node :: graph.evaluating }

/-- End the calculation of a node that made some reads. A result is kept unless inputs
changed in the meantime; a fault is never kept. -/
def leave (graph : Graph) (node : NodeId) (reads : List NodeId) (reply : Reply) : Graph :=
  let current := decide (node ∉ graph.outdated)
  let ended :=
    { graph with
      evaluating := graph.evaluating.tail
      outdated := graph.outdated.filter (· ≠ node) }
  let wired := ended.rewire node reads
  match reply with
  | .ok value => wired.setCache node (if current then .ready value else .stale)
  | .error _ => wired.setCache node .stale

/-- The value of a node, where nested reads are made by means of `inner`. -/
def evaluateBy (inner : Evaluator) : Evaluator := fun node graph =>
  match graph.nodes.get? node with
  | none => some (.ok none, graph)
  | some present =>
      match present.cache with
      | .ready value => some (.ok value, graph)
      | .computing => some (.error (graph.cycleFault node), graph)
      | .stale =>
          let started := graph.enter node
          match (started.planOf present.address).run (Frame.interpreter inner)
              { graph := started } with
          | none => none
          | some (reply, frame) =>
              some (reply, frame.graph.leave node frame.reads reply)

/-- The value of a node with a number of levels of nested reads. -/
def evaluate : Nat → Evaluator
  | 0 => fun _ _ => none
  | levels + 1 => evaluateBy (evaluate levels)

/-- Levels that suffice for nearly all calculations. More levels never change an
outcome, so they are tried before the names in a graph are counted, which may take
longer than the calculation. -/
def usualLevels : Nat := 10000

/-- The value of a node, from outside of any calculation. -/
def valueOf (node : NodeId) (graph : Graph) : Reply × Graph :=
  match evaluate usualLevels node graph with
  | some outcome => outcome
  | none => (evaluate graph.levels node graph).getD (.ok none, graph)

/-- How plans are run from outside of any calculation. -/
def outside : Interpreter Frame := Frame.interpreter fun node graph => some (valueOf node graph)

theorem outside_answers (query : Query) (frame : Frame) :
    (outside.answer query frame).isSome := by
  cases query with
  | node stat stage path =>
      simp only [outside, Frame.interpreter, Frame.answer]
      split <;> simp [Frame.readNode]
  | contribution modifier =>
      simp only [outside, Frame.interpreter, Frame.answer]
      split <;> simp [Frame.readNode]

/-- Run a plan from outside of any calculation. -/
def perform {α : Type} (plan : Plan α) (graph : Graph) : Except Fault α × Graph :=
  let (outcome, frame) := (plan.run outside { graph }).get (Plan.run_isSome outside_answers plan _)
  (outcome, frame.graph)

end Graph
end CharacterSheet
