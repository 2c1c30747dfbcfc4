import CharacterSheet.Graph.Reach

/-!
Contract: how a change makes cached values stale.

Owns:
- the marking of nodes and of everything that depends on them, with or without a record
  of the change;
- the nodes affected by behaviors, and those affected by a link.

Marking does not stop at nodes that are stale already, and it leaves nodes that are
being calculated alone; but if any calculation is going on, all of them are noted as
possibly outdated.
-/

namespace CharacterSheet
namespace Graph

/-- Note that the inputs of all calculations that are going on may have changed. -/
def noteOutdated (graph : Graph) : Graph :=
  { graph with
    outdated := graph.evaluating.foldl
      (fun outdated node => if node ∈ outdated then outdated else outdated ++ [node])
      graph.outdated }

/-- Drop the cached values of some nodes. -/
def dropCaches (graph : Graph) (nodes : List NodeId) : Graph :=
  let dropped := NodeSet.ofList nodes
  { graph with
    nodes := graph.nodes.modifyWhere dropped.contains fun node =>
      { node with cache := node.cache.invalidate } }

/-- Drop the cached values of some nodes and of everything that depends on them, without
a record of the change. -/
def markStale (graph : Graph) (starts : List NodeId) : Graph :=
  graph.noteOutdated.dropCaches (graph.dependents starts)

/-- Drop the cached values of a node and of everything that depends on it, and record
each of these nodes as changed. -/
def invalidate (graph : Graph) (start : NodeId) : Graph :=
  let changed := graph.dependents [start]
  changed.foldl (fun marked node => marked.modifyPending (·.submitNode node))
    (graph.noteOutdated.dropCaches changed)

/-- Invalidate a stage, if it has a node. -/
def invalidateStage (graph : Graph) (stat : StatId) (stage : Stage) (path : PathId) : Graph :=
  match graph.node? stat stage path with
  | some node => graph.invalidate node
  | none => graph

/-- The existing nodes that a behavior applies to. -/
def behaviorTargets (graph : Graph) (behavior : Behavior) : List NodeId :=
  behavior.affects.flatMap fun stat =>
    match graph.pipelines.get? stat with
    | some pipeline =>
        (pipeline.nodes.entries.filter fun entry =>
          behavior.appliesTo stat entry.1.1 entry.1.2).map (·.2)
    | none => []

/-- Invalidate every node that one of some behaviors applies to. -/
def invalidateTargets (graph : Graph) (behaviors : List Behavior) : Graph :=
  (behaviors.flatMap graph.behaviorTargets).foldl invalidate graph

/-- Invalidate what depends on which targets `source` feeds: what the source retains,
and the share of each target, `target` among them. -/
def linkChanged (graph : Graph) (source target : StatId) : Graph :=
  let linked := graph.links.targets source
  let targets := if target ∈ linked then linked else linked ++ [target]
  targets.foldl
    (fun changed stat =>
      (changed.invalidateStage stat .uncappedSubtotal .main).invalidateStage stat .base
        (.convertedFrom source))
    (graph.invalidateStage source .pathTotal .main)

end Graph
end CharacterSheet
