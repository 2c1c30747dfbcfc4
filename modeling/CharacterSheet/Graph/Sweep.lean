import CharacterSheet.Graph.Nodes

/-!
Contract: the removal of what nobody needs.

Owns:
- retention rules, which keep parts of a graph although they are not needed;
- the nodes that are needed: those with subscribers and the totals of registered
  stats, and everything they read;
- one sweep, which removes nodes that are not needed, rosters without members and
  subscribers, and pipelines that are left with neither.

Contribution nodes belong to their modifiers and stay; one that is not needed loses
its value and its edges.
-/

namespace CharacterSheet

/-- Which parts of a graph may be removed when they are not needed. -/
structure Retention where
  /-- Whether the nodes and rosters of a stat are looked at. -/
  considersStat : Stat → Bool := fun _ => true
  removesNode : Stat → Stage → PathId → Bool := fun _ _ _ => true
  removesRoster : Stat → Form → PathId → Bool := fun _ _ _ => true
  removesPipeline : Stat → Bool := fun _ => true

namespace Graph

/-- The nodes that are needed. -/
def needed (graph : Graph) : NodeSet :=
  let watched := (graph.nodes.entries.filter fun entry => !entry.2.subscribers.isEmpty).map (·.1)
  let kept := graph.registered.filterMap fun stat => graph.node? stat .total .main
  .ofList (graph.dependencies (watched ++ kept))

/-- The nodes of a pipeline that a sweep removes. -/
def removableNodes (rules : Retention) (needed : NodeSet) (pipeline : Pipeline) :
    List NodeId :=
  (pipeline.nodes.entries.filter fun entry =>
    !needed.contains entry.2 && rules.removesNode pipeline.stat entry.1.1 entry.1.2).map (·.2)

/-- The rosters of a pipeline that a sweep removes. -/
def removableSlots (rules : Retention) (pipeline : Pipeline) : List SlotId :=
  (pipeline.slots.entries.filter fun entry =>
    entry.2.roster.members.isEmpty && entry.2.roster.subscribers.isEmpty &&
      rules.removesRoster pipeline.stat entry.1.1 entry.1.2).map fun entry =>
    ⟨pipeline.stat.id, entry.1.1, entry.1.2⟩

/-- Remove a roster. -/
def removeSlot (graph : Graph) (slot : SlotId) : Graph :=
  graph.modifyPipeline slot.stat fun pipeline =>
    { pipeline with slots := pipeline.slots.erase (slot.form, slot.path) }

/-- Take the value from a node that stays although it is not needed, and from a
contribution node its edges too. -/
def relax (graph : Graph) (node : NodeId) : Graph :=
  match graph.nodes.get? node with
  | none => graph
  | some present =>
      match present.address with
      | .contribution _ => graph.resetNode node
      | .pipeline _ _ _ =>
          graph.modifyNode node fun old => { old with cache := old.cache.invalidate }

/-- The pipelines that a sweep removes. -/
def removablePipelines (rules : Retention) (graph : Graph) : List StatId :=
  (graph.pipelines.entries.filter fun entry =>
    entry.2.isEmpty && !graph.registered.contains entry.1 &&
      rules.removesPipeline entry.2.stat).map (·.1)

/-- Remove what is not needed, as far as the rules allow. Refused while a batch is
open. -/
def sweep (rules : Retention) (graph : Graph) : Except Fault SweepReport × Graph :=
  if 0 < graph.pending.depth then (.error .batchOpen, graph)
  else
    let needed := graph.needed
    let considered := graph.pipelines.values.filter fun pipeline =>
      rules.considersStat pipeline.stat
    let nodes := considered.flatMap (removableNodes rules needed)
    let slots := considered.flatMap (removableSlots rules)
    let thinned := slots.foldl removeSlot (graph.removeNodes nodes)
    let relaxed :=
      (thinned.nodes.keys.filter fun node => !needed.contains node).foldl relax thinned
    let empty := relaxed.removablePipelines rules
    let swept := empty.foldl removePipeline relaxed
    let report := { nodes := nodes.length, rosters := slots.length, pipelines := empty.length }
    (.ok report,
      if report.isEmpty then swept
      else swept.record (.swept report swept.nodes.size swept.behaviorCount))

end Graph
end CharacterSheet
