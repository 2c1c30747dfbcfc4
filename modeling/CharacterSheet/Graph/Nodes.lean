import CharacterSheet.Graph.Invalidate

/-!
Contract: how nodes and pipelines come into being and go.

Owns:
- the creation of a pipeline, which puts the behaviors of its stat in force;
- the creation of a node together with the stages above it;
- the removal of nodes and pipelines and the reset of contribution nodes.
-/

namespace CharacterSheet
namespace Graph

/-- The place for a new node: the one that was vacated last, or else a new one behind
all others. -/
def freePlace (graph : Graph) : Nat := graph.vacant.headD graph.nodes.size

/-- Make a new node that no pipeline lists. -/
def addNode (graph : Graph) (address : Address) : NodeId × Graph :=
  let node : NodeId := ⟨graph.nextNode⟩
  (node,
    { graph with
      nodes := graph.nodes.insert node { address, place := graph.freePlace }
      nextNode := graph.nextNode + 1
      vacant := graph.vacant.tail })

/-- Make the node of a stage in the pipeline of its stat. -/
def addStage (graph : Graph) (stat : StatId) (stage : Stage) (path : Path) : NodeId × Graph :=
  let (node, added) := graph.addNode (.pipeline stat stage path)
  (node,
    added.modifyPipeline stat fun pipeline =>
      { pipeline with nodes := pipeline.nodes.insert (stage, path.id) node })

/-- Make the pipeline of a stat, unless there is one, and put its behaviors in force. -/
def ensurePipeline (graph : Graph) (stat : Stat) : Graph :=
  if graph.pipelines.contains stat.id then graph
  else
    let added := { graph with pipelines := graph.pipelines.insert stat.id { stat } }
    if stat.behaviors.isEmpty || added.behaviors.contains stat.id then added
    else
      ({ added with behaviors := added.behaviors.insert stat.id stat.behaviors }
        |>.record (.behaviorsRegistered stat.id stat.behaviors.length)
        |>.invalidateTargets stat.behaviors)

/-- Make the node of a stage, unless there is one. -/
def ensureStage (graph : Graph) (stat : StatId) (stage : Stage) (path : Path) : Graph :=
  if (graph.node? stat stage path.id).isSome then graph
  else (graph.addStage stat stage path).2

/-- The node of a stage, made together with the stages above it if it is missing. -/
def obtain (graph : Graph) (stat : Stat) (stage : Stage) (path : Path) : NodeId × Graph :=
  let place := path.at stage
  let ready := graph.ensurePipeline stat
  match ready.node? stat.id stage place.id with
  | some node => (node, ready)
  | none =>
      let (node, added) := ready.addStage stat.id stage place
      (node,
        stage.above.foldl (fun grown above => grown.ensureStage stat.id above (place.at above))
          added)

/-- The node of a stage of a stat that is bound to a concrete entity. -/
def obtain? (graph : Graph) (stat : Stat) (stage : Stage) (path : Path) :
    Except Fault NodeId × Graph :=
  if stat.isResolved then
    let (node, grown) := graph.obtain stat stage path
    (.ok node, grown)
  else (.error (.unresolvedReference stat.id), graph)

/-- Take a node out of the pipeline that lists it. -/
def unlist (graph : Graph) : Address → Graph
  | .pipeline stat stage path =>
      graph.modifyPipeline stat fun pipeline =>
        { pipeline with nodes := pipeline.nodes.erase (stage, path.id) }
  | .contribution _ => graph

/-- Remove nodes with their edges, their subscriptions and their records of changes.
What read them becomes stale, but does not count as changed. Their places become vacant
one after the other, in the order of the list. -/
def removeNodes (graph : Graph) (nodes : List NodeId) : Graph :=
  let leaving := nodes.filterMap graph.nodes.get?
  if leaving.isEmpty then graph
  else
    let gone := NodeSet.ofList nodes
    let consumption := graph.consumption
    let marked := graph.markStale (nodes.flatMap consumption.next)
    let subscribers := leaving.flatMap (·.subscribers)
    let thinned :=
      { marked with
        nodes := marked.nodes.eraseWhere gone.contains
        edges := marked.edges.filter fun edge =>
          !gone.contains edge.producer && !gone.contains edge.consumer
        pending := marked.pending.forget gone.contains
        subscriptions := subscribers.foldl
          (fun subscriptions (subscriber : Subscriber) => subscriptions.erase subscriber.id)
          marked.subscriptions
        vacant := (leaving.map (·.place)).reverse ++ marked.vacant }
    leaving.foldl (fun unlisted node => unlisted.unlist node.address) thinned

/-- Remove the pipeline of a stat; its behaviors are no longer in force. -/
def removePipeline (graph : Graph) (stat : StatId) : Graph :=
  if graph.pipelines.contains stat then
    let removed := { graph with pipelines := graph.pipelines.erase stat }
    match removed.behaviors.get? stat with
    | none => removed
    | some behaviors =>
        let lifted := { removed with behaviors := removed.behaviors.erase stat }
        if behaviors.isEmpty then lifted
        else
          (lifted.record (.behaviorsUnregistered stat behaviors.length)).invalidateTargets
            behaviors
  else graph

/-- Drop the cached value of a node and the edges along which it read. -/
def resetNode (graph : Graph) (node : NodeId) : Graph :=
  { graph with edges := graph.edges.filter (·.consumer ≠ node) }
    |>.modifyNode node fun old => { old with cache := old.cache.invalidate }

/-- Replace the edges along which a node read by edges from what it read just now. -/
def rewire (graph : Graph) (node : NodeId) (reads : List NodeId) : Graph :=
  { graph with
    edges := graph.edges.filter (·.consumer ≠ node) ++
      (reads.filter graph.nodes.contains).map (⟨·, node⟩) }

end Graph
end CharacterSheet
