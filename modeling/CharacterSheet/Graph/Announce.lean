import CharacterSheet.Graph.Subscribe

/-!
Contract: how changes are announced to subscribers.

Owns:
- the announcement of what came into and went out of rosters;
- the announcement of changed nodes, each producer before its consumers;
- the flush, which does both for all changes that wait.

A subscriber of a node hears of a change only after the node has been calculated
anew, and it may read any node while it listens.
-/

namespace CharacterSheet
namespace Graph

/-- Tell the subscribers of a roster what changed in it. -/
def announceRoster (graph : Graph) (change : SlotId × Delta ModifierId) : Graph :=
  match graph.roster? change.1 with
  | none => graph
  | some roster =>
      roster.subscribers.foldl
        (fun told id =>
          told.record
            (.rosterChanged id change.1.stat change.1.form change.1.path change.2))
        graph

/-- Read a node on behalf of a subscriber. -/
def readFor (graph : Graph) (reading : Reading) : Reply × Graph :=
  graph.perform (Plan.read reading.stat reading.stage reading.path)

/-- Make several reads in order. -/
def readAll (graph : Graph) : List Reading → List Reply × Graph
  | [] => ([], graph)
  | reading :: rest =>
      let (reply, after) := graph.readFor reading
      let (replies, last) := after.readAll rest
      (reply :: replies, last)

/-- Tell one subscriber that a node changed. -/
def tell (name : NodeName) (graph : Graph) (subscriber : Subscriber) : Graph :=
  let (replies, after) := graph.readAll subscriber.reads
  after.record (.valueChanged subscriber.id name replies)

/-- Calculate a node anew and tell its subscribers, in the order in which they came. -/
def announceNode (graph : Graph) (node : NodeId) : Graph :=
  let settled := graph.settle node
  match settled.nodes.get? node with
  | none => settled
  | some present => present.subscribers.foldl (tell present.address.name) settled

/-- Bring nodes into an order in which producers come first. If the nodes of the graph
read each other in a circle there is no such order, and they stay as they are. -/
def announcementOrder (graph : Graph) (nodes : List NodeId) : List NodeId × Graph :=
  if nodes.length < 2 then (nodes, graph)
  else
    match graph.dependencyOrder? with
    | some order => (order.filter nodes.contains, graph)
    | none => (nodes, graph.record .circularOrder)

/-- Announce all changes that wait: those of rosters first, if they are wanted, then
those of nodes. -/
def flush (announceRosters : Bool) (graph : Graph) : Graph :=
  let slots := graph.pending.changedSlots
  let nodes := graph.pending.nodes
  let cleared := graph.modifyPending Pending.cleared
  if slots.isEmpty && nodes.isEmpty then cleared
  else
    let noted := cleared.record (.flushing nodes.length slots.length)
    let told := if announceRosters then slots.foldl announceRoster noted else noted
    let watched := nodes.filter fun node => 0 < told.subscriberCount node
    let (ordered, ready) := told.announcementOrder watched
    ordered.foldl announceNode ready

end Graph
end CharacterSheet
