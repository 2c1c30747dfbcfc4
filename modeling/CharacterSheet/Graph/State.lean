import CharacterSheet.Calculation
import CharacterSheet.Conversion

/-!
Contract: the state behind a sheet, as plain data.

Owns:
- nodes with their caches and subscribers, and the edges along which values were read;
- pipelines, which hold the nodes and rosters of one stat;
- changes that wait to be announced;
- the graph that holds all of these, and look-up in it.

A node is known by a number that is never given out again; its place among the nodes
goes to another node once it is gone. An edge says that its consumer read its producer
when it was last calculated; edges stand in the order in which they were made.
-/

namespace CharacterSheet

/-- The identity of a node. -/
structure NodeId where
  number : Nat
deriving DecidableEq, Repr

/-- What a node calculates, with the stats of its path in full. -/
inductive Address where
  | pipeline (stat : StatId) (stage : Stage) (path : Path)
  | contribution (modifier : ModifierId)

def Address.name : Address → NodeName
  | .pipeline stat stage path => .pipeline stat stage path.id
  | .contribution modifier => .contribution modifier

/-- What a node knows about its value. -/
inductive Cache where
  /-- To be calculated on the next read. -/
  | stale
  /-- Being calculated; to read it now would be a circle. -/
  | computing
  | ready (value : Option Value)
deriving DecidableEq, Repr

/-- Drop a cached value; a calculation that is going on is left alone. -/
def Cache.invalidate : Cache → Cache
  | .computing => .computing
  | _ => .stale

/-- A node that a subscriber reads when it hears of a change. -/
structure Reading where
  stat : Stat
  stage : Stage
  path : Path

/-- A subscription to a node and what its subscriber reads on each change. -/
structure Subscriber where
  id : SubscriptionId
  reads : List Reading

structure Node where
  address : Address
  /-- Where the node stands among all nodes; decides in which order nodes that do not
  depend on each other hear of changes. -/
  place : Nat
  cache : Cache := .stale
  subscribers : List Subscriber := []

/-- A value that was read. -/
structure Edge where
  producer : NodeId
  consumer : NodeId
deriving DecidableEq, Repr

/-- The roster of one form on one path. -/
structure Slot where
  path : Path
  roster : Roster ModifierId := {}

/-- The nodes and rosters of one stat. -/
structure Pipeline where
  /-- The stat as it was first seen; what it carries is what counts. -/
  stat : Stat
  nodes : Table (Stage × PathId) NodeId := .empty
  slots : Table (Form × PathId) Slot := .empty
  /-- The number of memberships in all rosters together. -/
  memberships : Nat := 0

namespace Pipeline

def isEmpty (pipeline : Pipeline) : Bool := pipeline.nodes.isEmpty && pipeline.slots.isEmpty

/-- The members of a roster in insertion order; a missing roster has none. -/
def members (pipeline : Pipeline) (form : Form) (path : PathId) : List ModifierId :=
  match pipeline.slots.get? (form, path) with
  | some slot => slot.roster.members
  | none => []

/-- Whether a roster on a path has a member. -/
def hasMembersOn (pipeline : Pipeline) (path : PathId) : Bool :=
  pipeline.slots.entries.any fun entry =>
    decide (entry.1.2 = path) && !entry.2.roster.members.isEmpty

end Pipeline

/-- Append a path unless it is listed already. -/
def insertPath (paths : List Path) (path : Path) : List Path :=
  if paths.any (·.id = path.id) then paths else paths ++ [path]

/-- The main path, then every other path on which a roster has a member. -/
def Pipeline.ownPaths (pipeline : Pipeline) : List Path :=
  (pipeline.slots.values.filter fun slot => !slot.roster.members.isEmpty).foldl
    (fun paths slot => insertPath paths slot.path) [.main]

/-- The identity of a roster. -/
structure SlotId where
  stat : StatId
  form : Form
  path : PathId
deriving DecidableEq, Repr

/-- What a subscription watches. -/
inductive Target where
  | node (node : NodeId)
  | slot (slot : SlotId)
deriving DecidableEq, Repr

/-- Changes that wait until the outermost batch closes, one record for each node and
one for each roster. -/
structure Pending where
  /-- The number of batches that are open. -/
  depth : Nat := 0
  nodes : List NodeId := []
  slots : Table SlotId (Delta ModifierId) := .empty

namespace Pending

/-- Record a changed node, once. -/
def submitNode (pending : Pending) (node : NodeId) : Pending :=
  if node ∈ pending.nodes then pending else { pending with nodes := pending.nodes ++ [node] }

/-- Record a changed roster, joined to what is recorded of it already. -/
def submitSlot (pending : Pending) (slot : SlotId) (change : Delta ModifierId) : Pending :=
  match pending.slots.get? slot with
  | some earlier => { pending with slots := pending.slots.insert slot (earlier.merge change) }
  | none => { pending with slots := pending.slots.insert slot change }

/-- Drop the records of nodes that are gone. -/
def forget (pending : Pending) (gone : NodeId → Bool) : Pending :=
  { pending with nodes := pending.nodes.filter (!gone ·) }

def isEmpty (pending : Pending) : Bool := pending.nodes.isEmpty && pending.slots.isEmpty

/-- The recorded changes of rosters; those that cancelled out are left out. -/
def changedSlots (pending : Pending) : List (SlotId × Delta ModifierId) :=
  pending.slots.entries.filter fun entry => !entry.2.isEmpty

/-- The buffer without any record. -/
def cleared (pending : Pending) : Pending := { depth := pending.depth }

end Pending

/-- The whole state behind a sheet. -/
structure Graph where
  nodes : Table NodeId Node := .empty
  /-- The number of the next new node. -/
  nextNode : Nat := 0
  /-- Places of nodes that are gone, the one vacated last first. -/
  vacant : List Nat := []
  edges : List Edge := []
  pipelines : Table StatId Pipeline := .empty
  modifiers : Table ModifierId Modifier := .empty
  /-- The node that calculates the contribution of each modifier. -/
  contributions : Table ModifierId NodeId := .empty
  /-- The behaviors in force, by the stat that carries them. -/
  behaviors : Table StatId (List Behavior) := .empty
  links : Links := {}
  pending : Pending := {}
  /-- The nodes being calculated, innermost first. -/
  evaluating : List NodeId := []
  /-- Nodes being calculated whose inputs changed in the meantime. -/
  outdated : List NodeId := []
  subscriptions : Table SubscriptionId Target := .empty
  /-- The number handed out last. -/
  lastSubscription : Nat := 0
  /-- Stats whose totals are kept although nobody watches them. -/
  registered : List StatId := []
  /-- What happened since the journal was last taken, in order. -/
  journal : List Record := []

namespace Graph

/-- Append a record to the journal. -/
def record (record : Record) (graph : Graph) : Graph :=
  { graph with journal := graph.journal ++ [record] }

/-- The node of a stage of a stat on a path. -/
def node? (graph : Graph) (stat : StatId) (stage : Stage) (path : PathId) : Option NodeId :=
  (graph.pipelines.get? stat).bind (·.nodes.get? (stage, path.at stage))

/-- The roster of a form on a path of a stat. -/
def roster? (graph : Graph) (slot : SlotId) : Option (Roster ModifierId) :=
  ((graph.pipelines.get? slot.stat).bind (·.slots.get? (slot.form, slot.path))).map (·.roster)

/-- The members of a roster in insertion order; a missing roster has none. -/
def members (graph : Graph) (stat : StatId) (form : Form) (path : PathId) : List ModifierId :=
  match graph.pipelines.get? stat with
  | some pipeline => pipeline.members form path
  | none => []

/-- The paths that contribute to a stat: its own, then those fed by other stats. -/
def paths (graph : Graph) (stat : StatId) : List Path :=
  let own := match graph.pipelines.get? stat with
    | some pipeline => pipeline.ownPaths
    | none => [.main]
  (graph.links.sourcesInto stat).foldl
    (fun paths source => insertPath paths (.convertedFrom source)) own

/-- The transforms in force for a stage, in the order in which their carriers came in. -/
def transformsFor (graph : Graph) (stat : StatId) (stage : Stage) (path : PathId) :
    List Transform :=
  (graph.behaviors.values.flatten.filter (·.appliesTo stat stage path)).map (·.transform)

/-- The number of behaviors in force. -/
def behaviorCount (graph : Graph) : Nat := graph.behaviors.values.flatten.length

/-- Change one node. -/
def modifyNode (graph : Graph) (node : NodeId) (change : Node → Node) : Graph :=
  { graph with nodes := graph.nodes.modify node change }

def setCache (graph : Graph) (node : NodeId) (cache : Cache) : Graph :=
  graph.modifyNode node ({ · with cache })

/-- Change one pipeline. -/
def modifyPipeline (graph : Graph) (stat : StatId) (change : Pipeline → Pipeline) : Graph :=
  { graph with pipelines := graph.pipelines.modify stat change }

/-- Change the buffer of waiting changes. -/
def modifyPending (graph : Graph) (change : Pending → Pending) : Graph :=
  { graph with pending := change graph.pending }

/-- The nodes that read a node, in the order in which they came to do so. -/
def consumers (graph : Graph) (node : NodeId) : List NodeId :=
  (graph.edges.filter (·.producer = node)).map (·.consumer)

/-- The nodes that a node read when it was last calculated. -/
def producers (graph : Graph) (node : NodeId) : List NodeId :=
  (graph.edges.filter (·.consumer = node)).map (·.producer)

/-- The name of a node. -/
def nameOf? (graph : Graph) (node : NodeId) : Option NodeName :=
  (graph.nodes.get? node).map (·.address.name)

/-- The number of subscribers of a node that may not exist. -/
def subscriberCount (graph : Graph) (node : NodeId) : Nat :=
  match graph.nodes.get? node with
  | some present => present.subscribers.length
  | none => 0

end Graph
end CharacterSheet
