import CharacterSheet.Breakdown
import CharacterSheet.Graph.Announce
import CharacterSheet.Graph.Modify
import CharacterSheet.Graph.Sweep

/-!
Contract: the sheet, through which all calculation is done.

Every change goes through three phases: modifiers come or go and the nodes they affect
become stale; when the outermost batch closes, what changed is announced, once to each
subscriber; then what nobody needs is swept away.

Owns:
- sheets with their settings and retention rules;
- the operations on a sheet. Each gives its answer and the sheet after it.

A change outside of any batch is a batch of its own. Reads can change what waits to be
announced, since they can bring in behaviors; so a read outside of any batch ends with
an announcement too.
-/

namespace CharacterSheet

/-- What happens when the outermost batch closes. -/
structure Settings where
  /-- Sweep the sheet after each batch. -/
  sweepAfterBatch : Bool := true
  /-- Announce changes of rosters. -/
  announceRosters : Bool := true
deriving DecidableEq, Repr

structure Sheet where
  graph : Graph := {}
  settings : Settings := {}
  retention : Retention := {}

namespace Sheet

variable {α : Type}

/-- Put a changed graph behind a sheet. -/
def withGraph (sheet : Sheet) (graph : Graph) : Sheet := { sheet with graph }

/-- The number of open batches. -/
def batchDepth (sheet : Sheet) : Nat := sheet.graph.pending.depth

/-- Announce all changes that wait. -/
def flush (sheet : Sheet) : Sheet :=
  sheet.withGraph (sheet.graph.flush sheet.settings.announceRosters)

/-- Announce all changes that wait, unless a batch is open. -/
def flushIfIdle (sheet : Sheet) : Sheet :=
  if 0 < sheet.batchDepth then sheet else sheet.flush

/-- Open a batch. Batches nest. -/
def beginBatch (sheet : Sheet) : Sheet :=
  sheet.withGraph (sheet.graph.modifyPending fun pending =>
    { pending with depth := pending.depth + 1 })

/-- Sweep now. Refused while a batch is open. -/
def sweepOnly (sheet : Sheet) : Except Fault SweepReport × Sheet :=
  let (report, graph) := sheet.graph.sweep sheet.retention
  (report, sheet.withGraph graph)

/-- Close the innermost batch; with the outermost one, announce and sweep. What the
sweep changes is announced in turn. -/
def endBatch (sheet : Sheet) : Except Fault Unit × Sheet :=
  match sheet.batchDepth with
  | 0 => (.error .unbalancedBatch, sheet)
  | depth + 1 =>
      let closed := sheet.withGraph (sheet.graph.modifyPending fun pending =>
        { pending with depth })
      if 0 < depth then (.ok (), closed)
      else
        let announced := closed.flush
        if announced.settings.sweepAfterBatch then
          match announced.sweepOnly with
          | (.error fault, swept) => (.error fault, swept)
          | (.ok _, swept) =>
              (.ok (), if swept.graph.pending.isEmpty then swept else swept.flush)
        else (.ok (), announced)

/-- Close a batch that was opened for a block of operations; a failure to close it can
only be noted. -/
def closeBlock (sheet : Sheet) : Sheet :=
  match sheet.endBatch with
  | (.ok _, closed) => closed
  | (.error fault, closed) => closed.withGraph (closed.graph.record (.closingFailed fault))

/-- Make a change in a batch of its own. A fault of the change counts before a fault
of closing the batch. -/
def inBatch (sheet : Sheet) (change : Graph → Except Fault α × Graph) :
    Except Fault α × Sheet :=
  let begun := sheet.beginBatch
  let (result, graph) := change begun.graph
  let (closed, after) := (begun.withGraph graph).endBatch
  (result.bind fun value => closed.map fun _ => value, after)

/-- Add a modifier; says whether it is new. -/
def add (sheet : Sheet) (modifier : Modifier) : Except Fault Bool × Sheet :=
  sheet.inBatch (·.addModifier modifier)

/-- Remove a modifier; says whether it was there. -/
def remove (sheet : Sheet) (id : ModifierId) : Except Fault Bool × Sheet :=
  sheet.inBatch fun graph =>
    let (present, removed) := graph.removeModifier id
    (.ok present, removed)

/-- Add modifiers until one is refused, and count those that are new. -/
def addEach (graph : Graph) : List Modifier → Nat → Except Fault Nat × Graph
  | [], count => (.ok count, graph)
  | modifier :: rest, count =>
      match graph.addModifier modifier with
      | (.error fault, after) => (.error fault, after)
      | (.ok isNew, after) => addEach after rest (if isNew then count + 1 else count)

/-- Add several modifiers in one batch. Those before a refused one stay. -/
def addAll (sheet : Sheet) (modifiers : List Modifier) : Except Fault Nat × Sheet :=
  sheet.inBatch fun graph => addEach graph modifiers 0

/-- Remove modifiers and count those that were there. -/
def removeEach (graph : Graph) : List ModifierId → Nat → Nat × Graph
  | [], count => (count, graph)
  | id :: rest, count =>
      let (present, after) := graph.removeModifier id
      removeEach after rest (if present then count + 1 else count)

/-- Remove several modifiers in one batch. -/
def removeAll (sheet : Sheet) (ids : List ModifierId) : Except Fault Nat × Sheet :=
  sheet.inBatch fun graph =>
    let (count, removed) := removeEach graph ids 0
    (.ok count, removed)

/-- The value of a stage of a stat. -/
def value (sheet : Sheet) (stat : Stat) (stage : Stage) (path : Path) : Reply × Sheet :=
  let (reply, graph) := sheet.graph.perform (Plan.read stat stage path)
  (reply, (sheet.withGraph graph).flushIfIdle)

/-- The total of a stat. -/
def total (sheet : Sheet) (stat : Stat) : Reply × Sheet := sheet.value stat .total .main

/-- Subscribe to a stage of a stat; the subscriber makes the given reads on each
change. -/
def subscribe (sheet : Sheet) (stat : Stat) (stage : Stage) (path : Path)
    (reads : List Reading) : Except Fault SubscriptionId × Sheet :=
  match sheet.graph.subscribe stat stage path reads with
  | (.error fault, graph) => (.error fault, sheet.withGraph graph)
  | (.ok id, graph) => (.ok id, (sheet.withGraph graph).flushIfIdle)

/-- Subscribe to the roster of a form on a path. -/
def subscribeRoster (sheet : Sheet) (stat : Stat) (form : Form) (path : Path) :
    Except Fault SubscriptionId × Sheet :=
  let (id, graph) := sheet.graph.subscribeRoster stat form path
  (id, sheet.withGraph graph)

/-- End a subscription. -/
def unsubscribe (sheet : Sheet) (id : SubscriptionId) : Except Fault Unit × Sheet :=
  let (ended, graph) := sheet.graph.unsubscribe id
  (ended, sheet.withGraph graph)

/-- Sweep now and announce what that changes. Refused while a batch is open. -/
def sweep (sheet : Sheet) : Except Fault SweepReport × Sheet :=
  match sheet.sweepOnly with
  | (.error fault, same) => (.error fault, same)
  | (.ok report, swept) => (.ok report, swept.flush)

/-- Keep the total of a stat and everything it reads, watched or not. -/
def register (sheet : Sheet) (stat : Stat) : Except Fault Unit × Sheet :=
  sheet.inBatch fun graph =>
    match graph.obtain? stat .total .main with
    | (.error fault, same) => (.error fault, same)
    | (.ok _, grown) =>
        if stat.id ∈ grown.registered then (.ok (), grown)
        else
          (.ok (),
            { grown with registered := grown.registered ++ [stat.id] }.record
              (.registered stat.id))

/-- Undo a registration; says whether the stat was registered. -/
def unregister (sheet : Sheet) (stat : StatId) : Except Fault Bool × Sheet :=
  sheet.inBatch fun graph =>
    (.ok (decide (stat ∈ graph.registered)),
      { graph with registered := graph.registered.filter (· ≠ stat) })

/-- How the total of a stat came to be. -/
def breakdown (sheet : Sheet) (stat : Stat) : Except Fault Breakdown × Sheet :=
  let (result, graph) := sheet.graph.perform (sheet.graph.breakdownPlan stat)
  (result, (sheet.withGraph graph).flushIfIdle)

/-- The number of nodes, those of contributions included. -/
def nodeCount (sheet : Sheet) : Nat := sheet.graph.nodes.size

/-- The number of stats with a pipeline. -/
def pipelineCount (sheet : Sheet) : Nat := sheet.graph.pipelines.size

/-- The number of modifiers that are present. -/
def modifierCount (sheet : Sheet) : Nat := sheet.graph.modifiers.size

/-- Whether a stage has a node. -/
def containsStage (sheet : Sheet) (stat : StatId) (stage : Stage) (path : PathId) : Bool :=
  (sheet.graph.node? stat stage path).isSome

/-- Whether a stat has a pipeline. -/
def containsPipeline (sheet : Sheet) (stat : StatId) : Bool :=
  sheet.graph.pipelines.contains stat

/-- The paths that make up the subtotal of a stat. -/
def paths (sheet : Sheet) (stat : StatId) : List Path := sheet.graph.paths stat

/-- The number of subscribers of a stage. -/
def subscriberCount (sheet : Sheet) (stat : StatId) (stage : Stage) (path : PathId) : Nat :=
  sheet.graph.stageSubscribers stat stage path

/-- The number of subscribers of a roster. -/
def rosterSubscriberCount (sheet : Sheet) (stat : StatId) (form : Form) (path : PathId) : Nat :=
  sheet.graph.rosterSubscribers stat form path

/-- Take the journal, which starts anew. -/
def takeJournal (sheet : Sheet) : List Record × Sheet :=
  (sheet.graph.journal, sheet.withGraph { sheet.graph with journal := [] })

end Sheet
end CharacterSheet
