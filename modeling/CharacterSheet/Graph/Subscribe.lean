import CharacterSheet.Graph.Evaluate

/-!
Contract: who watches which node or roster.

Owns:
- subscribing to a node, which is calculated at once so that later changes find their
  way to it;
- subscribing to a roster, which makes the roster if it is missing;
- ending a subscription, and the numbers of subscribers.
-/

namespace CharacterSheet
namespace Graph

/-- Hand out a new subscription. -/
def newSubscription (graph : Graph) (target : Target) : SubscriptionId × Graph :=
  let id : SubscriptionId := ⟨graph.lastSubscription + 1⟩
  (id,
    { graph with
      lastSubscription := graph.lastSubscription + 1
      subscriptions := graph.subscriptions.insert id target })

/-- Calculate a node so that its edges are up to date; a fault is noted as a warning. -/
def settle (node : NodeId) (graph : Graph) : Graph :=
  match graph.valueOf node with
  | (.ok _, settled) => settled
  | (.error fault, settled) =>
      match settled.nameOf? node with
      | some name => settled.record (.unsettled name fault)
      | none => settled

/-- Subscribe to a stage of a stat. -/
def subscribe (graph : Graph) (stat : Stat) (stage : Stage) (path : Path)
    (reads : List Reading) : Except Fault SubscriptionId × Graph :=
  match graph.obtain? stat stage path with
  | (.error fault, same) => (.error fault, same)
  | (.ok node, grown) =>
      let (id, named) := grown.newSubscription (.node node)
      let watched := named.modifyNode node fun old =>
        { old with subscribers := old.subscribers ++ [{ id, reads }] }
      (.ok id, watched.settle node)

/-- Subscribe to the roster of a form on a path. -/
def subscribeRoster (graph : Graph) (stat : Stat) (form : Form) (path : Path) :
    Except Fault SubscriptionId × Graph :=
  if stat.isResolved then
    let place := path.at form.stage
    let ready := graph.ensurePipeline stat
    let (id, named) := ready.newSubscription (.slot ⟨stat.id, form, place.id⟩)
    (.ok id,
      named.modifyPipeline stat.id fun pipeline =>
        let slot := (pipeline.slots.get? (form, place.id)).getD { path := place }
        let roster := { slot.roster with subscribers := slot.roster.subscribers ++ [id] }
        { pipeline with slots := pipeline.slots.insert (form, place.id) { slot with roster } })
  else (.error (.unresolvedReference stat.id), graph)

/-- End a subscription. -/
def unsubscribe (graph : Graph) (id : SubscriptionId) : Except Fault Unit × Graph :=
  match graph.subscriptions.get? id with
  | none => (.error (.unknownSubscription id), graph)
  | some target =>
      let ended := { graph with subscriptions := graph.subscriptions.erase id }
      match target with
      | .node node =>
          (.ok (),
            ended.modifyNode node fun old =>
              { old with subscribers := old.subscribers.filter (·.id ≠ id) })
      | .slot slot =>
          (.ok (),
            ended.modifyPipeline slot.stat fun pipeline =>
              { pipeline with
                slots := pipeline.slots.modify (slot.form, slot.path) fun old =>
                  { old with
                    roster :=
                      { old.roster with
                        subscribers := old.roster.subscribers.filter (· ≠ id) } } })

/-- The number of subscribers of a stage. -/
def stageSubscribers (graph : Graph) (stat : StatId) (stage : Stage) (path : PathId) : Nat :=
  match graph.node? stat stage path with
  | some node => graph.subscriberCount node
  | none => 0

/-- The number of subscribers of a roster. -/
def rosterSubscribers (graph : Graph) (stat : StatId) (form : Form) (path : PathId) : Nat :=
  match graph.roster? ⟨stat, form, path.at form.stage⟩ with
  | some roster => roster.subscribers.length
  | none => 0

end Graph
end CharacterSheet
