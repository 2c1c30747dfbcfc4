import CharacterSheet.Stage
import CharacterSheet.Value

/-!
Contract: the ways in which an operation on a sheet can fail.

Owns:
- names of nodes, which say what a node calculates without saying how;
- the faults, their texts, and which of them stay local to one contribution.

Texts that mention a modifier take a naming of modifiers, since the number of a
modifier means nothing to a reader.
-/

namespace CharacterSheet

/-- The identity of a subscription; identities are handed out in rising order. -/
structure SubscriptionId where
  number : Nat
deriving DecidableEq, Repr

/-- What a node calculates: a stage of a stat on a path, or what a modifier contributes. -/
inductive NodeName where
  | pipeline (stat : StatId) (stage : Stage) (path : PathId)
  | contribution (modifier : ModifierId)
deriving DecidableEq, Repr

namespace NodeName

/-- The name of a stage; stages of the whole stat are on the main path. -/
def ofStage (stat : StatId) (stage : Stage) (path : PathId) : NodeName :=
  .pipeline stat stage (path.at stage)

/-- The stat that a node belongs to; contributions belong to none. -/
def stat? : NodeName → Option StatId
  | .pipeline stat _ _ => some stat
  | .contribution _ => none

def text (naming : ModifierId → String) : NodeName → String
  | .pipeline stat stage path =>
      let place := stat.text ++ "." ++ stage.text
      if path.isMain then place else place ++ "[" ++ path.text ++ "]"
  | .contribution modifier => "Modifier#" ++ naming modifier

end NodeName

/-- Why an operation failed. -/
inductive Fault where
  /-- A node was read while it was being calculated; the nodes from its first
  appearance to the read that closed the loop. -/
  | cycle (path : List NodeName)
  /-- A stat was used that is not bound to a concrete entity. -/
  | unresolvedReference (stat : StatId)
  /-- A condition came out as something other than a truth value. -/
  | malformedCondition (reason : String)
  /-- A formula reported a failure of its own. -/
  | formulaFailed (reason : String)
  | indexOutOfRange (index length : Nat)
  | unknownSubscription (subscription : SubscriptionId)
  /-- The operation is refused while a batch is open. -/
  | batchOpen
  /-- A batch was closed that was never opened. -/
  | unbalancedBatch
deriving DecidableEq, Repr

namespace Fault

/-- Faults that only concern the contribution in which they arise. -/
def isLocal : Fault → Bool
  | malformedCondition _ | formulaFailed _ => true
  | _ => false

def message (naming : ModifierId → String) : Fault → String
  | cycle [] => "Cycle detected: (empty cycle)"
  | cycle path =>
      "Cycle detected: " ++ String.intercalate " -> " (path.map (NodeName.text naming))
  | unresolvedReference stat =>
      "Unresolved reference: " ++ stat.text ++ " must be bound to a concrete entity"
  | malformedCondition reason => "Malformed condition: " ++ reason
  | formulaFailed reason => "Value function failed: " ++ reason
  | indexOutOfRange index length =>
      "Index " ++ toString index ++ " is out of range for length " ++ toString length
  | unknownSubscription subscription =>
      "Unknown subscription: #" ++ toString subscription.number
  | batchOpen => "Operation requires all batches to be closed"
  | unbalancedBatch => "end_batch called without a matching begin_batch"

/-- The name of the kind of fault in saved and printed answers. -/
def kind : Fault → String
  | cycle _ => "Cycle"
  | unresolvedReference _ => "UnresolvedReference"
  | malformedCondition _ => "MalformedCondition"
  | formulaFailed _ => "ValueFunction"
  | indexOutOfRange _ _ => "IndexOutOfRange"
  | unknownSubscription _ => "UnknownSubscription"
  | batchOpen => "BatchOpen"
  | unbalancedBatch => "UnbalancedBatch"

end Fault

/-- What a read answers: a value, nothing, or a fault. -/
abbrev Reply := Except Fault (Option Value)

end CharacterSheet
