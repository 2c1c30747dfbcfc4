import CharacterSheet.Graph.Evaluate

/-!
Contract: how the total of a stat came to be.

Owns:
- breakdowns: the values of all stages of all paths and every contribution;
- the plan that collects a breakdown by reading nodes;
- the text of a breakdown.
-/

namespace CharacterSheet

/-- What one modifier contributes; nothing if it is inactive or its value is absent. -/
structure Contribution where
  modifier : ModifierId
  form : Form
  path : PathId
  source : Source
  value : Option Value
  description : String
deriving DecidableEq, Repr

/-- The values of the stages of one path. -/
structure PathBreakdown where
  path : PathId
  base : Option Value
  increase : Option Value
  more : Option Value
  total : Option Value
deriving DecidableEq, Repr

structure Breakdown where
  stat : StatId
  total : Option Value
  totalOverride : Option Value
  subtotal : Option Value
  paths : List PathBreakdown
  /-- In the order of paths, then of forms, then of rosters. -/
  contributions : List Contribution
deriving DecidableEq, Repr

namespace Breakdown

/-- The contributions of one form. -/
def contributionsOf (breakdown : Breakdown) (form : Form) : List Contribution :=
  breakdown.contributions.filter (·.form = form)

/-- A value, or a dash where there is none. -/
def shown (value : Option Value) : String :=
  match value with
  | some present => present.text
  | none => "-"

def pathLine (path : PathBreakdown) : String :=
  "  [" ++ path.path.text ++ "] base " ++ shown path.base ++ " × inc " ++ shown path.increase ++
    " × more " ++ shown path.more ++ " = " ++ shown path.total ++ "\n"

def contributionLine (contribution : Contribution) : String :=
  "    " ++ contribution.path.text ++ " " ++ contribution.description ++ ": " ++
    shown contribution.value ++ "\n"

/-- One line for the total, one for an override, one for each path and one for each
contribution. -/
def text (breakdown : Breakdown) : String :=
  breakdown.stat.text ++ " = " ++ shown breakdown.total ++ "\n" ++
    (if breakdown.totalOverride.isSome then
      "  override: " ++ shown breakdown.totalOverride ++ "\n"
    else "") ++
    String.join (breakdown.paths.map pathLine) ++
    String.join (breakdown.contributions.map contributionLine)

end Breakdown

namespace Graph

/-- The contribution of one member of a roster. -/
def contributionPlan (graph : Graph) (form : Form) (path : PathId) (id : ModifierId) :
    Plan (Option Contribution) := do
  let value ← Plan.contribution id
  pure ((graph.modifiers.get? id).map fun modifier =>
    { modifier := id, form, path, source := modifier.source, value,
      description := modifier.description })

/-- The stages of a path and the contributions to its rosters. Forms of the whole stat
are listed with the main path. -/
def pathPlan (graph : Graph) (stat : Stat) (path : Path) :
    Plan (PathBreakdown × List Contribution) := do
  let base ← Plan.read stat .base path
  let increase ← Plan.read stat .increase path
  let more ← Plan.read stat .more path
  let total ← Plan.read stat .pathTotal path
  let forms := Form.all.filter fun form => decide ((path.at form.stage).id = path.id)
  let listed ← Plan.gather
    (fun form =>
      Plan.gather (graph.contributionPlan form path.id) (graph.members stat.id form path.id))
    forms
  pure ({ path := path.id, base, increase, more, total }, (listed.flatten).filterMap id)

/-- The breakdown of a stat. -/
def breakdownPlan (graph : Graph) (stat : Stat) : Plan Breakdown := do
  let total ← Plan.read stat .total .main
  let totalOverride ← Plan.read stat .totalOverride .main
  let subtotal ← Plan.read stat .subtotal .main
  let parts ← Plan.gather (graph.pathPlan stat) (graph.paths stat.id)
  pure
    { stat := stat.id, total, totalOverride, subtotal,
      paths := parts.map (·.1), contributions := parts.flatMap (·.2) }

end Graph
end CharacterSheet
