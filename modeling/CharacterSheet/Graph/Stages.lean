import CharacterSheet.Graph.State

/-!
Contract: what each stage of a stat calculates.

Owns:
- the plan of every stage, from the rosters, links and paths of a graph;
- the plan of any node: the stage, then the behaviors in force for it.

A plan depends on the graph only through what no read can change: rosters, modifiers,
links and the stat that a pipeline was made for. Which behaviors are in force is asked
when the stage has been calculated, since reads may bring in more of them.
-/

namespace CharacterSheet

/-- Of values with priorities, the last one of the highest priority that is present. -/
def chooseBase (candidates : List (Nat × Option Value)) : Option Value :=
  (candidates.foldl
    (fun best candidate => match candidate.2, best with
      | none, best => best
      | some value, none => some (candidate.1, value)
      | some value, some (priority, chosen) =>
          if priority ≤ candidate.1 then some (candidate.1, value) else some (priority, chosen))
    none).map (·.2)

/-- The factor that a percentage of "more" multiplies by. -/
def moreFactor (percent : Value) : Value := percent.map fun bound => (100 + bound) / 100

/-- Add what was set and what was added; absent if neither is there. -/
def joinBase (set add : Option Value) : Option Value :=
  match set, add with
  | none, none => none
  | _, _ => some (set.getD (.scalar 0) + add.getD (.scalar 0))

/-- Bring a total into the form that its stat asks for. -/
def Stat.finalize (stat : Stat) (value : Value) : Value :=
  let rounded := value.round stat.effectiveRounding
  match stat.dataType with
  | .bool => Value.ofBool rounded.isTrue
  | .variant count => rounded.map (Number.clamp 0 (Number.ofNat (count - 1)))
  | .double | .int => rounded

namespace Graph

/-- The contributions to a roster, in the order of its members. -/
def contributionsTo (graph : Graph) (stat : StatId) (form : Form) (path : PathId) :
    Plan (List (Option Value)) :=
  Plan.gather Plan.contribution (graph.members stat form path)

/-- The priority of a modifier among base values. -/
def priorityOf (graph : Graph) (modifier : ModifierId) : Nat :=
  match graph.modifiers.get? modifier with
  | some present => present.source.priority
  | none => 0

def baseSetPlan (graph : Graph) (stat : Stat) (path : Path) : Plan (Option Value) := do
  let values ← graph.contributionsTo stat.id .baseSet path.id
  let priorities := (graph.members stat.id .baseSet path.id).map graph.priorityOf
  pure (chooseBase (priorities.zip values))

def baseAddPlan (graph : Graph) (stat : Stat) (path : Path) : Plan (Option Value) := do
  let values ← graph.contributionsTo stat.id .baseAdd path.id
  pure (sumPresent values)

/-- The increases of a path; those of the main path count on every other path too. -/
def increasePlan (graph : Graph) (stat : Stat) (path : Path) : Plan (Option Value) := do
  let values ← graph.contributionsTo stat.id .increase path.id
  let own := (sumPresent values).getD (.scalar 0)
  if path.isMain then pure (some own)
  else
    match ← Plan.read stat .increase .main with
    | some general => pure (some (own + general))
    | none => pure (some own)

/-- The multipliers of a path; those of the main path count on every other path too. -/
def morePlan (graph : Graph) (stat : Stat) (path : Path) : Plan (Option Value) := do
  let values ← graph.contributionsTo stat.id .more path.id
  let own := (productPresent (values.map (·.map moreFactor))).getD (.scalar 1)
  if path.isMain then pure (some own)
  else
    match ← Plan.read stat .more .main with
    | some general => pure (some (own * general))
    | none => pure (some own)

/-- The sum of all conversion percentages of a source. -/
def conversionSum (graph : Graph) (source : StatId) : Plan Value := do
  let percents ← Plan.gather Plan.total (graph.links.conversionStats source)
  pure (percents.foldl
    (fun sum percent => match percent with
      | some value => sum + value
      | none => sum)
    (.scalar 0))

/-- What reaches `target` of the base of `source`. -/
def convertedBase (graph : Graph) (source target : Stat) : Plan (Option Value) := do
  match graph.links.link? source.id target.id with
  | none => pure none
  | some link =>
      match ← Plan.read source .base .main with
      | none => pure none
      | some base =>
          let converted ← match link.conversion with
            | none => pure (.scalar 0)
            | some conversion => do
                match ← Plan.total conversion with
                | none => pure (.scalar 0)
                | some percent =>
                    let sum ← graph.conversionSum source.id
                    pure ((.scalar 0 : Value) + effectiveConversion percent sum)
          let share ← match link.gain with
            | none => pure converted
            | some gain => do
                match ← Plan.total gain with
                | none => pure converted
                | some percent => pure (converted + percent)
          pure (some ((base * share).map (· / 100)))

def basePlan (graph : Graph) (stat : Stat) (path : Path) : Plan (Option Value) := do
  let set ← Plan.read stat .baseSet path
  let add ← Plan.read stat .baseAdd path
  let own := joinBase set add
  match path.convertedStat? with
  | none => pure own
  | some source =>
      let converted ← graph.convertedBase source stat
      pure (sumPresent [own, converted])

/-- The base after increases and multipliers; on the main path, only what is not
converted away remains. -/
def pathTotalPlan (graph : Graph) (stat : Stat) (path : Path) : Plan (Option Value) := do
  match ← Plan.read stat .base path with
  | none => pure none
  | some base =>
      let increase := (← Plan.read stat .increase path).getD (.scalar 0)
      let more := (← Plan.read stat .more path).getD (.scalar 1)
      let total := (base * increase.map (100 + ·)).map (· / 100) * more
      if path.isMain && graph.links.isConverted stat.id then
        let sum ← graph.conversionSum stat.id
        pure (some (total * retainedFraction sum))
      else pure (some total)

def totalOverridePlan (graph : Graph) (stat : Stat) : Plan (Option Value) := do
  let values ← graph.contributionsTo stat.id .totalOverride .main
  pure (highest (values.filterMap id))

def uncappedPlan (graph : Graph) (stat : Stat) : Plan (Option Value) := do
  let totals ← Plan.gather (Plan.read stat .pathTotal) (graph.paths stat.id)
  pure (sumPresent totals)

/-- The total of a bound, if there is a bound. -/
def boundPlan : Option Stat → Plan (Option Value)
  | none => pure none
  | some bound => Plan.total bound

def subtotalPlan (stat : Stat) : Plan (Option Value) := do
  match ← Plan.read stat .uncappedSubtotal .main with
  | none => pure none
  | some uncapped =>
      let lower ← boundPlan stat.minimum
      let upper ← boundPlan stat.maximum
      pure (some (uncapped.clamp lower upper))

def totalPlan (stat : Stat) : Plan (Option Value) := do
  let value ← match ← Plan.read stat .totalOverride .main with
    | some override => pure (some override)
    | none => Plan.read stat .subtotal .main
  pure (value.map stat.finalize)

/-- What a stage calculates before any behavior. -/
def stagePlan (graph : Graph) (stat : Stat) (stage : Stage) (path : Path) :
    Plan (Option Value) :=
  match stage with
  | .baseSet => graph.baseSetPlan stat path
  | .baseAdd => graph.baseAddPlan stat path
  | .increase => graph.increasePlan stat path
  | .more => graph.morePlan stat path
  | .base => graph.basePlan stat path
  | .pathTotal => graph.pathTotalPlan stat path
  | .totalOverride => graph.totalOverridePlan stat
  | .uncappedSubtotal => graph.uncappedPlan stat
  | .subtotal => subtotalPlan stat
  | .total => totalPlan stat

/-- What a node calculates. A local fault of a contribution or of a behavior makes the
value absent. -/
def planOf (graph : Graph) (address : Address) : Plan (Option Value) :=
  match address with
  | .contribution modifier =>
      match graph.modifiers.get? modifier with
      | none => pure none
      | some present => Plan.degrade address.name present.plan
  | .pipeline stat stage path =>
      match graph.pipelines.get? stat with
      | none => pure none
      | some pipeline => do
          let value ← graph.stagePlan pipeline.stat stage path
          Plan.degrade address.name
            (.consult stat stage path.id (Transform.planAll value))

end Graph
end CharacterSheet
