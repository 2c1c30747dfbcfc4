import CharacterSheet.Modifier
import CharacterSheet.Plan

/-!
Contract: what formulas, transforms and modifiers calculate.

Owns:
- the plan of every formula and of every transform;
- the reading of a condition, which has to come out as a truth value;
- the plan of a modifier's contribution, and how a local fault makes a value absent.
-/

namespace CharacterSheet

mutual

/-- The plan of a formula. -/
def Formula.plan : Formula → Plan (Option Value)
  | .constant value => pure value
  | .reference stat stage path => Plan.read stat stage path
  | .perStep stat step amount =>
      if step.isZero then
        Plan.fail (.formulaFailed ("per-stat step for " ++ stat.id.text ++ " is zero"))
      else do
        let total ← Plan.total stat
        let points := total.getD (.scalar 0)
        pure (some (points.map fun bound => (bound / step).floor * amount))
  | .component inner index => do
      match ← inner.plan with
      | none => pure none
      | some value =>
          match value.component? index with
          | some bound => pure (some (.scalar bound))
          | none => Plan.fail (.indexOutOfRange index 2)
  | .holds stat => do
      let total ← Plan.total stat
      pure (some (Value.ofBool (Value.holds total)))
  | .probe name inner => .note (.calculated name) inner.plan
  | .attempt inner fallback => do
      match ← inner.plan.attempt with
      | .ok value => pure value
      | .error _ => pure fallback
  | .fail fault => Plan.fail fault
  | .sum terms => do
      let values ← plans terms
      pure (sumPresent values)
  | .product factors => do
      let values ← plans factors
      pure (productPresent values)
  | .difference left right => do
      let first ← left.plan
      let second ← right.plan
      match first, second with
      | some minuend, some subtrahend => pure (some (minuend - subtrahend))
      | _, _ => pure none
  | .quotient left right => do
      let first ← left.plan
      let second ← right.plan
      match first, second with
      | some dividend, some divisor => pure (some (dividend / divisor))
      | _, _ => pure none

/-- Calculate several formulas in order. -/
def Formula.plans : List Formula → Plan (List (Option Value))
  | [] => pure []
  | formula :: rest => do
      let first ← formula.plan
      let others ← plans rest
      pure (first :: others)

end

/-- The plan of a transform for the value that it is given. -/
def Transform.plan (value : Option Value) : Transform → Plan (Option Value)
  | .multiply factor =>
      match value with
      | none => pure none
      | some present => do
          match ← Plan.total factor with
          | some times => pure (some (present * times))
          | none => pure (some present)
  | .add amount => pure (value.map fun present => present.map (· + amount))
  | .scale factor => pure (value.map fun present => present.map (· * factor))
  | .set replacement => pure replacement
  | .fallback replacement => pure (value.or replacement)
  | .plus formula => do
      let addend ← formula.plan
      pure (sumPresent [value, addend])
  | .fail fault => Plan.fail fault

/-- Apply transforms one after the other. -/
def Transform.planAll (value : Option Value) : List Transform → Plan (Option Value)
  | [] => pure value
  | transform :: rest => do
      let changed ← transform.plan value
      Transform.planAll changed rest

/-- Read the value of a condition: absent means no, zero and one are truth values,
and nothing else is. -/
def conditionHolds (description : String) (value : Option Value) : Except Fault Bool :=
  match value with
  | none => .ok false
  | some present =>
      if present.isScalar && (present.minimum.isZero || present.minimum.equals 1) then
        .ok present.isTrue
      else
        .error (.malformedCondition ("condition `" ++ description ++ "` evaluated to " ++
          present.text ++ " instead of a boolean"))

/-- The value of a modifier while its condition holds. -/
def Modifier.plan (modifier : Modifier) : Plan (Option Value) :=
  match modifier.condition with
  | none => modifier.value.plan
  | some condition => do
      let truth ← condition.plan
      if ← Plan.finish (conditionHolds condition.description truth) then modifier.value.plan
      else pure none

/-- Make the value of a node absent if its plan ends in a local fault. -/
def Plan.degrade (node : NodeName) (plan : Plan (Option Value)) : Plan (Option Value) :=
  plan.attempt.bind fun
    | .ok value => pure value
    | .error fault =>
        if fault.isLocal then .note (.degraded node fault) (pure none) else Plan.fail fault

end CharacterSheet
