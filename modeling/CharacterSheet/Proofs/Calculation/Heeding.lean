import CharacterSheet.Proofs.Calculation.Vocabulary

/-!
Contract: which formulas and transforms pass on the faults that they meet.

Owns:
- formulas without any attempt, and transforms made of them;
- none of them swallows a fault that a read answers;
- the widest vocabulary in which no fault is swallowed.
-/

namespace CharacterSheet

mutual

/-- Whether a formula is free of attempts, to any depth. -/
def Formula.heeds : Formula → Bool
  | .attempt _ _ => false
  | .component inner _ | .probe _ inner => inner.heeds
  | .sum terms | .product terms => formulasHeed terms
  | .difference left right | .quotient left right => left.heeds && right.heeds
  | .constant _ | .reference _ _ _ | .perStep _ _ _ | .holds _ | .fail _ => true

def formulasHeed : List Formula → Bool
  | [] => true
  | formula :: rest => formula.heeds && formulasHeed rest

end

mutual

/-- A formula swallows a fault only by an attempt. -/
theorem Formula.propagates_of_heeds : (formula : Formula) → formula.heeds → formula.Propagates
  | .constant _, _ => Plan.propagates_pure _
  | .reference stat stage path, _ => Plan.propagates_read stat stage path
  | .perStep stat step amount, _ => by
      unfold Formula.Propagates Formula.plan
      split
      · trivial
      · exact Plan.propagates_bind (Plan.propagates_read ..) fun _ => Plan.propagates_pure _
  | .holds stat, _ => by
      unfold Formula.Propagates Formula.plan
      exact Plan.propagates_bind (Plan.propagates_read ..) fun _ => Plan.propagates_pure _
  | .component inner index, heeds => by
      unfold Formula.heeds at heeds
      unfold Formula.Propagates Formula.plan
      apply Plan.propagates_bind (inner.propagates_of_heeds heeds)
      rintro (_ | value)
      · trivial
      · dsimp only
        split <;> trivial
  | .probe _ inner, heeds => by
      unfold Formula.heeds at heeds
      unfold Formula.Propagates Formula.plan
      exact inner.propagates_of_heeds heeds
  | .attempt _ _, heeds => by
      unfold Formula.heeds at heeds
      contradiction
  | .fail _, _ => trivial
  | .sum terms, heeds | .product terms, heeds => by
      unfold Formula.heeds at heeds
      unfold Formula.Propagates Formula.plan
      exact Plan.propagates_bind (formulas_propagate_of_heed terms heeds)
        fun _ => Plan.propagates_pure _
  | .difference left right, heeds | .quotient left right, heeds => by
      unfold Formula.heeds at heeds
      rw [Bool.and_eq_true] at heeds
      unfold Formula.Propagates Formula.plan
      apply Plan.propagates_bind (left.propagates_of_heeds heeds.1)
      intro first
      apply Plan.propagates_bind (right.propagates_of_heeds heeds.2)
      intro second
      cases first <;> cases second <;> trivial

theorem formulas_propagate_of_heed : (formulas : List Formula) → formulasHeed formulas →
    (Formula.plans formulas).Propagates (fun _ => True) fun _ => True
  | [], _ => by
      unfold Formula.plans
      exact Plan.propagates_pure _
  | formula :: rest, heeds => by
      unfold formulasHeed at heeds
      rw [Bool.and_eq_true] at heeds
      unfold Formula.plans
      apply Plan.propagates_bind (formula.propagates_of_heeds heeds.1)
      intro first
      exact Plan.propagates_bind (formulas_propagate_of_heed rest heeds.2)
        fun _ => Plan.propagates_pure _

end

/-- Whether a transform is free of attempts. -/
def Transform.heeds : Transform → Bool
  | .plus formula => formula.heeds
  | .multiply _ | .add _ | .scale _ | .set _ | .fallback _ | .fail _ => true

theorem Transform.propagates_of_heeds {transform : Transform} (heeds : transform.heeds) :
    transform.Propagates := by
  intro value
  cases transform with
  | multiply factor =>
      cases value with
      | none => trivial
      | some present =>
          apply Plan.propagates_bind (Plan.propagates_read ..)
          rintro (_ | times) <;> trivial
  | plus formula =>
      exact Plan.propagates_bind (formula.propagates_of_heeds heeds) fun _ => Plan.propagates_pure _
  | add | scale | set | fallback | fail => trivial

/-- The vocabulary in which no fault is swallowed and nothing else is bounded. -/
def Vocabulary.heeding : Vocabulary :=
  .bounding Formula.Propagates (fun behavior => behavior.transform.Propagates) (fun _ => True)
    trivial

theorem Vocabulary.closed_heeding : Vocabulary.heeding.Closed :=
  Vocabulary.closed_bounding (fun _ => trivial) fun _ => trivial

theorem Vocabulary.propagating_heeding : Vocabulary.heeding.Propagating :=
  ⟨fun _ propagates => propagates, fun _ propagates => propagates⟩

end CharacterSheet
