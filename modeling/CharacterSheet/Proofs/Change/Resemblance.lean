import CharacterSheet.Proofs.Calculation.Stuck

/-!
Contract: plans that ask for the same and differ only in the values they end with.

Owns:
- the resemblance of plans, up to a relation between their results;
- transforms of two values that are both present or both absent resemble each other;
- a plan that resembles a doomed plan is doomed.
-/

namespace CharacterSheet
namespace Plan

variable {α β γ δ : Type} {alike : α → β → Prop}

/-- Two plans make the same requests whatever the answers, meet the same faults, and end with
results that are alike. -/
inductive Resembles (alike : α → β → Prop) : Plan α → Plan β → Prop
  | finish {first second} : alike first second →
      Resembles alike (.finish (.ok first)) (.finish (.ok second))
  | fault {fault} : Resembles alike (.finish (.error fault)) (.finish (.error fault))
  | ask {query resume other} : (∀ reply, Resembles alike (resume reply) (other reply)) →
      Resembles alike (.ask query resume) (.ask query other)
  | consult {stat stage path resume other} :
      (∀ transforms, Resembles alike (resume transforms) (other transforms)) →
      Resembles alike (.consult stat stage path resume) (.consult stat stage path other)
  | note {record next other} : Resembles alike next other →
      Resembles alike (.note record next) (.note record other)

theorem Resembles.refl {alike : α → α → Prop} (same : ∀ result, alike result result)
    (plan : Plan α) : Resembles alike plan plan := by
  induction plan with
  | finish outcome =>
      cases outcome with
      | ok result => exact .finish (same result)
      | error fault => exact .fault
  | ask query resume inductionHypothesis => exact .ask inductionHypothesis
  | consult stat stage path resume inductionHypothesis => exact .consult inductionHypothesis
  | note record next inductionHypothesis => exact .note inductionHypothesis

/-- A plan does what it does itself, with the same results. -/
theorem Resembles.self (plan : Plan α) : Resembles Eq plan plan :=
  .refl (fun _ => rfl) plan

theorem Resembles.bind {closer : γ → δ → Prop} {first : Plan α} {second : Plan β}
    {next : α → Plan γ} {other : β → Plan δ} (resembles : Resembles alike first second)
    (later : ∀ result counterpart, alike result counterpart →
      Resembles closer (next result) (other counterpart)) :
    Resembles closer (first.bind next) (second.bind other) := by
  induction resembles with
  | finish same => exact later _ _ same
  | fault => exact .fault
  | ask _ inductionHypothesis => exact .ask inductionHypothesis
  | consult _ inductionHypothesis => exact .consult inductionHypothesis
  | note _ inductionHypothesis => exact .note inductionHypothesis

/-- Outcomes with results that are alike, or with the same fault. -/
inductive AlikeOutcomes (alike : α → β → Prop) : Except Fault α → Except Fault β → Prop
  | ok {first second} : alike first second → AlikeOutcomes alike (.ok first) (.ok second)
  | error {fault} : AlikeOutcomes alike (.error fault) (.error fault)

theorem Resembles.attempt {first : Plan α} {second : Plan β}
    (resembles : Resembles alike first second) :
    Resembles (AlikeOutcomes alike) first.attempt second.attempt := by
  induction resembles with
  | finish same => exact .finish (.ok same)
  | fault => exact .finish .error
  | ask _ inductionHypothesis => exact .ask inductionHypothesis
  | consult _ inductionHypothesis => exact .consult inductionHypothesis
  | note _ inductionHypothesis => exact .note inductionHypothesis

/-- Doom does not depend on the results that a plan could end with. -/
theorem Doomed.resemble {graph : Graph} {fed barred : NodeId → Prop} {first : Plan α}
    {second : Plan β} (doomed : first.Doomed graph fed barred)
    (resembles : Resembles alike first second) : second.Doomed graph fed barred := by
  induction doomed generalizing second with
  | fault => cases resembles with | fault => exact .fault
  | note _ inductionHypothesis =>
      cases resembles with | note later => exact .note (inductionHypothesis later)
  | consult _ inductionHypothesis =>
      cases resembles with | consult later => exact .consult (inductionHypothesis (later _))
  | refused unbound => cases resembles with | ask _ => exact .refused unbound
  | barred found feeds bars => cases resembles with | ask _ => exact .barred found feeds bars
  | read found feeds known _ inductionHypothesis =>
      cases resembles with
      | ask later => exact .read found feeds known (inductionHypothesis (later _))

end Plan

/-- Both values are present, or both are absent. -/
def AlikePresent (first second : Option Value) : Prop := first.isSome = second.isSome

open Plan

theorem isSome_sumPresent {α : Type} [Add α] (values : List (Option α)) :
    (sumPresent values).isSome = values.any Option.isSome := by
  have general {step : Option α → Option α → Option α}
      (joins : ∀ joined next, (step joined next).isSome = (joined.isSome || next.isSome))
      (joined : Option α) :
      (values.foldl step joined).isSome = (joined.isSome || values.any Option.isSome) := by
    induction values generalizing joined with
    | nil => simp
    | cons head rest inductionHypothesis =>
        rw [List.foldl_cons, inductionHypothesis, joins, List.any_cons, Bool.or_assoc]
  exact (general (by rintro (_ | _) (_ | _) <;> rfl) none).trans (Bool.false_or _)

/-- What a transform asks for depends only on whether the value that it changes is present. -/
theorem Transform.plan_resembles {first second : Option Value} (same : AlikePresent first second)
    (transform : Transform) :
    Resembles AlikePresent (transform.plan first) (transform.plan second) := by
  unfold AlikePresent at same
  cases transform with
  | multiply factor =>
      cases first with
      | none => cases second with
        | none => exact .finish (by simp [AlikePresent])
        | some _ => simp at same
      | some _ => cases second with
        | none => simp at same
        | some _ =>
          apply (Resembles.self (Plan.total factor)).bind
          rintro times _ rfl
          cases times with
          | none => exact .finish (by simp [AlikePresent])
          | some _ => exact .finish (by simp [AlikePresent])
  | add amount => exact .finish (by simpa [AlikePresent] using same)
  | scale factor => exact .finish (by simpa [AlikePresent] using same)
  | set replacement => exact .finish rfl
  | fallback replacement => exact .finish (by simp [AlikePresent, Option.isSome_or, same])
  | plus formula =>
      apply (Resembles.self formula.plan).bind
      rintro addend _ rfl
      exact .finish (by simp [AlikePresent, isSome_sumPresent, same])
  | fail fault => exact .fault

theorem Transform.planAll_resembles {first second : Option Value}
    (same : AlikePresent first second) (transforms : List Transform) :
    Resembles AlikePresent (Transform.planAll first transforms)
      (Transform.planAll second transforms) := by
  induction transforms generalizing first second with
  | nil => exact .finish same
  | cons transform rest inductionHypothesis =>
      exact (transform.plan_resembles same).bind fun _ _ later => inductionHypothesis later

theorem Plan.Resembles.degrade {first second : Plan (Option Value)}
    (resembles : Resembles AlikePresent first second) (node : NodeName) :
    Resembles AlikePresent (degrade node first) (degrade node second) := by
  apply resembles.attempt.bind
  rintro _ _ (same | _)
  · exact .finish same
  · exact Resembles.refl (fun result => (rfl : AlikePresent result result)) _

end CharacterSheet
