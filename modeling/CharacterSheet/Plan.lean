import CharacterSheet.Journal
import CharacterSheet.Stat

/-!
Contract: calculations that ask for the values of nodes without knowing who answers.

A plan either is finished or states one request and says how it goes on with the
answer. What a formula or a stage calculates is a plan; where the answers come from,
a cache, a fresh calculation or a list, is the affair of an interpreter.

Owns:
- requests and plans with sequencing and the handling of faults;
- interpreters, which run plans over a state of their own. An interpreter may fail to
  answer at all, which no plan can observe.
-/

namespace CharacterSheet

/-- What a plan can ask for. -/
inductive Query where
  /-- The value of a stage of a stat on a path. -/
  | node (stat : Stat) (stage : Stage) (path : Path)
  /-- What a modifier contributes. -/
  | contribution (modifier : ModifierId)

/-- A calculation of an `α`. -/
inductive Plan (α : Type) where
  | finish (outcome : Except Fault α)
  | ask (query : Query) (resume : Reply → Plan α)
  /-- Go on with the transforms that are in force for a stage at this point. -/
  | consult (stat : StatId) (stage : Stage) (path : PathId) (resume : List Transform → Plan α)
  /-- Write a record to the journal. -/
  | note (record : Record) (next : Plan α)

namespace Plan

variable {α β σ : Type}

/-- Go on with the result of a plan; a fault ends the whole. -/
def bind : Plan α → (α → Plan β) → Plan β
  | finish (.ok result), next => next result
  | finish (.error fault), _ => finish (.error fault)
  | ask query resume, next => ask query fun reply => (resume reply).bind next
  | consult stat stage path resume, next =>
      consult stat stage path fun transforms => (resume transforms).bind next
  | note record rest, next => note record (rest.bind next)

instance : Monad Plan where
  pure result := finish (.ok result)
  bind := bind

/-- End with a fault. -/
def fail (fault : Fault) : Plan α := finish (.error fault)

/-- Turn a fault of a plan into a result. -/
def attempt : Plan α → Plan (Except Fault α)
  | finish outcome => finish (.ok outcome)
  | ask query resume => ask query fun reply => (resume reply).attempt
  | consult stat stage path resume =>
      consult stat stage path fun transforms => (resume transforms).attempt
  | note record next => note record next.attempt

/-- The value of a node. -/
def read (stat : Stat) (stage : Stage) (path : Path) : Plan (Option Value) :=
  ask (.node stat stage path) finish

/-- The total of a stat. -/
def total (stat : Stat) : Plan (Option Value) := read stat .total .main

/-- What a modifier contributes. -/
def contribution (modifier : ModifierId) : Plan (Option Value) :=
  ask (.contribution modifier) finish

/-- Run one plan per item, in order, and collect the results. -/
def gather (plan : β → Plan α) : List β → Plan (List α)
  | [] => pure []
  | item :: rest => do
      let first ← plan item
      let others ← gather plan rest
      pure (first :: others)

end Plan

/-- How plans are run over a state: who answers requests, which transforms are in
force, and where records go. A missing answer ends the run without any outcome. -/
structure Interpreter (σ : Type) where
  answer : Query → σ → Option (Reply × σ)
  transforms : StatId → Stage → PathId → σ → List Transform
  record : Record → σ → σ

/-- Run a plan. -/
def Plan.run {α σ : Type} (interpreter : Interpreter σ) :
    Plan α → σ → Option (Except Fault α × σ)
  | .finish outcome, state => some (outcome, state)
  | .ask query resume, state =>
      match interpreter.answer query state with
      | none => none
      | some (reply, next) => (resume reply).run interpreter next
  | .consult stat stage path resume, state =>
      (resume (interpreter.transforms stat stage path state)).run interpreter state
  | .note record next, state => next.run interpreter (interpreter.record record state)

namespace Plan

variable {α β σ : Type}

@[simp] theorem bind_finish_ok (result : α) (next : α → Plan β) :
    (finish (.ok result)).bind next = next result := rfl

@[simp] theorem bind_finish_error (fault : Fault) (next : α → Plan β) :
    (finish (.error fault)).bind next = finish (.error fault) := rfl

theorem bind_assoc {γ : Type} (plan : Plan α) (next : α → Plan β) (last : β → Plan γ) :
    (plan.bind next).bind last = plan.bind fun result => (next result).bind last := by
  induction plan with
  | finish outcome => cases outcome <;> rfl
  | ask query resume inductionHypothesis => simp [bind, inductionHypothesis]
  | consult stat stage path resume inductionHypothesis => simp [bind, inductionHypothesis]
  | note record rest inductionHypothesis => simp [bind, inductionHypothesis]

/-- Running a sequence runs its parts one after the other. -/
theorem run_bind (interpreter : Interpreter σ) (plan : Plan α) (next : α → Plan β) (state : σ) :
    (plan.bind next).run interpreter state =
      match plan.run interpreter state with
      | none => none
      | some (.ok result, after) => (next result).run interpreter after
      | some (.error fault, after) => some (.error fault, after) := by
  induction plan generalizing state with
  | finish outcome => cases outcome <;> rfl
  | ask query resume inductionHypothesis =>
      simp only [bind, run]
      cases interpreter.answer query state with
      | none => rfl
      | some answered => exact inductionHypothesis answered.1 answered.2
  | consult stat stage path resume inductionHypothesis =>
      exact inductionHypothesis (interpreter.transforms stat stage path state) state
  | note record rest inductionHypothesis => exact inductionHypothesis _

/-- A run has an outcome if every request has an answer. -/
theorem run_isSome {interpreter : Interpreter σ}
    (answers : ∀ query state, (interpreter.answer query state).isSome) (plan : Plan α)
    (state : σ) : (plan.run interpreter state).isSome := by
  induction plan generalizing state with
  | finish outcome => rfl
  | ask query resume inductionHypothesis =>
      have answered := answers query state
      simp only [run]
      split
      · next missing => simp [missing] at answered
      · exact inductionHypothesis _ _
  | consult stat stage path resume inductionHypothesis => exact inductionHypothesis _ _
  | note record rest inductionHypothesis => exact inductionHypothesis _

/-- An attempt always succeeds, with whatever outcome the plan has. -/
theorem run_attempt (interpreter : Interpreter σ) (plan : Plan α) (state : σ) :
    plan.attempt.run interpreter state =
      (plan.run interpreter state).map fun (outcome, after) => (.ok outcome, after) := by
  induction plan generalizing state with
  | finish outcome => rfl
  | ask query resume inductionHypothesis =>
      simp only [attempt, run]
      cases interpreter.answer query state with
      | none => rfl
      | some answered => exact inductionHypothesis answered.1 answered.2
  | consult stat stage path resume inductionHypothesis =>
      exact inductionHypothesis (interpreter.transforms stat stage path state) state
  | note record rest inductionHypothesis => exact inductionHypothesis _

end Plan
end CharacterSheet
