import CharacterSheet.Calculation

/-!
Contract: what plans ask for, and how faults pass through them.

Owns:
- scopes, which bound the requests of a plan, and plans that stay in a scope;
- plans that end with any fault that a read answers, apart from local faults;
- how both are kept by sequencing and degrading;
- plans that only read, which stay in a scope with their requests and have no faults of their own.

No node ever answers a local fault, so only the other faults have to be passed on.
-/

namespace CharacterSheet

/-- Whether a record belongs to an announcement: that it begins, or that a subscriber heard
of a change. -/
def Record.isAnnouncement : Record → Bool
  | flushing _ _ | valueChanged _ _ _ | rosterChanged _ _ _ _ _ => true
  | _ => false

/-- Whether a record is a note on a calculation, as plans write them. -/
def Record.isNote : Record → Bool
  | calculated _ | degraded _ _ => true
  | _ => false

theorem Record.inward_of_note {entry : Record} (note : entry.isNote = true) :
    entry.isAnnouncement = false := by
  cases entry <;> first | rfl | contradiction

/-- What a plan may ask for, and the transforms that it may be given. -/
structure Scope where
  query : Query → Prop
  place : StatId → Stage → PathId → Prop
  transform : Transform → Prop

namespace Plan

variable {α β : Type} {scope : Scope}

/-- Every request of a plan stays in a scope, whatever the answers are, and all that it records are
notes on its calculation. -/
def Asks (scope : Scope) : Plan α → Prop
  | finish _ => True
  | ask query resume => scope.query query ∧ ∀ reply, (resume reply).Asks scope
  | consult stat stage path resume =>
      scope.place stat stage path ∧
        ∀ transforms, (∀ transform ∈ transforms, scope.transform transform) →
          (resume transforms).Asks scope
  | note record next => record.isNote = true ∧ next.Asks scope

theorem asks_pure (result : α) : (pure result : Plan α).Asks scope := trivial

theorem asks_fail (fault : Fault) : (fail fault : Plan α).Asks scope := trivial

theorem asks_bind {plan : Plan α} {next : α → Plan β} (first : plan.Asks scope)
    (later : ∀ result, (next result).Asks scope) : (plan.bind next).Asks scope := by
  induction plan with
  | finish outcome =>
      cases outcome with
      | ok result => exact later result
      | error fault => trivial
  | ask query resume inductionHypothesis =>
      exact ⟨first.1, fun reply => inductionHypothesis reply (first.2 reply)⟩
  | consult stat stage path resume inductionHypothesis =>
      refine ⟨first.1, ?_⟩
      intro transforms given
      exact inductionHypothesis transforms (first.2 transforms given)
  | note record rest inductionHypothesis => exact ⟨first.1, inductionHypothesis first.2⟩

theorem asks_attempt {plan : Plan α} (asks : plan.Asks scope) : plan.attempt.Asks scope := by
  induction plan with
  | finish outcome => trivial
  | ask query resume inductionHypothesis =>
      exact ⟨asks.1, fun reply => inductionHypothesis reply (asks.2 reply)⟩
  | consult stat stage path resume inductionHypothesis =>
      refine ⟨asks.1, ?_⟩
      intro transforms given
      exact inductionHypothesis transforms (asks.2 transforms given)
  | note record rest inductionHypothesis => exact ⟨asks.1, inductionHypothesis asks.2⟩

theorem asks_degrade {plan : Plan (Option Value)} (node : NodeName) (asks : plan.Asks scope) :
    (degrade node plan).Asks scope := by
  apply asks_bind (asks_attempt asks)
  intro outcome
  cases outcome with
  | ok value => exact asks_pure value
  | error fault =>
      by_cases isLocal : fault.isLocal
      · simp only [isLocal, ↓reduceIte]
        exact ⟨rfl, asks_pure none⟩
      · simp only [isLocal]
        exact asks_fail fault

theorem asks_read {stat : Stat} {stage : Stage} {path : Path}
    (allowed : scope.query (.node stat stage path)) : (read stat stage path).Asks scope :=
  ⟨allowed, fun _ => trivial⟩

theorem Asks.mono {wider : Scope} {plan : Plan α} (asks : plan.Asks scope)
    (queries : ∀ query, scope.query query → wider.query query)
    (places : ∀ stat stage path, scope.place stat stage path → wider.place stat stage path)
    (transforms : ∀ transform, wider.transform transform → scope.transform transform) :
    plan.Asks wider := by
  induction plan with
  | finish outcome => trivial
  | ask query resume inductionHypothesis =>
      exact ⟨queries query asks.1, fun reply => inductionHypothesis reply (asks.2 reply)⟩
  | consult stat stage path resume inductionHypothesis =>
      refine ⟨places stat stage path asks.1, ?_⟩
      intro given allowed
      apply inductionHypothesis given
      exact asks.2 given fun transform member => transforms transform (allowed transform member)
  | note record rest inductionHypothesis => exact ⟨asks.1, inductionHypothesis asks.2⟩

/-- A fault that a read answers ends the plan with that very fault, unless it is local.
Faults of its own a plan may end with as far as they are `permitted`. -/
def Propagates (heeded : Transform → Prop) (permitted : Fault → Prop) : Plan α → Prop
  | finish (.ok _) => True
  | finish (.error fault) => permitted fault
  | ask _ resume =>
      (∀ fault, fault.isLocal = false → resume (.error fault) = finish (.error fault)) ∧
        ∀ value, (resume (.ok value)).Propagates heeded permitted
  | consult _ _ _ resume =>
      ∀ transforms, (∀ transform ∈ transforms, heeded transform) →
        (resume transforms).Propagates heeded permitted
  | note _ next => next.Propagates heeded permitted

section Propagation

variable {heeded : Transform → Prop} {permitted : Fault → Prop}

theorem propagates_pure (result : α) : (pure result : Plan α).Propagates heeded permitted := trivial

theorem propagates_bind {plan : Plan α} {next : α → Plan β}
    (first : plan.Propagates heeded permitted)
    (later : ∀ result, (next result).Propagates heeded permitted) :
    (plan.bind next).Propagates heeded permitted := by
  induction plan with
  | finish outcome =>
      cases outcome with
      | ok result => exact later result
      | error fault => exact first
  | ask query resume inductionHypothesis =>
      constructor
      · intro fault nonlocal
        show (resume (.error fault)).bind next = _
        rw [first.1 fault nonlocal, bind_finish_error]
      · intro value
        exact inductionHypothesis (.ok value) (first.2 value)
  | consult stat stage path resume inductionHypothesis =>
      intro transforms given
      exact inductionHypothesis transforms (first transforms given)
  | note record rest inductionHypothesis => exact inductionHypothesis first

theorem propagates_read (stat : Stat) (stage : Stage) (path : Path) :
    (read stat stage path).Propagates heeded permitted :=
  ⟨fun _ _ => rfl, fun _ => trivial⟩

/-- What is left of the faults of a degraded plan are those that are not local. -/
theorem propagates_degrade {plan : Plan (Option Value)} (node : NodeName)
    (propagates : plan.Propagates heeded permitted) :
    (degrade node plan).Propagates heeded fun fault => fault.isLocal = false ∧ permitted fault := by
  unfold degrade
  induction plan with
  | finish outcome =>
      cases outcome with
      | ok value => trivial
      | error fault =>
          by_cases isLocal : fault.isLocal
          · simp only [attempt, bind, isLocal, ↓reduceIte]
            trivial
          · simp only [attempt, bind, isLocal]
            exact ⟨Bool.eq_false_iff.mpr isLocal, propagates⟩
  | ask query resume inductionHypothesis =>
      constructor
      · intro fault nonlocal
        show (resume (.error fault)).attempt.bind _ = _
        rw [propagates.1 fault nonlocal]
        simp only [attempt, bind, nonlocal, Bool.false_eq_true, ↓reduceIte, fail]
      · intro value
        exact inductionHypothesis (.ok value) (propagates.2 value)
  | consult stat stage path resume inductionHypothesis =>
      intro transforms given
      exact inductionHypothesis transforms (propagates transforms given)
  | note record rest inductionHypothesis => exact inductionHypothesis propagates

theorem Propagates.mono {narrower : Transform → Prop} {wider : Fault → Prop} {plan : Plan α}
    (propagates : plan.Propagates heeded permitted)
    (transforms : ∀ transform, narrower transform → heeded transform)
    (faults : ∀ fault, permitted fault → wider fault) : plan.Propagates narrower wider := by
  induction plan with
  | finish outcome =>
      cases outcome with
      | ok result => trivial
      | error fault => exact faults fault propagates
  | ask query resume inductionHypothesis =>
      exact ⟨propagates.1, fun value => inductionHypothesis (.ok value) (propagates.2 value)⟩
  | consult stat stage path resume inductionHypothesis =>
      intro given allowed
      apply inductionHypothesis given
      exact propagates given fun transform member =>
        transforms transform (allowed transform member)
  | note record rest inductionHypothesis => exact inductionHypothesis propagates

end Propagation

/-! ### Plans that only read -/

/-- A plan that makes no requests but those that are `asked`, passes on every fault that they answer,
and does nothing else. -/
def OnlyReads (asked : Query → Prop) : Plan α → Prop
  | finish (.ok _) => True
  | finish (.error _) => False
  | ask query resume =>
      asked query ∧ (∀ fault, resume (.error fault) = finish (.error fault)) ∧
        ∀ value, (resume (.ok value)).OnlyReads asked
  | consult _ _ _ _ => False
  | note _ _ => False

section Reading

variable {asked : Query → Prop}

theorem onlyReads_pure (result : α) : (pure result : Plan α).OnlyReads asked := trivial

theorem onlyReads_bind {plan : Plan α} {next : α → Plan β} (first : plan.OnlyReads asked)
    (later : ∀ result, (next result).OnlyReads asked) : (plan.bind next).OnlyReads asked := by
  induction plan with
  | finish outcome =>
      cases outcome with
      | ok result => exact later result
      | error fault => exact first.elim
  | ask query resume inductionHypothesis =>
      refine ⟨first.1, fun fault => ?_, fun value => inductionHypothesis (.ok value) (first.2.2 value)⟩
      show (resume (.error fault)).bind next = _
      rw [first.2.1 fault, bind_finish_error]
  | consult stat stage path resume inductionHypothesis => exact first.elim
  | note record rest inductionHypothesis => exact first.elim

theorem onlyReads_gather {plan : β → Plan α} {items : List β}
    (each : ∀ item ∈ items, (plan item).OnlyReads asked) : (gather plan items).OnlyReads asked := by
  induction items with
  | nil => trivial
  | cons item rest inductionHypothesis =>
      apply onlyReads_bind (each item List.mem_cons_self)
      intro first
      apply onlyReads_bind (inductionHypothesis fun other member =>
        each other (List.mem_cons_of_mem _ member))
      intro others
      exact onlyReads_pure _

theorem onlyReads_read {stat : Stat} {stage : Stage} {path : Path}
    (allowed : asked (.node stat stage path)) : (read stat stage path).OnlyReads asked :=
  ⟨allowed, fun _ => rfl, fun _ => trivial⟩

theorem onlyReads_contribution {modifier : ModifierId} (allowed : asked (.contribution modifier)) :
    (contribution modifier).OnlyReads asked :=
  ⟨allowed, fun _ => rfl, fun _ => trivial⟩

theorem OnlyReads.asks {plan : Plan α} (reads : plan.OnlyReads asked)
    (allowed : ∀ query, asked query → scope.query query) : plan.Asks scope := by
  induction plan with
  | finish outcome => trivial
  | ask query resume inductionHypothesis =>
      refine ⟨allowed query reads.1, fun reply => ?_⟩
      cases reply with
      | ok value => exact inductionHypothesis (.ok value) (reads.2.2 value)
      | error fault =>
          rw [reads.2.1 fault]
          trivial
  | consult stat stage path resume inductionHypothesis => exact reads.elim
  | note record rest inductionHypothesis => exact reads.elim

theorem OnlyReads.propagates {heeded : Transform → Prop} {permitted : Fault → Prop} {plan : Plan α}
    (reads : plan.OnlyReads asked) : plan.Propagates heeded permitted := by
  induction plan with
  | finish outcome =>
      cases outcome with
      | ok result => trivial
      | error fault => exact reads.elim
  | ask query resume inductionHypothesis =>
      exact ⟨fun fault _ => reads.2.1 fault,
        fun value => inductionHypothesis (.ok value) (reads.2.2 value)⟩
  | consult stat stage path resume inductionHypothesis => exact reads.elim
  | note record rest inductionHypothesis => exact reads.elim

end Reading

end Plan
end CharacterSheet
