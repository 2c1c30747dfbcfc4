import CharacterSheet.Graph.State
import CharacterSheet.Proofs.Calculation.Plans

/-!
Contract: what may be named on a sheet.

Owns:
- vocabularies, which bound the stats, paths, formulas and behaviors that may be named;
- what it means that a stat, a formula, a behavior, a path or a modifier stays within a
  vocabulary to any depth;
- the requests of formulas and transforms within a vocabulary;
- the vocabulary that bounds nothing.

A stat that an operation names is held to `head`; a stat inside of another, in a formula
or in a behavior is held to `stat`.
-/

namespace CharacterSheet

/-- Bounds on what may be named. -/
structure Vocabulary where
  head : Stat → Prop
  stat : Stat → Prop
  path : Path → Prop
  formula : Formula → Prop
  behavior : Behavior → Prop
  main : path .main
  head_of_stat : ∀ named, stat named → head named

/-- Vocabularies within which modifiers can come and go: a stat that links two others can
be read inside of a calculation, and so can the path that it opens. -/
structure Vocabulary.Closed (vocabulary : Vocabulary) : Prop where
  item : ∀ name, vocabulary.path ⟨.item name, []⟩
  convertedFrom : ∀ source, vocabulary.stat source → vocabulary.path (.convertedFrom source)
  linking : ∀ named, vocabulary.head named → named.ends?.isSome → vocabulary.stat named

mutual

def Stat.Within (vocabulary : Vocabulary) : Stat → Prop
  | ⟨id, role, minimum, maximum, rounding, dataType, behaviors⟩ =>
      vocabulary.stat ⟨id, role, minimum, maximum, rounding, dataType, behaviors⟩ ∧
        role.Within vocabulary ∧ BoundWithin vocabulary minimum ∧
        BoundWithin vocabulary maximum ∧ BehaviorsWithin vocabulary behaviors

def BoundWithin (vocabulary : Vocabulary) : Option Stat → Prop
  | none => True
  | some stat => stat.Within vocabulary

def Role.Within (vocabulary : Vocabulary) : Role → Prop
  | .regular => True
  | .conversion source target => source.Within vocabulary ∧ target.Within vocabulary
  | .gain source target => source.Within vocabulary ∧ target.Within vocabulary

def Behavior.Within (vocabulary : Vocabulary) : Behavior → Prop
  | ⟨affects, stages, paths, transform⟩ =>
      vocabulary.behavior ⟨affects, stages, paths, transform⟩ ∧ transform.Within vocabulary

def BehaviorsWithin (vocabulary : Vocabulary) : List Behavior → Prop
  | [] => True
  | behavior :: rest => behavior.Within vocabulary ∧ BehaviorsWithin vocabulary rest

def Transform.Within (vocabulary : Vocabulary) : Transform → Prop
  | .multiply factor => factor.Within vocabulary
  | .plus formula => formula.Within vocabulary
  | .add _ | .scale _ | .set _ | .fallback _ | .fail _ => True

def Formula.Within (vocabulary : Vocabulary) : Formula → Prop
  | .reference stat _ ⟨source, conversions⟩ =>
      stat.Within vocabulary ∧ vocabulary.path ⟨source, conversions⟩ ∧
        StatsWithin vocabulary conversions
  | .perStep stat _ _ | .holds stat => stat.Within vocabulary
  | .component inner _ | .probe _ inner | .attempt inner _ => inner.Within vocabulary
  | .sum terms | .product terms => FormulasWithin vocabulary terms
  | .difference left right | .quotient left right =>
      left.Within vocabulary ∧ right.Within vocabulary
  | .constant _ | .fail _ => True

def FormulasWithin (vocabulary : Vocabulary) : List Formula → Prop
  | [] => True
  | formula :: rest => formula.Within vocabulary ∧ FormulasWithin vocabulary rest

def StatsWithin (vocabulary : Vocabulary) : List Stat → Prop
  | [] => True
  | stat :: rest => stat.Within vocabulary ∧ StatsWithin vocabulary rest

end

/-- A stat that an operation names, with all that it carries. -/
structure Stat.HeadWithin (vocabulary : Vocabulary) (stat : Stat) : Prop where
  head : vocabulary.head stat
  role : stat.role.Within vocabulary
  minimum : BoundWithin vocabulary stat.minimum
  maximum : BoundWithin vocabulary stat.maximum
  behaviors : BehaviorsWithin vocabulary stat.behaviors

structure PathOf.Within (vocabulary : Vocabulary) (path : Path) : Prop where
  allowed : vocabulary.path path
  conversions : StatsWithin vocabulary path.conversions

structure Modifier.Within (vocabulary : Vocabulary) (modifier : Modifier) : Prop where
  stats : ∀ stat ∈ modifier.stats, stat.HeadWithin vocabulary
  value : vocabulary.formula modifier.value ∧ modifier.value.Within vocabulary
  condition : ∀ condition ∈ modifier.condition,
    vocabulary.formula condition ∧ condition.Within vocabulary

section Parts

variable {vocabulary : Vocabulary}

theorem Stat.Within.stat {stat : Stat} (within : stat.Within vocabulary) :
    vocabulary.stat stat := by
  cases stat
  exact within.1

theorem Stat.Within.headWithin {stat : Stat} (within : stat.Within vocabulary) :
    stat.HeadWithin vocabulary := by
  have allowed := within.stat
  cases stat
  obtain ⟨_, role, minimum, maximum, behaviors⟩ := within
  exact ⟨vocabulary.head_of_stat _ allowed, role, minimum, maximum, behaviors⟩

theorem Stat.HeadWithin.within {stat : Stat} (within : stat.HeadWithin vocabulary)
    (allowed : vocabulary.stat stat) : stat.Within vocabulary := by
  cases stat
  exact ⟨allowed, within.role, within.minimum, within.maximum, within.behaviors⟩

theorem boundWithin_iff {bound : Option Stat} :
    BoundWithin vocabulary bound ↔ ∀ stat ∈ bound, stat.Within vocabulary := by
  cases bound <;> simp [BoundWithin]

theorem behaviorsWithin_iff {behaviors : List Behavior} :
    BehaviorsWithin vocabulary behaviors ↔ ∀ behavior ∈ behaviors, behavior.Within vocabulary := by
  induction behaviors with
  | nil => simp [BehaviorsWithin]
  | cons behavior rest inductionHypothesis => simp [BehaviorsWithin, inductionHypothesis]

theorem statsWithin_iff {stats : List Stat} :
    StatsWithin vocabulary stats ↔ ∀ stat ∈ stats, stat.Within vocabulary := by
  induction stats with
  | nil => simp [StatsWithin]
  | cons stat rest inductionHypothesis => simp [StatsWithin, inductionHypothesis]

theorem Behavior.Within.behavior {behavior : Behavior} (within : behavior.Within vocabulary) :
    vocabulary.behavior behavior := by
  cases behavior
  exact within.1

theorem Behavior.Within.transform {behavior : Behavior} (within : behavior.Within vocabulary) :
    behavior.transform.Within vocabulary := by
  cases behavior
  exact within.2

theorem PathOf.Within.main : (PathOf.main : Path).Within vocabulary :=
  ⟨vocabulary.main, trivial⟩

theorem PathOf.Within.at {path : Path} (within : path.Within vocabulary) (stage : Stage) :
    (path.at stage).Within vocabulary := by
  unfold PathOf.at
  split
  · exact PathOf.Within.main
  · exact within

theorem PathOf.Within.convertedStat {path : Path} (within : path.Within vocabulary) {source : Stat}
    (converted : path.convertedStat? = some source) : source.Within vocabulary := by
  obtain ⟨origin, conversions⟩ := path
  unfold PathOf.convertedStat? at converted
  match conversions with
  | [single] =>
      cases converted
      exact within.conversions.1

theorem PathOf.Within.convertedFrom (closed : vocabulary.Closed) {source : Stat}
    (within : source.Within vocabulary) :
    (PathOf.convertedFrom source : Path).Within vocabulary :=
  ⟨closed.convertedFrom source within.stat, within, trivial⟩

theorem Modifier.Within.path (closed : vocabulary.Closed) (modifier : Modifier) :
    modifier.path.Within vocabulary := by
  unfold Modifier.path
  apply PathOf.Within.at
  unfold Source.path
  split
  · exact ⟨closed.item _, trivial⟩
  · exact PathOf.Within.main

end Parts

/-! ### Requests of formulas and transforms -/

/-- A request for a stage of a stat within a vocabulary. -/
def Query.Stated (vocabulary : Vocabulary) : Query → Prop
  | .node stat _ path => stat.Within vocabulary ∧ path.Within vocabulary
  | .contribution _ => False

section Requests

variable {vocabulary : Vocabulary} {scope : Scope}

theorem Plan.asks_total {stat : Stat} (stated : ∀ query, query.Stated vocabulary → scope.query query)
    (within : stat.Within vocabulary) : (Plan.total stat).Asks scope :=
  Plan.asks_read (stated _ ⟨within, PathOf.Within.main⟩)

mutual

theorem Formula.plan_asks (stated : ∀ query, query.Stated vocabulary → scope.query query) :
    (formula : Formula) → formula.Within vocabulary → formula.plan.Asks scope
  | .constant _, _ => by
      unfold Formula.plan
      exact Plan.asks_pure _
  | .reference stat stage ⟨source, conversions⟩, within => by
      unfold Formula.plan
      exact Plan.asks_read (stated _ ⟨within.1, within.2.1, within.2.2⟩)
  | .perStep stat step amount, within => by
      unfold Formula.plan
      split
      · exact Plan.asks_fail _
      · apply Plan.asks_bind (Plan.asks_total stated within)
        intro total
        exact Plan.asks_pure _
  | .component inner index, within => by
      unfold Formula.plan
      apply Plan.asks_bind (Formula.plan_asks stated inner within)
      intro value
      cases value with
      | none => exact Plan.asks_pure _
      | some value =>
          show Plan.Asks scope (match value.component? index with | some _ => _ | none => _)
          split
          · exact Plan.asks_pure _
          · exact Plan.asks_fail _
  | .holds stat, within => by
      unfold Formula.plan
      apply Plan.asks_bind (Plan.asks_total stated within)
      intro total
      exact Plan.asks_pure _
  | .probe name inner, within => by
      unfold Formula.plan
      exact ⟨rfl, Formula.plan_asks stated inner within⟩
  | .attempt inner fallback, within => by
      unfold Formula.plan
      apply Plan.asks_bind (Plan.asks_attempt (Formula.plan_asks stated inner within))
      intro outcome
      cases outcome <;> exact Plan.asks_pure _
  | .fail fault, _ => by
      unfold Formula.plan
      exact Plan.asks_fail _
  | .sum terms, within => by
      unfold Formula.plan
      apply Plan.asks_bind (Formula.plans_asks stated terms within)
      intro values
      exact Plan.asks_pure _
  | .product factors, within => by
      unfold Formula.plan
      apply Plan.asks_bind (Formula.plans_asks stated factors within)
      intro values
      exact Plan.asks_pure _
  | .difference left right, within => by
      unfold Formula.plan
      apply Plan.asks_bind (Formula.plan_asks stated left within.1)
      intro first
      apply Plan.asks_bind (Formula.plan_asks stated right within.2)
      intro second
      cases first <;> cases second <;> exact Plan.asks_pure _
  | .quotient left right, within => by
      unfold Formula.plan
      apply Plan.asks_bind (Formula.plan_asks stated left within.1)
      intro first
      apply Plan.asks_bind (Formula.plan_asks stated right within.2)
      intro second
      cases first <;> cases second <;> exact Plan.asks_pure _

theorem Formula.plans_asks (stated : ∀ query, query.Stated vocabulary → scope.query query) :
    (formulas : List Formula) → FormulasWithin vocabulary formulas →
      (Formula.plans formulas).Asks scope
  | [], _ => by
      unfold Formula.plans
      exact Plan.asks_pure _
  | formula :: rest, within => by
      unfold Formula.plans
      apply Plan.asks_bind (Formula.plan_asks stated formula within.1)
      intro first
      apply Plan.asks_bind (Formula.plans_asks stated rest within.2)
      intro others
      exact Plan.asks_pure _

end

theorem Transform.plan_asks (stated : ∀ query, query.Stated vocabulary → scope.query query)
    {transform : Transform} (within : transform.Within vocabulary) (value : Option Value) :
    (transform.plan value).Asks scope := by
  cases transform with
  | multiply factor =>
      cases value with
      | none => exact Plan.asks_pure _
      | some present =>
          apply Plan.asks_bind (Plan.asks_total stated within)
          intro times
          cases times <;> exact Plan.asks_pure _
  | plus formula =>
      apply Plan.asks_bind (Formula.plan_asks stated formula within)
      intro addend
      exact Plan.asks_pure _
  | add amount => exact Plan.asks_pure _
  | scale factor => exact Plan.asks_pure _
  | set replacement => exact Plan.asks_pure _
  | fallback replacement => exact Plan.asks_pure _
  | fail fault => exact Plan.asks_fail _

theorem Transform.planAll_asks (stated : ∀ query, query.Stated vocabulary → scope.query query)
    {transforms : List Transform} (within : ∀ transform ∈ transforms, transform.Within vocabulary)
    (value : Option Value) : (Transform.planAll value transforms).Asks scope := by
  induction transforms generalizing value with
  | nil => exact Plan.asks_pure _
  | cons transform rest inductionHypothesis =>
      apply Plan.asks_bind (Transform.plan_asks stated (within transform List.mem_cons_self) value)
      intro changed
      exact inductionHypothesis
        (fun other member => within other (List.mem_cons_of_mem _ member)) changed

theorem Modifier.plan_asks (stated : ∀ query, query.Stated vocabulary → scope.query query)
    {modifier : Modifier} (within : modifier.Within vocabulary) : modifier.plan.Asks scope := by
  unfold Modifier.plan
  split
  · exact Formula.plan_asks stated _ within.value.2
  · next condition conditional =>
    apply Plan.asks_bind (Formula.plan_asks stated condition
      (within.condition condition (by simp [conditional])).2)
    intro truth
    cases conditionHolds condition.description truth with
    | error fault => exact Plan.asks_fail _
    | ok holds =>
        cases holds with
        | true => exact Formula.plan_asks stated _ within.value.2
        | false => exact Plan.asks_pure _

end Requests

/-! ### Faults in formulas and transforms -/

/-- A formula that never swallows a fault that a read answers. -/
def Formula.Propagates (formula : Formula) : Prop :=
  formula.plan.Propagates (fun _ => True) fun _ => True

/-- A transform that never swallows a fault that a read answers. -/
def Transform.Propagates (transform : Transform) : Prop :=
  ∀ value, (transform.plan value).Propagates (fun _ => True) fun _ => True

/-- Vocabularies in which no formula and no transform swallows a fault. -/
structure Vocabulary.Propagating (vocabulary : Vocabulary) : Prop where
  formula : ∀ formula, vocabulary.formula formula → formula.Propagates
  behavior : ∀ behavior, vocabulary.behavior behavior → behavior.transform.Propagates

/-- A formula that passes on every fault that a read answers, and has no faults of its own but those
that are `permitted`. -/
def Formula.Passes (permitted : Fault → Prop) (formula : Formula) : Prop :=
  formula.plan.Propagates (fun _ => True) permitted

/-- A transform that passes on every fault that a read answers, and has no faults of its own but those
that are `permitted`. -/
def Transform.Passes (permitted : Fault → Prop) (transform : Transform) : Prop :=
  ∀ value, (transform.plan value).Propagates (fun _ => True) permitted

/-- Vocabularies in which formulas and transforms pass on faults, and have no faults of their own but
those that are `permitted`. -/
structure Vocabulary.Passing (permitted : Fault → Prop) (vocabulary : Vocabulary) : Prop where
  formula : ∀ formula, vocabulary.formula formula → formula.Passes permitted
  behavior : ∀ behavior, vocabulary.behavior behavior → behavior.transform.Passes permitted

theorem Vocabulary.Propagating.passing {vocabulary : Vocabulary}
    (propagating : vocabulary.Propagating) : vocabulary.Passing fun _ => True :=
  ⟨propagating.formula, propagating.behavior⟩

/-- No behavior of a vocabulary changes the total of a path. -/
def Vocabulary.Flat (vocabulary : Vocabulary) : Prop :=
  ∀ behavior, vocabulary.behavior behavior → Stage.pathTotal ∉ behavior.stages

/-- Paths for what comes from a single stat have the global source. -/
def Vocabulary.Global (vocabulary : Vocabulary) : Prop :=
  ∀ path, vocabulary.path path → path.convertedStat?.isSome → path.source = .global

/-- The main path is for what every source gives. -/
theorem PathOf.main_unconverted (converted : (PathOf.main : Path).convertedStat?.isSome) :
    (PathOf.main : Path).source = .global := nomatch converted

theorem isLocal_conditionHolds {description : String} {truth : Option Value} {fault : Fault}
    (fails : conditionHolds description truth = .error fault) : fault.isLocal = true := by
  unfold conditionHolds at fails
  split at fails
  · contradiction
  · split at fails
    · contradiction
    · cases fails
      rfl

/-- Apart from what its formulas fail with, a modifier fails only if its condition is no truth value. -/
theorem Modifier.plan_passes {vocabulary : Vocabulary} {permitted : Fault → Prop}
    (passing : vocabulary.Passing permitted) {modifier : Modifier}
    (within : modifier.Within vocabulary) :
    modifier.plan.Propagates (fun _ => True) fun fault => permitted fault ∨ fault.isLocal = true := by
  have passes {formula : Formula} (allowed : vocabulary.formula formula) :
      formula.plan.Propagates (fun _ => True) fun fault => permitted fault ∨ fault.isLocal = true :=
    (passing.formula formula allowed).mono (fun _ heeded => heeded) fun _ => Or.inl
  unfold Modifier.plan
  split
  · exact passes within.value.1
  · next condition conditional =>
    apply Plan.propagates_bind (passes (within.condition condition (by simp [conditional])).1)
    intro truth
    cases outcome : conditionHolds condition.description truth with
    | error fault => exact .inr (isLocal_conditionHolds outcome)
    | ok holds =>
        cases holds with
        | true => exact passes within.value.1
        | false => trivial

theorem Transform.planAll_passes {permitted : Fault → Prop} {transforms : List Transform}
    (passes : ∀ transform ∈ transforms, transform.Passes permitted) (value : Option Value) :
    (Transform.planAll value transforms).Propagates (Transform.Passes permitted) permitted := by
  induction transforms generalizing value with
  | nil => trivial
  | cons transform rest inductionHypothesis =>
      have first := passes transform List.mem_cons_self value
      apply Plan.propagates_bind (first.mono (fun _ _ => trivial) fun _ permitted => permitted)
      intro changed
      exact inductionHypothesis
        (fun other member => passes other (List.mem_cons_of_mem _ member)) changed

/-! ### Vocabularies that bound little -/

/-- A vocabulary that bounds no stats. -/
def Vocabulary.bounding (formula : Formula → Prop) (behavior : Behavior → Prop)
    (path : Path → Prop) (main : path .main) : Vocabulary where
  head _ := True
  stat _ := True
  path := path
  formula := formula
  behavior := behavior
  main := main
  head_of_stat _ _ := trivial

theorem Vocabulary.closed_bounding {formula : Formula → Prop} {behavior : Behavior → Prop}
    {path : Path → Prop} {main : path .main} (item : ∀ name, path ⟨.item name, []⟩)
    (convertedFrom : ∀ source, path (.convertedFrom source)) :
    (Vocabulary.bounding formula behavior path main).Closed :=
  ⟨item, fun source _ => convertedFrom source, fun _ _ _ => trivial⟩

/-- The vocabulary that bounds nothing. -/
def Vocabulary.everything : Vocabulary :=
  .bounding (fun _ => True) (fun _ => True) (fun _ => True) trivial

theorem Vocabulary.closed_everything : Vocabulary.everything.Closed :=
  closed_bounding (fun _ => trivial) fun _ => trivial

mutual

theorem Stat.within_everything : (stat : Stat) → stat.Within .everything
  | ⟨_, role, minimum, maximum, _, _, behaviors⟩ =>
      ⟨trivial, role.within_everything, boundWithin_everything minimum,
        boundWithin_everything maximum, behaviorsWithin_everything behaviors⟩

theorem boundWithin_everything : (bound : Option Stat) → BoundWithin .everything bound
  | none => trivial
  | some stat => stat.within_everything

theorem Role.within_everything : (role : Role) → role.Within .everything
  | .regular => trivial
  | .conversion source target | .gain source target =>
      ⟨source.within_everything, target.within_everything⟩

theorem Behavior.within_everything : (behavior : Behavior) → behavior.Within .everything
  | ⟨_, _, _, transform⟩ => ⟨trivial, transform.within_everything⟩

theorem behaviorsWithin_everything :
    (behaviors : List Behavior) → BehaviorsWithin .everything behaviors
  | [] => trivial
  | behavior :: rest => ⟨behavior.within_everything, behaviorsWithin_everything rest⟩

theorem Transform.within_everything : (transform : Transform) → transform.Within .everything
  | .multiply factor => factor.within_everything
  | .plus formula => formula.within_everything
  | .add _ | .scale _ | .set _ | .fallback _ | .fail _ => trivial

theorem Formula.within_everything : (formula : Formula) → formula.Within .everything
  | .reference stat _ ⟨_, conversions⟩ =>
      ⟨stat.within_everything, trivial, statsWithin_everything conversions⟩
  | .perStep stat _ _ | .holds stat => stat.within_everything
  | .component inner _ | .probe _ inner | .attempt inner _ => inner.within_everything
  | .sum terms | .product terms => formulasWithin_everything terms
  | .difference left right | .quotient left right =>
      ⟨left.within_everything, right.within_everything⟩
  | .constant _ | .fail _ => trivial

theorem formulasWithin_everything :
    (formulas : List Formula) → FormulasWithin .everything formulas
  | [] => trivial
  | formula :: rest => ⟨formula.within_everything, formulasWithin_everything rest⟩

theorem statsWithin_everything : (stats : List Stat) → StatsWithin .everything stats
  | [] => trivial
  | stat :: rest => ⟨stat.within_everything, statsWithin_everything rest⟩

end

theorem PathOf.within_everything (path : Path) : path.Within .everything :=
  ⟨trivial, statsWithin_everything path.conversions⟩

theorem Modifier.within_everything (modifier : Modifier) : modifier.Within .everything :=
  ⟨fun stat _ => stat.within_everything.headWithin, ⟨trivial, modifier.value.within_everything⟩,
    fun condition _ => ⟨trivial, condition.within_everything⟩⟩

end CharacterSheet
