import CharacterSheet.Proofs.Membership.Backing
import CharacterSheet.Proofs.Calculation.Recomputing
import CharacterSheet.Proofs.Announcement.Settling
import CharacterSheet.Proofs.Calculation.Uncaching

/-!
Contract: a breakdown lists what there is and explains the total.

Owns:
- what a plan comes to from cached values alone, as a simp set over the constructors of plans;
- a plan that is performed without behaviors and succeeds comes, from the cached values it leaves
  behind, to what it answered;
- the contributions of one form and one path in a breakdown, and what they add up to;
- after any operations without behaviors: a breakdown lists every membership once and in order, with
  the value that its modifier gives, and its numbers are those of the nodes and follow from each
  other.
-/

namespace CharacterSheet
namespace Graph

/-- The node that answers a request has a cached value. -/
def Stores (graph : Graph) (query : Query) (value : Option Value) : Prop :=
  ∃ node, graph.located query = some node ∧ graph.known node = some value

theorem Stores.unique {graph : Graph} {query : Query} {value other : Option Value}
    (stores : graph.Stores query value) (again : graph.Stores query other) : value = other := by
  obtain ⟨node, found, known⟩ := stores
  obtain ⟨same, there, held⟩ := again
  cases found.symm.trans there
  exact Option.some.inj (known.symm.trans held)

end Graph

/-! ### What plans come to -/

/-- A plan comes to a result if all that it asks for is cached. -/
def Plan.Comes {α : Type} (graph : Graph) (plan : Plan α) (result : α) : Prop :=
  ∃ reads, plan.Yields graph result reads

namespace Plan

variable {α β : Type} {graph : Graph}

@[simp] theorem comes_pure {result other : α} :
    (pure result : Plan α).Comes graph other ↔ other = result := by
  constructor
  · rintro ⟨_, yields⟩
    cases yields
    rfl
  · rintro rfl
    exact ⟨[], .finish⟩

@[simp] theorem comes_finish {outcome : Except Fault α} {result : α} :
    (finish outcome).Comes graph result ↔ outcome = .ok result := by
  constructor
  · rintro ⟨_, yields⟩
    cases yields
    rfl
  · rintro rfl
    exact ⟨[], .finish⟩

@[simp] theorem comes_bind {plan : Plan α} {next : α → Plan β} {result : β} :
    (plan >>= next).Comes graph result ↔
      ∃ first, plan.Comes graph first ∧ (next first).Comes graph result := by
  constructor
  · rintro ⟨_, yields⟩
    obtain ⟨first, before, after, yielded, later, _⟩ := Yields.of_bind yields
    exact ⟨first, ⟨before, yielded⟩, ⟨after, later⟩⟩
  · rintro ⟨first, ⟨before, yielded⟩, after, later⟩
    exact ⟨before ++ after, yielded.bind later⟩

@[simp] theorem comes_ask {query : Query} {resume : Reply → Plan α} {result : α} :
    (ask query resume).Comes graph result ↔
      ∃ cached, graph.Stores query cached ∧ (resume (.ok cached)).Comes graph result := by
  constructor
  · rintro ⟨_, yields⟩
    cases yields with
    | read found known rest => exact ⟨_, ⟨_, found, known⟩, _, rest⟩
  · rintro ⟨cached, ⟨node, found, known⟩, reads, rest⟩
    exact ⟨node :: reads, .read found known rest⟩

@[simp] theorem comes_consult {stat : StatId} {stage : Stage} {path : PathId}
    {resume : List Transform → Plan α} {result : α} :
    (consult stat stage path resume).Comes graph result ↔
      (resume (graph.transformsFor stat stage path)).Comes graph result := by
  constructor
  · rintro ⟨_, yields⟩
    cases yields with
    | consult rest => exact ⟨_, rest⟩
  · rintro ⟨reads, rest⟩
    exact ⟨reads, .consult rest⟩

@[simp] theorem comes_note {record : Record} {next : Plan α} {result : α} :
    (note record next).Comes graph result ↔ next.Comes graph result := by
  constructor
  · rintro ⟨_, yields⟩
    cases yields with
    | note rest => exact ⟨_, rest⟩
  · rintro ⟨reads, rest⟩
    exact ⟨reads, .note rest⟩

@[simp] theorem comes_read {stat : Stat} {stage : Stage} {path : Path} {value : Option Value} :
    (read stat stage path).Comes graph value ↔ graph.Stores (.node stat stage path) value := by
  simp [read]

@[simp] theorem comes_contribution {modifier : ModifierId} {value : Option Value} :
    (contribution modifier).Comes graph value ↔ graph.Stores (.contribution modifier) value := by
  simp [contribution]

/-- What is gathered is what the plans of the items come to, one by one. -/
@[simp] theorem comes_gather {plan : β → Plan α} {items : List β} {results : List α} :
    (gather plan items).Comes graph results ↔
      List.Forall₂ (fun item result => (plan item).Comes graph result) items results := by
  induction items generalizing results with
  | nil => simp [gather]
  | cons item rest inductionHypothesis =>
      simp only [gather, comes_bind, comes_pure, inductionHypothesis, List.forall₂_cons_left_iff]
      constructor
      · rintro ⟨first, comes, others, later, rfl⟩
        exact ⟨first, others, comes, later, rfl⟩
      · rintro ⟨first, others, comes, later, rfl⟩
        exact ⟨first, comes, others, later, rfl⟩

end Plan

namespace Graph

variable {vocabulary : Vocabulary} {graph other : Graph}

theorem Stores.mono {query : Query} {value : Option Value} (stores : graph.Stores query value)
    (larger : graph.Extends other) (steady : graph.Steady other) : other.Stores query value := by
  obtain ⟨node, found, known⟩ := stores
  exact ⟨node, larger.located found, steady.known node value known⟩

/-! ### Performing plans -/

/-- Requests that nodes answer: those for stages, and those for contributions that have a node. -/
def attendedScope (vocabulary : Vocabulary) (graph : Graph) : Scope where
  query
    | .node stat _ path => stat.HeadWithin vocabulary ∧ path.Within vocabulary
    | .contribution modifier => (graph.contributions.get? modifier).isSome
  place _ _ _ := True
  transform transform := transform.Within vocabulary

theorem stated_of_attended {query : Query} (asked : (attendedScope vocabulary graph).query query) :
    (statedScope vocabulary).query query := by
  cases query with
  | node stat stage path => exact asked
  | contribution modifier => trivial

/-- A plan that is performed without behaviors, fails with the first fault that a read answers and
succeeds comes to the same result afterwards from cached values alone. -/
theorem comes_run {α : Type} (bare : vocabulary.Bare) (resting : graph.Resting vocabulary)
    {plan : Plan α} {frame after : Frame} {result : α}
    (asks : plan.Asks (attendedScope vocabulary graph))
    (propagates : plan.Propagates (fun _ => True) fun _ => True)
    (explores : Explores vocabulary graph frame.graph)
    (ran : plan.run outside frame = some (.ok result, after)) :
    plan.Comes after.graph result ∧ Explores vocabulary frame.graph after.graph := by
  induction plan generalizing frame with
  | finish outcome =>
      cases ran
      exact ⟨Plan.comes_finish.mpr rfl, .refl⟩
  | ask query resume inductionHypothesis =>
      have before := explores.resting resting
      have asked : (statedScope vocabulary).query query := stated_of_attended asks.1
      have located : Explores vocabulary frame.graph (frame.graph.locate query).2 :=
        .locate .refl asked
      rw [Plan.run, outside, show (Frame.interpreter _).answer = Frame.answer _ from rfl,
        Frame.answer_eq] at ran
      rcases found : frame.graph.locate query with ⟨answer | node, grown⟩
      · rw [found] at ran
        replace ran : (resume answer).run outside { frame with graph := grown } =
          some (.ok result, after) := ran
        obtain ⟨-, ⟨stat, stage, path, rfl, -, rfl⟩ | ⟨modifier, rfl, missing, -⟩⟩ :=
          refused_locate found
        · rw [propagates.1 (.unresolvedReference stat.id) rfl] at ran
          cases ran
        · have there : (graph.contributions.get? modifier).isSome := asks.1
          rw [← (explores.advances resting).grows.contributions, missing] at there
          cases there
      · rw [found] at located ran
        replace located : Explores vocabulary frame.graph grown := located
        replace ran : (resume (grown.valueOf node).1).run outside
          (frame.after node (grown.valueOf node).2) = some (.ok result, after) := ran
        have rested := located.resting before
        have place := located_locate before.formed before.stacked asked found
        have addressed := rested.formed.located_addressed place
        have evaluates := evaluates_valueOf rested node
        have reads : Explores vocabulary grown (grown.valueOf node).2 :=
          explores_valueOf rested addressed
        have calm := (evaluates.registrations bare.hushed rested.formed rested.stacked).le
        have kept := ((evaluates.logs rested.formed rested.stacked addressed).calm calm).2
        have plain := evaluates.plain
        rcases outcome : grown.valueOf node with ⟨fault | cached, read⟩
        · rw [outcome] at plain ran
          rw [propagates.1 fault (plain fault rfl)] at ran
          cases ran
        · rw [outcome] at reads kept ran
          have last := reads.resting rested
          obtain ⟨comes, further⟩ := inductionHypothesis (.ok cached) (asks.2 _)
            (propagates.2 cached) ((explores.trans located).trans reads) ran
          have held : read.Stores query cached :=
            ⟨node, (reads.advances rested).grows.located place, kept cached rfl⟩
          have stores := held.mono (further.advances last).grows.toExtends
            (further.untouched bare last).toSteady
          exact ⟨Plan.comes_ask.mpr ⟨cached, stores, comes⟩, (located.trans reads).trans further⟩
  | consult stat stage path resume inductionHypothesis =>
      have before := explores.resting resting
      obtain ⟨comes, further⟩ := inductionHypothesis _ (asks.2 _ before.formed.transforms_within)
        (propagates _ fun _ _ => trivial) explores ran
      refine ⟨Plan.comes_consult.mpr ?_, further⟩
      rw [transformsFor, (further.untouched bare before).behaviors]
      exact comes
  | note entry rest inductionHypothesis =>
      have noted : Explores vocabulary frame.graph (frame.graph.record entry) :=
        .note .refl (Record.inward_of_note asks.1)
      obtain ⟨comes, further⟩ := inductionHypothesis asks.2 propagates (explores.trans noted) ran
      exact ⟨Plan.comes_note.mpr comes, noted.trans further⟩

theorem comes_perform {α : Type} (bare : vocabulary.Bare) (resting : graph.Resting vocabulary)
    {plan : Plan α} {result : α}
    (asks : plan.Asks (attendedScope vocabulary graph))
    (propagates : plan.Propagates (fun _ => True) fun _ => True)
    (succeeds : (graph.perform plan).1 = .ok result) :
    plan.Comes (graph.perform plan).2 result := by
  obtain ⟨⟨outcome, after⟩, ran⟩ :=
    Option.isSome_iff_exists.mp (Plan.run_isSome outside_answers plan { graph })
  have ends : graph.perform plan = (outcome, after.graph) := by
    simp only [perform, ran, Option.get_some]
  rw [ends] at succeeds ⊢
  cases succeeds
  exact (comes_run bare resting asks propagates .refl ran).1

/-! ### Breakdowns from cached values -/

/-- The cached value of what a request asks for; absent if there is none. -/
def cached (graph : Graph) (query : Query) : Option Value :=
  ((graph.located query).bind graph.known).getD none

theorem Stores.of_some {query : Query} (stores : ∃ value, graph.Stores query value) :
    graph.Stores query (graph.cached query) := by
  obtain ⟨value, node, found, known⟩ := stores
  refine ⟨node, found, ?_⟩
  rw [cached, found, Option.bind_some, known]
  rfl

theorem Stores.cached_eq {query : Query} {value : Option Value}
    (stores : graph.Stores query value) : graph.cached query = value := by
  obtain ⟨node, found, known⟩ := stores
  rw [cached, found, Option.bind_some, known]
  rfl

/-- What the membership of a modifier contributes, by its cached value. -/
def itemOf (graph : Graph) (form : Form) (path : PathId) (id : ModifierId) (modifier : Modifier) :
    Contribution :=
  { modifier := id, form, path, source := modifier.source,
    value := graph.cached (.contribution id), description := modifier.description }

/-- The contributions to a roster, in the order of its members. -/
def itemized (graph : Graph) (stat : StatId) (form : Form) (path : PathId) : List Contribution :=
  (graph.members stat form path).filterMap fun id =>
    (graph.modifiers.get? id).map (graph.itemOf form path id)

/-- The stages of a path by their cached values. -/
def partOf (graph : Graph) (stat : Stat) (path : Path) : PathBreakdown :=
  { path := path.id, base := graph.cached (.node stat .base path),
    increase := graph.cached (.node stat .increase path),
    more := graph.cached (.node stat .more path),
    total := graph.cached (.node stat .pathTotal path) }

end Graph

theorem Plan.Comes.gathered {α β : Type} {graph : Graph} {plan : β → Plan α} {expected : β → α}
    {items : List β} {results : List α}
    (each : ∀ item result, (plan item).Comes graph result → result = expected item)
    (comes : (Plan.gather plan items).Comes graph results) :
    results = items.map expected ∧ ∀ item ∈ items, (plan item).Comes graph (expected item) := by
  rw [Plan.comes_gather] at comes
  induction comes with
  | nil => exact ⟨rfl, fun _ member => absurd member List.not_mem_nil⟩
  | cons comes _ inductionHypothesis =>
      obtain ⟨rfl, later⟩ := inductionHypothesis
      cases each _ _ comes
      exact ⟨rfl, List.forall_mem_cons.mpr ⟨comes, later⟩⟩

namespace Graph

variable {vocabulary : Vocabulary} {graph other : Graph}

/-- A breakdown asks for the same after any reads. -/
theorem Extends.breakdownPlan (larger : graph.Extends other) (stat : Stat) :
    other.breakdownPlan stat = graph.breakdownPlan stat := by
  have contributions : other.contributionPlan = graph.contributionPlan := by
    funext form path id
    rw [contributionPlan, contributionPlan, larger.modifiers]
  have paths : other.pathPlan stat = graph.pathPlan stat := by
    funext path
    simp only [pathPlan, contributions, larger.members]
  rw [Graph.breakdownPlan, Graph.breakdownPlan, larger.paths, paths]

theorem comes_contributionPlan {form : Form} {path : PathId} {id : ModifierId}
    {result : Option Contribution} :
    (graph.contributionPlan form path id).Comes graph result →
      result = (graph.modifiers.get? id).map (graph.itemOf form path id) := by
  simp only [contributionPlan, Plan.comes_bind, Plan.comes_contribution, Plan.comes_pure]
  rintro ⟨value, stores, rfl⟩
  congr 1
  funext modifier
  rw [itemOf, stores.cached_eq]

/-- The forms whose rosters are listed with a path. -/
def formsOf (path : Path) : List Form :=
  Form.all.filter fun form => decide ((path.at form.stage).id = path.id)

theorem comes_pathPlan {stat : Stat} {path : Path} {result : PathBreakdown × List Contribution} :
    (graph.pathPlan stat path).Comes graph result →
      result = (graph.partOf stat path,
        (formsOf path).flatMap fun form => graph.itemized stat.id form path.id) ∧
      (∀ stage ∈ [Stage.base, .increase, .more, .pathTotal],
        ∃ value, graph.Stores (.node stat stage path) value) ∧
      ∀ form ∈ formsOf path, ∀ id ∈ graph.members stat.id form path.id,
        ∃ value, graph.Stores (.contribution id) value := by
  simp only [pathPlan, Plan.comes_bind, Plan.comes_read, Plan.comes_pure]
  rintro ⟨base, isBase, increase, isIncrease, more, isMore, total, isTotal, listed, items, rfl⟩
  obtain ⟨rfl, each⟩ := items.gathered (fun form results comes =>
    (comes.gathered fun id _ => comes_contributionPlan).1)
  refine ⟨?_, ?_, fun form member id enrolled => ?_⟩
  · simp only [partOf, isBase.cached_eq, isIncrease.cached_eq, isMore.cached_eq, isTotal.cached_eq,
      ← List.flatMap_def, List.filterMap_flatMap, List.filterMap_map, itemized, Function.comp_def,
      id_eq, formsOf]
  · simp only [List.forall_mem_cons]
    exact ⟨⟨_, isBase⟩, ⟨_, isIncrease⟩, ⟨_, isMore⟩, ⟨_, isTotal⟩,
      fun _ member => absurd member List.not_mem_nil⟩
  · have comes := ((each form member).gathered fun id _ => comes_contributionPlan).2 id enrolled
    simp only [contributionPlan, Plan.comes_bind, Plan.comes_contribution] at comes
    obtain ⟨value, stores, -⟩ := comes
    exact ⟨value, stores⟩

/-- A breakdown by cached values. -/
def brokenDown (graph : Graph) (stat : Stat) : Breakdown :=
  { stat := stat.id, total := graph.cached (.node stat .total .main),
    totalOverride := graph.cached (.node stat .totalOverride .main),
    subtotal := graph.cached (.node stat .subtotal .main),
    paths := (graph.paths stat.id).map (graph.partOf stat),
    contributions := (graph.paths stat.id).flatMap fun path =>
      (formsOf path).flatMap fun form => graph.itemized stat.id form path.id }

theorem comes_breakdownPlan {stat : Stat} {breakdown : Breakdown} :
    (graph.breakdownPlan stat).Comes graph breakdown →
      breakdown = graph.brokenDown stat ∧
      (∀ stage ∈ [Stage.total, .totalOverride, .subtotal],
        ∃ value, graph.Stores (.node stat stage .main) value) ∧
      ∀ path ∈ graph.paths stat.id,
        (∀ stage ∈ [Stage.base, .increase, .more, .pathTotal],
          ∃ value, graph.Stores (.node stat stage path) value) ∧
        ∀ form ∈ formsOf path, ∀ id ∈ graph.members stat.id form path.id,
          ∃ value, graph.Stores (.contribution id) value := by
  simp only [breakdownPlan, Plan.comes_bind, Plan.comes_read, Plan.comes_pure]
  rintro ⟨total, isTotal, override, isOverride, subtotal, isSubtotal, parts, gathers, rfl⟩
  obtain ⟨rfl, each⟩ := gathers.gathered fun path _ comes => (comes_pathPlan comes).1
  refine ⟨?_, ?_, fun path member => (comes_pathPlan (each path member)).2⟩
  · simp only [brokenDown, isTotal.cached_eq, isOverride.cached_eq, isSubtotal.cached_eq,
      List.map_map, List.flatMap_map, Function.comp_def]
  · simp only [List.forall_mem_cons]
    exact ⟨⟨_, isTotal⟩, ⟨_, isOverride⟩, ⟨_, isSubtotal⟩,
      fun _ member => absurd member List.not_mem_nil⟩

/-! ### Stages from cached values -/

/-- A stage has one node, whichever copy of its stat it is asked for with. -/
theorem located_renamed {stat copy : Stat} {stage : Stage} {path route : Path}
    (resolved : stat.isResolved = true) (copied : copy.isResolved = true)
    (same : copy.id = stat.id) (place : route.id.at stage = path.id.at stage) :
    graph.located (.node copy stage route) = graph.located (.node stat stage path) := by
  simp only [located, resolved, copied, ↓reduceIte, node?, same, place]

theorem WellFormed.transformsFor_bare (bare : vocabulary.Bare) (formed : graph.WellFormed vocabulary)
    (stat : StatId) (stage : Stage) (path : PathId) : graph.transformsFor stat stage path = [] := by
  apply List.eq_nil_iff_forall_not_mem.mpr
  intro transform member
  obtain ⟨behavior, within, _⟩ := formed.transforms member
  exact bare behavior within.behavior

/-- A copy of a stat that stands for it in requests. -/
structure Stands (copy stat : Stat) : Prop where
  same : copy.id = stat.id
  resolved : stat.isResolved = true
  copied : copy.isResolved = true

theorem Stands.stores {copy stat : Stat} {stage : Stage} {path route : Path} {value : Option Value}
    (stands : Stands copy stat) (place : route.id.at stage = path.id.at stage) :
    graph.Stores (.node copy stage route) value ↔ graph.Stores (.node stat stage path) value := by
  rw [Stores, Stores, located_renamed stands.resolved stands.copied stands.same place]

/-- Without behaviors, a cached value of a stage is what the plan of the stage comes to. -/
theorem Stores.comes (bare : vocabulary.Bare) (formed : graph.WellFormed vocabulary)
    (coherent : graph.Coherent Clean) {stat : Stat} {stage : Stage} {path : Path}
    {value : Option Value} (stores : graph.Stores (.node stat stage path) value) :
    ∃ pipeline route, graph.pipelines.get? stat.id = some pipeline ∧
      Stands pipeline.stat stat ∧ route.id = path.id.at stage ∧
        (graph.stagePlan pipeline.stat stage route).Comes graph value := by
  obtain ⟨node, found, known⟩ := stores
  rw [located] at found
  split at found
  · next resolved =>
    obtain ⟨pipeline, here, lists⟩ := Option.bind_eq_some_iff.mp found
    obtain ⟨address, reads, place, yields, -⟩ := coherent.justified node value known id
    obtain ⟨route, own, routed, -⟩ := formed.listed _ _ _ _ _ here lists
    cases place.symm.trans own
    have kept := formed.pipelines _ _ here
    refine ⟨pipeline, route, here, ⟨kept.keyed, resolved, kept.resolved⟩, routed, ?_⟩
    rw [planOf_pipeline here] at yields
    obtain ⟨plain, first, later, before, after, -⟩ := Plan.Yields.of_bind yields
    have comes : (Plan.degrade (.pipeline stat.id stage route.id) (.consult stat.id stage route.id
      (Transform.planAll plain))).Comes graph value := ⟨later, after⟩
    have same : plain = value := by
      rw [Plan.degrade, Plan.attempt] at comes
      replace comes := Plan.comes_consult.mp comes
      rw [formed.transformsFor_bare bare] at comes
      exact (Plan.comes_pure.mp comes).symm
    exact same ▸ ⟨first, before⟩
  · cases found

/-! ### Rosters from cached values -/

/-- What the members of a roster contribute, by their cached values. -/
def amounts (graph : Graph) (stat : StatId) (form : Form) (path : PathId) : List (Option Value) :=
  (graph.members stat form path).map fun id => graph.cached (.contribution id)

theorem comes_contributionsTo {stat : StatId} {form : Form} {path : PathId}
    {values : List (Option Value)} (comes : (graph.contributionsTo stat form path).Comes graph values) :
    values = graph.amounts stat form path :=
  (comes.gathered fun _ _ contributes => (Plan.comes_contribution.mp contributes).cached_eq.symm).1

/-- What is made of the contributions to a roster is made of its members. -/
theorem WellFormed.map_itemized (formed : graph.WellFormed vocabulary) {α : Type} (stat : StatId)
    (form : Form) (path : PathId) {view : Contribution → α} {seen : ModifierId → α}
    (agree : ∀ id modifier, graph.modifiers.get? id = some modifier →
      view (graph.itemOf form path id modifier) = seen id) :
    (graph.itemized stat form path).map view = (graph.members stat form path).map seen := by
  rw [itemized, List.map_filterMap, ← List.filterMap_eq_map]
  apply List.filterMap_congr
  intro id member
  obtain ⟨modifier, present, -⟩ := formed.enrolled member
  rw [present, Option.map_some, Option.map_some, agree id modifier present]
  rfl

theorem WellFormed.values_itemized (formed : graph.WellFormed vocabulary) (stat : StatId)
    (form : Form) (path : PathId) :
    (graph.itemized stat form path).map (·.value) = graph.amounts stat form path :=
  formed.map_itemized stat form path fun _ _ _ => rfl

theorem mem_itemized {stat : StatId} {form : Form} {path : PathId} {item : Contribution} :
    item ∈ graph.itemized stat form path ↔ ∃ id ∈ graph.members stat form path, ∃ modifier,
      graph.modifiers.get? id = some modifier ∧ graph.itemOf form path id modifier = item := by
  simp only [itemized, List.mem_filterMap, Option.map_eq_some_iff]

/-- A roster that is not listed with its path has no members. -/
theorem WellFormed.itemized_misplaced (formed : graph.WellFormed vocabulary) {stat : StatId}
    {form : Form} {path : PathId} (misplaced : path.at form.stage ≠ path) :
    graph.itemized stat form path = [] := by
  rw [itemized, List.filterMap_eq_nil_iff]
  intro id member
  obtain ⟨modifier, -, rfl, rfl, -⟩ := formed.enrolled member
  refine absurd ?_ misplaced
  rw [Modifier.path, ← PathOf.id_at, PathOf.at_at]

/-- The rosters of a path are those of all forms: the others have no members. -/
theorem WellFormed.itemized_forms (formed : graph.WellFormed vocabulary) (stat : StatId)
    (path : Path) :
    (formsOf path).flatMap (fun form => graph.itemized stat form path.id) =
      Form.all.flatMap fun form => graph.itemized stat form path.id := by
  rw [formsOf]
  induction Form.all with
  | nil => rfl
  | cons form rest inductionHypothesis =>
      by_cases placed : (path.at form.stage).id = path.id
      · rw [List.filter_cons_of_pos (by simpa using placed), List.flatMap_cons, List.flatMap_cons,
          inductionHypothesis]
      · rw [List.filter_cons_of_neg (by simpa using placed), List.flatMap_cons,
          formed.itemized_misplaced (by rwa [← PathOf.id_at]), List.nil_append, inductionHypothesis]

end Graph

/-! ### Sums of listed contributions -/

namespace Breakdown

/-- The contributions of one form that are listed with one path. -/
def listedAt (breakdown : Breakdown) (form : Form) (path : PathId) : List Contribution :=
  (breakdown.contributionsOf form).filter (·.path = path)

def valuesAt (breakdown : Breakdown) (form : Form) (path : PathId) : List (Option Value) :=
  (breakdown.listedAt form path).map (·.value)

/-- The increases that are listed with a path. -/
def increaseOn (breakdown : Breakdown) (path : PathId) : Value :=
  (sumPresent (breakdown.valuesAt .increase path)).getD (.scalar 0)

/-- The multipliers that are listed with a path. -/
def factorOn (breakdown : Breakdown) (path : PathId) : Value :=
  (productPresent ((breakdown.valuesAt .more path).map (·.map moreFactor))).getD (.scalar 1)

/-- What the listed contributions of a form come to on a path; the increases and the multipliers of
the main path count on every other path too. -/
def aggregate (breakdown : Breakdown) (path : PathId) : Form → Option Value
  | .baseSet =>
      chooseBase ((breakdown.listedAt .baseSet path).map fun item =>
        (item.source.priority, item.value))
  | .baseAdd => sumPresent (breakdown.valuesAt .baseAdd path)
  | .increase =>
      if path.isMain then some (breakdown.increaseOn path)
      else some (breakdown.increaseOn path + breakdown.increaseOn .main)
  | .more =>
      if path.isMain then some (breakdown.factorOn path)
      else some (breakdown.factorOn path * breakdown.factorOn .main)
  | .totalOverride => highest ((breakdown.valuesAt .totalOverride path).filterMap id)

end Breakdown

namespace Graph

/-- What a request comes to: a read answers so, and so does a calculation from rosters, modifiers and
links alone, in which no cached value is used. -/
structure Gives (graph : Graph) (query : Query) (value : Option Value) : Prop where
  served : (graph.perform (.ask query .finish)).1 = .ok value
  anew : ∀ levels, graph.nodes.size < levels → ∃ names,
    graph.recompute (levels + 1) [] (.ask query .finish) = some (.ok value, names)

end Graph

/-- The form, the path and the modifier of a contribution. -/
def Contribution.membership (item : Contribution) : Form × PathId × ModifierId :=
  (item.form, item.path, item.modifier)

/-- A breakdown lists what makes up a stat and explains its total. -/
structure Breakdown.Explains (breakdown : Breakdown) (graph : Graph) (stat : Stat) : Prop where
  named : breakdown.stat = stat.id
  /-- Every path of the stat, once and in order, -/
  paths : breakdown.paths.map (·.path) = (graph.paths stat.id).map PathOf.id
  pathsOnce : (breakdown.paths.map (·.path)).Nodup
  /-- with the values of its stages. -/
  parts : ∀ part ∈ breakdown.paths, ∃ path ∈ graph.paths stat.id, path.id = part.path ∧
    graph.Gives (.node stat .base path) part.base ∧
    graph.Gives (.node stat .increase path) part.increase ∧
    graph.Gives (.node stat .more path) part.more ∧
    graph.Gives (.node stat .pathTotal path) part.total
  /-- The memberships in the rosters of the stat, in the order of paths, of forms and of members, -/
  memberships : breakdown.contributions.map (·.membership) =
    breakdown.paths.flatMap fun part => Form.all.flatMap fun form =>
      (graph.members stat.id form part.path).map fun id => (form, part.path, id)
  /-- none left out -/
  complete : ∀ form path, ∀ id ∈ graph.members stat.id form path,
    (form, path, id) ∈ breakdown.contributions.map (·.membership)
  /-- and none twice, -/
  once : (breakdown.contributions.map (·.membership)).Nodup
  /-- with what the modifier is and gives. -/
  contributions : ∀ item ∈ breakdown.contributions, ∃ modifier,
    graph.modifiers.get? item.modifier = some modifier ∧ item.source = modifier.source ∧
      item.description = modifier.description ∧
      graph.Gives (.contribution item.modifier) item.value
  /-- The contributions of a form and a path come to the value of their stage; overrides are for
  the main path. -/
  aggregates : ∀ path ∈ graph.paths stat.id, ∀ form : Form,
    (form = .totalOverride → path.isMain = true) →
      graph.Gives (.node stat form.stage path) (breakdown.aggregate path.id form)
  /-- The totals of the paths come to the subtotal before bounds. -/
  uncapped : graph.Gives (.node stat .uncappedSubtotal .main)
    (sumPresent (breakdown.paths.map (·.total)))
  totalOverride : graph.Gives (.node stat .totalOverride .main) breakdown.totalOverride
  subtotal : graph.Gives (.node stat .subtotal .main) breakdown.subtotal
  total : graph.Gives (.node stat .total .main) breakdown.total
  /-- The total is the override, or else the subtotal, rounded and in the data type of the stat as
  the graph keeps it. -/
  finalized : ∃ pipeline, graph.pipelines.get? stat.id = some pipeline ∧
    breakdown.total = (breakdown.totalOverride.or breakdown.subtotal).map pipeline.stat.finalize

/-- Selecting by a key that tells the items of a list apart selects what belongs to one of them. -/
theorem List.filter_flatMap_key {α β κ : Type} [DecidableEq κ] (key : α → κ) (keyed : β → κ)
    {items : List α} {parts : α → List β} (distinct : (items.map key).Nodup)
    (own : ∀ item ∈ items, ∀ part ∈ parts item, keyed part = key item) {item : α}
    (member : item ∈ items) :
    (items.flatMap parts).filter (fun part => decide (keyed part = key item)) = parts item := by
  induction items with
  | nil => cases member
  | cons head rest inductionHypothesis =>
      obtain ⟨apart, distinct⟩ := List.nodup_cons.mp distinct
      rw [List.flatMap_cons, List.filter_append]
      have others : ∀ other ∈ rest, key other ≠ key head := fun other listed same =>
        apart (List.mem_map.mpr ⟨other, listed, same⟩)
      rcases List.mem_cons.mp member with rfl | later
      · have first : (parts item).filter (fun part => decide (keyed part = key item)) = parts item :=
          List.filter_eq_self.mpr fun part inside => by simp [own item List.mem_cons_self part inside]
        have none : (rest.flatMap parts).filter (fun part => decide (keyed part = key item)) = [] := by
          refine List.filter_eq_nil_iff.mpr fun part inside => ?_
          obtain ⟨other, listed, belongs⟩ := List.mem_flatMap.mp inside
          rw [own other (List.mem_cons_of_mem _ listed) part belongs]
          simpa using others other listed
        rw [first, none, List.append_nil]
      · have none : (parts head).filter (fun part => decide (keyed part = key item)) = [] := by
          refine List.filter_eq_nil_iff.mpr fun part inside => ?_
          rw [own head List.mem_cons_self part inside]
          simpa using (others item later).symm
        rw [none, List.nil_append, inductionHypothesis distinct
          (fun other listed => own other (List.mem_cons_of_mem _ listed)) later]

theorem List.nodup_flatMap_key {α β κ : Type} (key : α → κ) (keyed : β → κ) {items : List α}
    {parts : α → List β} (distinct : (items.map key).Nodup)
    (own : ∀ item ∈ items, ∀ part ∈ parts item, keyed part = key item)
    (each : ∀ item ∈ items, (parts item).Nodup) : (items.flatMap parts).Nodup := by
  refine List.nodup_flatMap.mpr ⟨each, ?_⟩
  refine (List.pairwise_map.mp distinct).imp_of_mem ?_
  intro first second here there apart part inside again
  exact apart ((own first here part inside).symm.trans (own second there part again))

theorem nodup_foldl_insertPath {items paths : List Path}
    (distinct : (paths.map PathOf.id).Nodup) :
    ((items.foldl insertPath paths).map PathOf.id).Nodup := by
  induction items generalizing paths with
  | nil => exact distinct
  | cons head rest inductionHypothesis =>
      apply inductionHypothesis
      unfold insertPath
      split
      · exact distinct
      · next absent =>
        rw [any_id_iff] at absent
        rw [List.map_append, List.map_singleton]
        exact List.nodup_append.mpr ⟨distinct, List.nodup_singleton _, by
          rintro _ listed _ last rfl
          exact absent (List.mem_singleton.mp last ▸ listed)⟩

namespace Graph

variable {vocabulary : Vocabulary} {graph other : Graph}

/-- Every path of a stat is there once. -/
theorem nodup_paths (graph : Graph) (stat : StatId) : ((graph.paths stat).map PathOf.id).Nodup := by
  rw [paths_eq]
  exact nodup_foldl_insertPath (List.nodup_singleton _)

theorem main_mem_paths (graph : Graph) (stat : StatId) : (.main : Path) ∈ graph.paths stat := by
  have listed : .main ∈ (graph.paths stat).map PathOf.id := by
    rw [paths_eq]
    exact id_mem_foldl_insertPath.mpr (Or.inl List.mem_cons_self)
  obtain ⟨path, member, same⟩ := List.mem_map.mp listed
  have isMain : path.isMain = true := by
    rw [← PathOf.isMain_map Stat.id path, show path.map Stat.id = .main from same]
    rfl
  exact (PathOf.isMain_iff path).mp isMain ▸ member

/-- The contributions that are listed with a form and a path are those to their roster. -/
theorem WellFormed.listedAt_brokenDown (formed : graph.WellFormed vocabulary) (stat : Stat)
    (form : Form) {path : PathId} (listed : path ∈ (graph.paths stat.id).map PathOf.id) :
    (graph.brokenDown stat).listedAt form path = graph.itemized stat.id form path := by
  obtain ⟨full, member, rfl⟩ := List.mem_map.mp listed
  have ofForm : ((Form.all.flatMap fun form => graph.itemized stat.id form full.id).filter
      fun item => decide (item.form = form)) = graph.itemized stat.id form full.id := by
    refine List.filter_flatMap_key id Contribution.form (by decide) ?_ form.mem_all
    intro other _ item inside
    obtain ⟨id, _, modifier, _, rfl⟩ := mem_itemized.mp inside
    rfl
  rw [Breakdown.listedAt, Breakdown.contributionsOf, List.filter_comm]
  simp only [brokenDown, formed.itemized_forms]
  rw [List.filter_flatMap_key PathOf.id Contribution.path (graph.nodup_paths stat.id) _ member, ofForm]
  intro other _ item inside
  obtain ⟨_, _, inside⟩ := List.mem_flatMap.mp inside
  obtain ⟨id, _, modifier, _, rfl⟩ := mem_itemized.mp inside
  rfl

/-- The plan of a stage whose result on the main path counts on every other path too. -/
def sharedPlan (graph : Graph) (stat : Stat) (form : Form) (own : List (Option Value) → Value)
    (join : Value → Value → Value) (path : Path) : Plan (Option Value) := do
  let values ← graph.contributionsTo stat.id form path.id
  if path.isMain then pure (some (own values))
  else
    match ← Plan.read stat form.stage .main with
    | some general => pure (some (join (own values) general))
    | none => pure (some (own values))

theorem comes_sharedPlan {stat : Stat} {form : Form} {own : List (Option Value) → Value}
    {join : Value → Value → Value} {path : Path} {value : Option Value}
    (comes : (graph.sharedPlan stat form own join path).Comes graph value) :
    if path.isMain then value = some (own (graph.amounts stat.id form path.id))
    else ∃ general, graph.Stores (.node stat form.stage .main) general ∧
      value = some (general.elim (own (graph.amounts stat.id form path.id))
        (join (own (graph.amounts stat.id form path.id)))) := by
  rw [sharedPlan, Plan.comes_bind] at comes
  obtain ⟨values, contributes, comes⟩ := comes
  cases comes_contributionsTo contributes
  split at comes
  · next main =>
    rw [if_pos main]
    exact Plan.comes_pure.mp comes
  · next aside =>
    rw [Plan.comes_bind] at comes
    obtain ⟨general, reads, comes⟩ := comes
    rw [if_neg aside]
    refine ⟨general, Plan.comes_read.mp reads, ?_⟩
    cases general <;> exact Plan.comes_pure.mp comes

/-- The aggregate of such a stage. -/
theorem Stores.shared (bare : vocabulary.Bare) (formed : graph.WellFormed vocabulary)
    (coherent : graph.Coherent Clean) {stat : Stat} {form : Form}
    (own : List (Option Value) → Value) (join : Value → Value → Value) {path : Path}
    {value : Option Value}
    (plan : ∀ stat path, graph.stagePlan stat form.stage path = graph.sharedPlan stat form own join path)
    (placed : path.id.at form.stage = path.id)
    (main : ∃ general, graph.Stores (.node stat form.stage .main) general)
    (stores : graph.Stores (.node stat form.stage path) value) :
    value = if path.id.isMain then some (own (graph.amounts stat.id form path.id))
      else some (join (own (graph.amounts stat.id form path.id))
        (own (graph.amounts stat.id form .main))) := by
  have stage {path : Path} {value : Option Value} (placed : path.id.at form.stage = path.id)
      (stores : graph.Stores (.node stat form.stage path) value) :
      if path.id.isMain then value = some (own (graph.amounts stat.id form path.id))
      else ∃ general, graph.Stores (.node stat form.stage .main) general ∧
        value = some (general.elim (own (graph.amounts stat.id form path.id))
          (join (own (graph.amounts stat.id form path.id)))) := by
    obtain ⟨pipeline, route, -, stands, routed, comes⟩ := stores.comes bare formed coherent
    rw [plan] at comes
    have aggregates := comes_sharedPlan comes
    rw [routed, placed, stands.same] at aggregates
    have same : route.isMain = path.id.isMain := by rw [← placed, ← routed, PathOf.id, PathOf.isMain_map]
    rw [same] at aggregates
    simpa only [stands.stores rfl] using aggregates
  obtain ⟨general, reads⟩ := main
  have ofMain : general = some (own (graph.amounts stat.id form .main)) :=
    @stage .main general (by cases form <;> rfl) reads
  have ofPath := stage placed stores
  split at ofPath
  · next isMain => rw [if_pos isMain, ofPath]
  · next aside =>
    obtain ⟨other, again, rfl⟩ := ofPath
    rw [if_neg aside, ← reads.unique again, ofMain]
    rfl

theorem values_brokenDown (formed : graph.WellFormed vocabulary) (stat : Stat) (form : Form)
    {path : PathId} (listed : path ∈ (graph.paths stat.id).map PathOf.id) :
    (graph.brokenDown stat).valuesAt form path = graph.amounts stat.id form path := by
  rw [Breakdown.valuesAt, formed.listedAt_brokenDown stat form listed, formed.values_itemized]

/-- The cached value of a stage that collects a form is the aggregate of the contributions that the
breakdown lists. -/
theorem Stores.aggregate (bare : vocabulary.Bare) (formed : graph.WellFormed vocabulary)
    (coherent : graph.Coherent Clean) {stat : Stat} {form : Form} {path : Path}
    {value : Option Value} (listed : path.id ∈ (graph.paths stat.id).map PathOf.id)
    (placed : path.id.at form.stage = path.id)
    (main : ∀ form ∈ [Form.increase, .more],
      ∃ general, graph.Stores (.node stat form.stage .main) general)
    (stores : graph.Stores (.node stat form.stage path) value) :
    value = (graph.brokenDown stat).aggregate path.id form := by
  obtain ⟨pipeline, route, here, stands, routed, comes⟩ := stores.comes bare formed coherent
  rw [placed] at routed
  have onMain : .main ∈ (graph.paths stat.id).map PathOf.id :=
    List.mem_map_of_mem (graph.main_mem_paths stat.id)
  cases form with
  | baseSet =>
      simp only [Form.stage, stagePlan, baseSetPlan, Plan.comes_bind, Plan.comes_pure] at comes
      obtain ⟨values, contributes, rfl⟩ := comes
      rw [comes_contributionsTo contributes, Breakdown.aggregate, amounts,
        formed.listedAt_brokenDown stat .baseSet listed, routed, stands.same, List.zip_map']
      congr 1
      refine (formed.map_itemized _ _ _ fun id modifier present => ?_).symm
      rw [itemOf, priorityOf, present]
  | baseAdd =>
      simp only [Form.stage, stagePlan, baseAddPlan, Plan.comes_bind, Plan.comes_pure] at comes
      obtain ⟨values, contributes, rfl⟩ := comes
      rw [comes_contributionsTo contributes, Breakdown.aggregate,
        values_brokenDown formed stat .baseAdd listed, routed, stands.same]
  | increase =>
      rw [stores.shared bare formed coherent (fun values => (sumPresent values).getD (.scalar 0))
        (· + ·) (fun _ _ => rfl) placed (main .increase (by simp)), Breakdown.aggregate,
        Breakdown.increaseOn, Breakdown.increaseOn, values_brokenDown formed stat .increase listed,
        values_brokenDown formed stat .increase onMain]
  | more =>
      rw [stores.shared bare formed coherent
        (fun values => (productPresent (values.map (·.map moreFactor))).getD (.scalar 1))
        (· * ·) (fun _ _ => rfl) placed (main .more (by simp)), Breakdown.aggregate,
        Breakdown.factorOn, Breakdown.factorOn, values_brokenDown formed stat .more listed,
        values_brokenDown formed stat .more onMain]
  | totalOverride =>
      simp only [Form.stage, stagePlan, totalOverridePlan, Plan.comes_bind, Plan.comes_pure] at comes
      obtain ⟨values, contributes, rfl⟩ := comes
      rw [comes_contributionsTo contributes, Breakdown.aggregate,
        values_brokenDown formed stat .totalOverride listed, stands.same, ← placed]
      rfl

/-- What was set and what was added on a path is cached where its base is. -/
theorem Stores.parts (bare : vocabulary.Bare) (formed : graph.WellFormed vocabulary)
    (coherent : graph.Coherent Clean) {stat : Stat} {path : Path} {value : Option Value}
    (stores : graph.Stores (.node stat .base path) value) :
    (∃ set, graph.Stores (.node stat .baseSet path) set) ∧
      ∃ add, graph.Stores (.node stat .baseAdd path) add := by
  obtain ⟨pipeline, route, -, stands, routed, comes⟩ := stores.comes bare formed coherent
  simp only [stagePlan, basePlan, Plan.comes_bind, Plan.comes_read] at comes
  obtain ⟨set, isSet, add, isAdd, -⟩ := comes
  have same : route.id = path.id := routed
  exact ⟨⟨set, (stands.stores (congrArg (·.at .baseSet) same)).mp isSet⟩,
    ⟨add, (stands.stores (congrArg (·.at .baseAdd) same)).mp isAdd⟩⟩

/-- The cached subtotal before bounds is the sum of the path totals that the breakdown lists. -/
theorem Stores.uncapped (bare : vocabulary.Bare) (formed : graph.WellFormed vocabulary)
    (coherent : graph.Coherent Clean) {stat : Stat} {value : Option Value}
    (stores : graph.Stores (.node stat .subtotal .main) value) :
    graph.Stores (.node stat .uncappedSubtotal .main)
      (sumPresent ((graph.brokenDown stat).paths.map (·.total))) := by
  obtain ⟨pipeline, _, here, stands, -, comes⟩ := stores.comes bare formed coherent
  simp only [stagePlan, subtotalPlan, Plan.comes_bind, Plan.comes_read] at comes
  obtain ⟨uncapped, isUncapped, -⟩ := comes
  replace isUncapped := (stands.stores rfl).mp isUncapped
  obtain ⟨again, _, -, stands, -, comes⟩ := isUncapped.comes bare formed coherent
  simp only [stagePlan, uncappedPlan, Plan.comes_bind, Plan.comes_pure] at comes
  obtain ⟨totals, gathers, rfl⟩ := comes
  obtain ⟨rfl, -⟩ := gathers.gathered fun path total reads =>
    (Plan.comes_read.mp reads).cached_eq.symm
  have same : (graph.paths again.stat.id).map (fun path =>
      graph.cached (.node again.stat .pathTotal path)) =
        (graph.brokenDown stat).paths.map (·.total) := by
    rw [stands.same, brokenDown, List.map_map]
    refine List.map_congr_left fun path _ => ?_
    rw [cached, located_renamed stands.resolved stands.copied stands.same rfl]
    rfl
  rwa [same] at isUncapped

/-- The cached total is the override, or else the subtotal, in the form that the stat asks for. -/
theorem Stores.finalized (bare : vocabulary.Bare) (formed : graph.WellFormed vocabulary)
    (coherent : graph.Coherent Clean) {stat : Stat} {total override subtotal : Option Value}
    (isOverride : graph.Stores (.node stat .totalOverride .main) override)
    (isSubtotal : graph.Stores (.node stat .subtotal .main) subtotal)
    (stores : graph.Stores (.node stat .total .main) total) :
    ∃ pipeline, graph.pipelines.get? stat.id = some pipeline ∧
      total = (override.or subtotal).map pipeline.stat.finalize := by
  obtain ⟨pipeline, _, here, stands, -, comes⟩ := stores.comes bare formed coherent
  refine ⟨pipeline, here, ?_⟩
  simp only [stagePlan, totalPlan, Plan.comes_bind, Plan.comes_read] at comes
  obtain ⟨first, isFirst, comes⟩ := comes
  cases isOverride.unique ((stands.stores rfl).mp isFirst)
  cases override with
  | some present =>
      simp only [Plan.comes_bind, Plan.comes_pure, exists_eq_left] at comes
      exact comes
  | none =>
      simp only [Plan.comes_bind, Plan.comes_read, Plan.comes_pure] at comes
      obtain ⟨second, isSecond, rfl⟩ := comes
      cases isSubtotal.unique ((stands.stores rfl).mp isSecond)
      rfl

/-! ### Explanations -/

theorem Stores.gives (resting : graph.Resting vocabulary) (coherent : graph.Coherent Clean)
    {query : Query} {value : Option Value} (asked : (statedScope vocabulary).query query)
    (stores : graph.Stores query value) : graph.Gives query value := by
  obtain ⟨node, found, known⟩ := stores
  obtain ⟨address, place⟩ := resting.formed.located_addressed found
  have asks : (Plan.ask query .finish : Plan (Option Value)).Asks (statedScope vocabulary) :=
    ⟨asked, fun _ => trivial⟩
  constructor
  · obtain ⟨reads, runs⟩ := runs_perform resting asks
    have there := locate_of_located found
    generalize graph.perform (.ask query .finish) = ended at runs
    obtain ⟨reply, after⟩ := ended
    cases runs with
    | answered refused _ =>
        rw [there] at refused
        cases refused
    | read locates evaluates rest =>
        rw [there] at locates
        cases locates
        cases (evaluates_known known evaluates).1
        cases rest
        rfl
  · intro levels enough
    have yields : (Plan.ask query .finish).Yields graph value [node] := .read found known .finish
    have calculates : ∀ producer ∈ [node], ∀ cached address, graph.known producer = some cached →
        graph.addressOf? producer = some address → address.name ∉ ([] : List NodeName) ∧
          (graph.recompute levels [address.name] (graph.planOf address)).map Prod.fst =
            some (.ok cached) := by
      intro producer _ cached address held own
      obtain ⟨names, runs, -⟩ := recompute_grounded (.self resting.formed) resting.formed coherent
        (coherent.grounded producer cached held) held own .nil
        (fun _ none => absurd none List.not_mem_nil) enough
        (fun _ _ _ _ => List.not_mem_nil)
      exact ⟨List.not_mem_nil, by rw [runs]; rfl⟩
    obtain ⟨names, runs, -⟩ := run_anew (.self resting.formed) resting.formed []
      (fun name plan => (graph.recompute levels [name] plan).map Prod.fst) yields asks calculates []
    exact ⟨names, runs⟩

theorem membership_itemized (formed : graph.WellFormed vocabulary) (stat : StatId) (form : Form)
    (path : PathId) : (graph.itemized stat form path).map (·.membership) =
      (graph.members stat form path).map fun id => (form, path, id) :=
  formed.map_itemized stat form path fun _ _ _ => rfl

theorem memberships_brokenDown (formed : graph.WellFormed vocabulary) (stat : Stat) :
    (graph.brokenDown stat).contributions.map (·.membership) =
      (graph.paths stat.id).flatMap fun path => Form.all.flatMap fun form =>
        (graph.members stat.id form path.id).map fun id => (form, path.id, id) := by
  simp only [brokenDown, formed.itemized_forms, List.map_flatMap, membership_itemized formed]

theorem nodup_memberships (formed : graph.WellFormed vocabulary) (stat : StatId) :
    ((graph.paths stat).flatMap fun path => Form.all.flatMap fun form =>
      (graph.members stat form path.id).map fun id => (form, path.id, id)).Nodup := by
  refine List.nodup_flatMap_key PathOf.id (·.2.1) (graph.nodup_paths stat) ?_ fun path _ => ?_
  · intro path _ entry inside
    obtain ⟨form, _, inside⟩ := List.mem_flatMap.mp inside
    obtain ⟨id, _, rfl⟩ := List.mem_map.mp inside
    rfl
  · refine List.nodup_flatMap_key id (·.1) (by decide) ?_ fun form _ => ?_
    · intro form _ entry inside
      obtain ⟨id, _, rfl⟩ := List.mem_map.mp inside
      rfl
    · exact (formed.nodup_members stat form path.id).map fun first second same =>
        congrArg (·.2.2) same

/-- No membership of a stat is left out. -/
theorem mem_memberships (formed : graph.WellFormed vocabulary) {stat : StatId} {form : Form}
    {path : PathId} {id : ModifierId} (enrolled : id ∈ graph.members stat form path) :
    (form, path, id) ∈ (graph.paths stat).flatMap fun path => Form.all.flatMap fun form =>
      (graph.members stat form path.id).map fun id => (form, path.id, id) := by
  have listed : path ∈ (graph.paths stat).map PathOf.id :=
    (formed.mem_paths_iff stat path).mpr (.inr (.inl ⟨form, List.ne_nil_of_mem enrolled⟩))
  obtain ⟨full, member, rfl⟩ := List.mem_map.mp listed
  exact List.mem_flatMap.mpr ⟨full, member, List.mem_flatMap.mpr
    ⟨form, form.mem_all, List.mem_map_of_mem enrolled⟩⟩

/-- Where a breakdown has read a path, every stage that collects a form is cached there; overrides
are for the main path. -/
theorem exists_stores_stage (bare : vocabulary.Bare) (formed : graph.WellFormed vocabulary)
    (coherent : graph.Coherent Clean) {stat : Stat} {path : Path}
    (override : ∃ value, graph.Stores (.node stat .totalOverride .main) value)
    (reads : ∀ stage ∈ [Stage.base, .increase, .more, .pathTotal],
      ∃ value, graph.Stores (.node stat stage path) value) (form : Form)
    (overrides : form = .totalOverride → path.isMain = true) :
    path.id.at form.stage = path.id ∧ ∃ value, graph.Stores (.node stat form.stage path) value := by
  obtain ⟨base, isBase⟩ := reads .base (by simp)
  obtain ⟨set, add⟩ := isBase.parts bare formed coherent
  cases form with
  | baseSet => exact ⟨rfl, set⟩
  | baseAdd => exact ⟨rfl, add⟩
  | increase => exact ⟨rfl, reads .increase (by simp)⟩
  | more => exact ⟨rfl, reads .more (by simp)⟩
  | totalOverride =>
      cases (PathOf.isMain_iff path).mp (overrides rfl)
      exact ⟨rfl, override⟩

/-- If all that a breakdown asks for is cached, it explains the stat. -/
theorem explains_of_comes (bare : vocabulary.Bare) (resting : graph.Resting vocabulary)
    (coherent : graph.Coherent Clean) {stat : Stat} (within : stat.HeadWithin vocabulary)
    {breakdown : Breakdown} (comes : (graph.breakdownPlan stat).Comes graph breakdown) :
    breakdown.Explains graph stat := by
  have formed := resting.formed
  obtain ⟨rfl, stages, each⟩ := comes_breakdownPlan comes
  have gives {path : Path} (stage : Stage) (listed : path ∈ graph.paths stat.id)
      (stores : ∃ value, graph.Stores (.node stat stage path) value) :
      graph.Gives (.node stat stage path) (graph.cached (.node stat stage path)) :=
    (Stores.of_some stores).gives resting coherent ⟨within, formed.paths_within listed⟩
  have main : .main ∈ graph.paths stat.id := graph.main_mem_paths stat.id
  have onMain (stage : Stage) (asked : stage ∈ [Stage.total, .totalOverride, .subtotal]) :=
    Stores.of_some (stages stage asked)
  have memberships := memberships_brokenDown formed stat
  have paths : (graph.brokenDown stat).paths.map (·.path) = (graph.paths stat.id).map PathOf.id := by
    rw [brokenDown, List.map_map]
    rfl
  exact
    { named := rfl
      paths
      pathsOnce := by
        rw [paths]
        exact graph.nodup_paths stat.id
      parts := by
        intro part listed
        obtain ⟨path, member, rfl⟩ := List.mem_map.mp listed
        have reads := (each path member).1
        exact ⟨path, member, rfl, gives .base member (reads _ (by simp)),
          gives .increase member (reads _ (by simp)), gives .more member (reads _ (by simp)),
          gives .pathTotal member (reads _ (by simp))⟩
      memberships := by
        rw [memberships, brokenDown, List.flatMap_map]
        rfl
      complete := by
        intro form path id enrolled
        rw [memberships]
        exact mem_memberships formed enrolled
      once := by
        rw [memberships]
        exact nodup_memberships formed stat.id
      contributions := by
        intro item listed
        obtain ⟨path, member, listed⟩ := List.mem_flatMap.mp listed
        obtain ⟨form, own, listed⟩ := List.mem_flatMap.mp listed
        obtain ⟨id, enrolled, modifier, present, rfl⟩ := mem_itemized.mp listed
        exact ⟨modifier, present, rfl, rfl,
          (Stores.of_some ((each path member).2 form own id enrolled)).gives resting coherent trivial⟩
      aggregates := by
        intro path member form overrides
        obtain ⟨placed, value, stores⟩ := exists_stores_stage bare formed coherent
          (stages .totalOverride (by simp)) (each path member).1 form overrides
        rw [← stores.aggregate bare formed coherent (List.mem_map_of_mem member) placed]
        · exact stores.gives resting coherent ⟨within, formed.paths_within member⟩
        · intro shared listed
          refine (each .main main).1 _ ?_
          revert listed shared
          decide
      uncapped := (Stores.uncapped bare formed coherent (onMain .subtotal (by simp))).gives resting
        coherent ⟨within, .main⟩
      totalOverride := gives .totalOverride main (stages _ (by simp))
      subtotal := gives .subtotal main (stages _ (by simp))
      total := gives .total main (stages _ (by simp))
      finalized := Stores.finalized bare formed coherent (onMain .totalOverride (by simp))
        (onMain .subtotal (by simp)) (onMain .total (by simp)) }

/-- The contributions to the rosters of a stat have nodes. -/
theorem breakdownPlan_attended (formed : graph.WellFormed vocabulary) {stat : Stat}
    (within : stat.HeadWithin vocabulary) :
    (graph.breakdownPlan stat).Asks (attendedScope vocabulary graph) := by
  have reads : (graph.breakdownPlan stat).OnlyReads (attendedScope vocabulary graph).query := by
    refine onlyReads_breakdownPlan (fun _ => ⟨within, .main⟩)
      (fun _ listed _ => ⟨within, formed.paths_within listed⟩) fun form path id enrolled => ?_
    obtain ⟨modifier, present, -⟩ := formed.enrolled enrolled
    exact (formed.present id modifier present).2.2
  exact reads.asks fun _ => id

/-- The total that a breakdown answers is the one that a read would have answered in its place. -/
theorem total_of_breakdown (bare : vocabulary.Bare) (resting : graph.Resting vocabulary)
    {stat : Stat} (within : stat.HeadWithin vocabulary) {breakdown : Breakdown}
    (succeeds : (graph.perform (graph.breakdownPlan stat)).1 = .ok breakdown) :
    (graph.perform (Plan.total stat)).1 = .ok breakdown.total := by
  have attended := breakdownPlan_attended resting.formed within
  have propagates := @breakdownPlan_propagates (fun _ => True) (fun _ => True) graph stat
  have comes := comes_perform bare resting attended propagates succeeds
  obtain ⟨⟨ended, last⟩, ran⟩ := Option.isSome_iff_exists.mp
    (Plan.run_isSome outside_answers (graph.breakdownPlan stat) { graph })
  have whole : graph.perform (graph.breakdownPlan stat) = (ended, last.graph) := by
    simp only [perform, ran, Option.get_some]
  obtain ⟨⟨outcome, middle⟩, first⟩ := Option.isSome_iff_exists.mp
    (Plan.run_isSome outside_answers (Plan.total stat) { graph })
  have total : (graph.perform (Plan.total stat)).1 = outcome := by
    simp only [perform, first, Option.get_some]
  rw [whole] at succeeds comes
  cases succeeds
  -- The breakdown reads the total first, and what it reads afterwards leaves that value cached.
  obtain ⟨rest, parts⟩ : ∃ rest, graph.breakdownPlan stat = (Plan.total stat).bind rest := ⟨_, rfl⟩
  have continues := ran
  rw [parts, Plan.run_bind, first] at continues
  cases outcome with
  | error fault => cases continues
  | ok early =>
      have asks : (Plan.total stat).Asks (attendedScope vocabulary graph) :=
        ⟨⟨within, .main⟩, fun _ => trivial⟩
      obtain ⟨reads, explores⟩ := comes_run bare resting asks (Plan.propagates_read stat .total .main)
        .refl first
      have later := breakdownPlan_asks resting.formed within
      rw [parts] at later
      have middleRests := explores.resting resting
      have further : Explores vocabulary middle.graph last.graph :=
        explores_run (later.2 (.ok early)) middleRests .refl continues
      have kept := (Plan.comes_read.mp reads).mono (further.advances middleRests).grows.toExtends
        (further.untouched bare middleRests).toSteady
      rw [← ((explores.trans further).advances resting).grows.breakdownPlan stat] at comes
      rw [total, (comes_breakdownPlan comes).1]
      exact congrArg Except.ok kept.cached_eq.symm

end Graph

/-! ### Breakdowns of sheets -/

/-- The widest vocabulary without behaviors in which no fault is swallowed and paths for what comes
from a single stat have the global source. -/
def Vocabulary.inert : Vocabulary :=
  .bounding Formula.Propagates (fun _ => False)
    (fun path => path.convertedStat?.isSome → path.source = .global) PathOf.main_unconverted

theorem Vocabulary.closed_inert : Vocabulary.inert.Closed :=
  Vocabulary.closed_bounding (fun _ converted => nomatch converted) fun _ _ => rfl

theorem Vocabulary.faithful_inert : Vocabulary.inert.Faithful where
  propagating := ⟨fun _ propagates => propagates, fun _ absurd => absurd.elim⟩
  global := fun _ global => global

theorem Vocabulary.bare_inert : Vocabulary.inert.Bare := fun _ => id

theorem Vocabulary.flat_inert : Vocabulary.inert.Flat := fun _ absurd => absurd.elim

open CharacterSheet.Graph

/-- Where nothing waits, a breakdown leaves behind what its reads leave. -/
theorem Sheet.graph_breakdown {vocabulary : Vocabulary} (bare : vocabulary.Bare) {sheet : Sheet}
    (intact : sheet.graph.Intact vocabulary) (calm : sheet.batchDepth = 0 → sheet.graph.Calm)
    {stat : Stat} (within : stat.HeadWithin vocabulary) :
    (sheet.breakdown stat).2.graph =
      (sheet.graph.perform (sheet.graph.breakdownPlan stat)).2 := by
  have explores : Explores vocabulary sheet.graph _ :=
    explores_perform intact.toResting (breakdownPlan_asks intact.formed within)
  have pending := explores.pending bare intact.toResting
  show (sheet.withGraph (sheet.graph.perform (sheet.graph.breakdownPlan stat)).2).flushIfIdle.graph = _
  rw [flushIfIdle]
  split
  · rfl
  · next idle =>
    have still : sheet.batchDepth = 0 := by
      rw [batchDepth, ← pending]
      exact Nat.eq_zero_of_not_pos idle
    exact ((calm still).of_pending pending).flush_eq _

/-- A breakdown explains its stat: after any operations without behaviors, if the breakdown of a
stat has no fault, it lists every membership of the stat once and in order, with the value that the
modifier gives, and its numbers are those of the nodes and follow from each other. It leaves the
paths, the rosters and the modifiers as they were. -/
theorem breakdown_explains_total (settings : Settings) (retention : Retention)
    (operations : List Operation) (within : ∀ operation ∈ operations, operation.Within .inert)
    (stat : Stat) (named : stat.HeadWithin .inert) (breakdown : Breakdown) :
    let sheet := Sheet.run { settings, retention } operations
    let after := (sheet.breakdown stat).2
    (sheet.breakdown stat).1 = .ok breakdown →
      breakdown.Explains after.graph stat ∧
      (sheet.total stat).1 = .ok breakdown.total ∧
      after.paths stat.id = sheet.paths stat.id ∧
      (∀ form path, after.graph.members stat.id form path = sheet.graph.members stat.id form path) ∧
      after.graph.modifiers = sheet.graph.modifiers := by
  intro sheet after succeeds
  have reachable : Sheet.Reachable .inert sheet :=
    Sheet.reachable_run (.new settings retention) within
  have intact : sheet.graph.Intact .inert := reachable.intact Vocabulary.closed_inert
  have bare := Vocabulary.bare_inert
  have left : after.graph = (sheet.graph.perform (sheet.graph.breakdownPlan stat)).2 :=
    Sheet.graph_breakdown bare intact (reachable.calm Vocabulary.closed_inert bare) named
  have explores : Explores .inert sheet.graph after.graph :=
    left ▸ explores_perform intact.toResting (breakdownPlan_asks intact.formed named)
  have larger := (explores.advances intact.toResting).grows.toExtends
  have kept : after.graph.Intact .inert := intact.explore explores
  have comes : (after.graph.breakdownPlan stat).Comes after.graph breakdown := by
    rw [larger.breakdownPlan, left]
    exact comes_perform bare intact.toResting (breakdownPlan_attended intact.formed named)
      (breakdownPlan_propagates sheet.graph stat) succeeds
  exact ⟨explains_of_comes bare kept.toResting
      (kept.clean Vocabulary.faithful_inert Vocabulary.flat_inert) named comes,
    total_of_breakdown bare intact.toResting named succeeds, larger.paths stat.id,
    larger.members stat.id, larger.modifiers⟩

/-- Steel of its own, from a hammer and from iron. -/
def forgedSteel : List Operation :=
  [.add (.baseAdd ⟨1⟩ (.named "Steel") 10),
    .add { Modifier.baseAdd ⟨2⟩ (.named "Steel") 5 with source := .item "Hammer" },
    .add { Modifier.baseAdd ⟨3⟩ (.named "Steel") 100 with form := .more },
    .add (.baseAdd ⟨4⟩ (.named "Iron") 20),
    .add (.conversion ⟨5⟩ (.named "Iron") (.named "Steel") 50)]

theorem forgedSteel_within : ∀ operation ∈ forgedSteel, operation.Within .inert := by
  have constant {stat : Stat} (id : ModifierId) (amount : Number) (within : stat.Within .inert) :
      (Modifier.baseAdd id stat amount).Within .inert :=
    constant_within_bounding id amount within constant_propagates
  have steel : (Stat.named "Steel").Within .inert := named_within_bounding _
  rintro operation (_ | ⟨_, _ | ⟨_, _ | ⟨_, _ | ⟨_, _ | ⟨_, ⟨⟩⟩⟩⟩⟩⟩)
  · exact constant _ _ steel
  · exact ⟨(constant ⟨2⟩ 5 steel).stats, (constant ⟨2⟩ 5 steel).value,
      (constant ⟨2⟩ 5 steel).condition⟩
  · exact ⟨(constant ⟨3⟩ 100 steel).stats, (constant ⟨3⟩ 100 steel).value,
      (constant ⟨3⟩ 100 steel).condition⟩
  · exact constant _ _ (named_within_bounding _)
  · exact constant _ _ (conversion_within_bounding _ _)

/-- The multiplier of the main path counts on all three paths. -/
theorem forgedSteel_explained : ∃ breakdown,
    ((Sheet.run {} forgedSteel).breakdown (.named "Steel")).1 = .ok breakdown ∧
      breakdown.total = some (.scalar 50) ∧
      breakdown.paths.map (·.total) = [some (.scalar 20), some (.scalar 10), some (.scalar 20)] ∧
      breakdown.contributions.map (·.modifier) = [⟨1⟩, ⟨3⟩, ⟨2⟩] ∧
      breakdown.Explains ((Sheet.run {} forgedSteel).breakdown (.named "Steel")).2.graph
        (.named "Steel") := by
  have comes : ((Sheet.run {} forgedSteel).breakdown (.named "Steel")).1.toOption.map
      (fun breakdown => (breakdown.total, breakdown.paths.map (·.total),
        breakdown.contributions.map (·.modifier))) =
        some (some (.scalar 50), [some (.scalar 20), some (.scalar 10), some (.scalar 20)],
          [⟨1⟩, ⟨3⟩, ⟨2⟩]) := by
    decide +kernel
  have explains (breakdown : Breakdown)
      (succeeds : ((Sheet.run {} forgedSteel).breakdown (.named "Steel")).1 = .ok breakdown) :
      breakdown.Explains ((Sheet.run {} forgedSteel).breakdown (.named "Steel")).2.graph
        (.named "Steel") :=
    (breakdown_explains_total {} {} forgedSteel forgedSteel_within (.named "Steel")
      (named_within_bounding _).headWithin breakdown succeeds).1
  generalize (Sheet.run {} forgedSteel).breakdown (.named "Steel") = answer at comes explains ⊢
  obtain ⟨_ | breakdown, after⟩ := answer
  · cases comes
  · obtain ⟨total, paths, modifiers⟩ := by
      simpa only [Except.toOption, Option.map_some, Option.some.injEq, Prod.mk.injEq] using comes
    exact ⟨breakdown, rfl, total, paths, modifiers, explains breakdown rfl⟩

end CharacterSheet
