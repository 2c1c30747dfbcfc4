import CharacterSheet.Proofs.Membership.Accounting
import CharacterSheet.Proofs.History.Annals

/-!
Contract: conversions and gains alone never close a circle.

Owns:
- the stats that convey by links, the stats that are linked, and links that are in order;
- simple stats, which have neither bounds nor behaviors, and the vocabulary of simple stats and constants;
- the names of the nodes that requests are for;
- ranks of nodes: whatever a stage of a simple stat asks for ranks lower than the stage;
- the proof that calculations within this vocabulary end in no fault.

Stats can be converted into each other in any direction, since what comes from a source is a share of
the base on its main path only, to which nothing is converted. So there are three tiers: what a stat
calculates on the main path up to its base, everything else of the stats that convey, and everything
else of all other stats. Within a tier the order of stages decides.
-/

namespace CharacterSheet

/-! ### Simple stats -/

namespace Links

/-- The stats that convey by links. -/
def conveyors (links : Links) : List Stat :=
  links.outlets.values.flatMap fun outlet => outlet.targets.values.flatMap fun link =>
    link.conversion.toList ++ link.gain.toList

/-- The stats that are linked, as sources and as targets. -/
def ends (links : Links) : List StatId :=
  links.outlets.entries.flatMap fun entry => entry.1 :: entry.2.targets.keys

end Links

/-- A stat with neither bounds nor behaviors. If it has the identity of a concrete stat that is linked
then it is bound to concrete entities altogether; a regular one always is. -/
structure Stat.Simple (links : Links) (stat : Stat) : Prop where
  minimum : stat.minimum = none
  maximum : stat.maximum = none
  behaviors : stat.behaviors = []
  resolved : stat.id ∈ links.ends → stat.id.entity.isConcrete = true → stat.isResolved = true

theorem Stat.simple_of_regular {links : Links} {stat : Stat} (regular : stat.role = .regular)
    (minimum : stat.minimum = none) (maximum : stat.maximum = none) (behaviors : stat.behaviors = []) :
    stat.Simple links := by
  refine ⟨minimum, maximum, behaviors, fun _ concrete => ?_⟩
  cases stat
  subst regular minimum maximum
  simpa [isResolved, boundIsResolved, Role.isResolved] using concrete

/-- The vocabulary of constants and of stats that are simple beside some links, without any behavior. -/
def Vocabulary.simple (links : Links) : Vocabulary where
  head := Stat.Simple links
  stat := Stat.Simple links
  path _ := True
  formula formula := ∃ value, formula = .constant value
  behavior _ := False
  main := trivial
  head_of_stat _ := id

theorem Vocabulary.closed_simple (links : Links) : (Vocabulary.simple links).Closed :=
  ⟨fun _ => trivial, fun _ _ => trivial, fun _ simple _ => simple⟩

/-- A constant has no fault. -/
theorem Vocabulary.passing_simple (links : Links) : (Vocabulary.simple links).Passing fun _ => False where
  formula := by
    rintro _ ⟨value, rfl⟩
    trivial
  behavior := fun _ => False.elim

/-- A modifier with constants for its value and its condition asks for nothing. -/
theorem Modifier.Within.asks_simple {links : Links} {modifier : Modifier}
    (within : modifier.Within (.simple links)) (scope : Scope) : modifier.plan.Asks scope := by
  have constant {formula : Formula} (allowed : (Vocabulary.simple links).formula formula) :
      formula.plan.Asks scope := by
    obtain ⟨value, rfl⟩ := allowed
    trivial
  unfold Modifier.plan
  split
  · exact constant within.value.1
  · next condition conditional =>
    refine Plan.asks_bind (constant (within.condition condition (by simp [conditional])).1)
      fun truth => ?_
    cases conditionHolds condition.description truth with
    | error fault => exact Plan.asks_fail _
    | ok holds =>
        cases holds with
        | true => exact constant within.value.1
        | false => exact Plan.asks_pure _

/-- What a request asks for is bound to a concrete entity. -/
def Query.isResolved : Query → Bool
  | .node stat _ _ => stat.isResolved
  | .contribution _ => true

/-- The name of the node that answers a request. -/
def Query.name : Query → NodeName
  | .node stat stage path => .pipeline stat.id stage (path.id.at stage)
  | .contribution modifier => .contribution modifier

theorem Graph.WellFormed.nameOf?_located {vocabulary : Vocabulary} {graph : Graph}
    (formed : graph.WellFormed vocabulary) {query : Query} {node : NodeId}
    (found : graph.located query = some node) : graph.nameOf? node = some query.name := by
  rw [nameOf?_eq]
  cases query with
  | node stat stage path =>
      simp only [located] at found
      split at found
      · rw [node?, Option.bind_eq_some_iff] at found
        obtain ⟨pipeline, here, inside⟩ := found
        obtain ⟨full, address, place, _⟩ := formed.listed _ _ _ _ _ here inside
        rw [address, Option.map_some, Address.name, place]
        rfl
      · contradiction
  | contribution modifier =>
      rw [formed.contributing _ _ found]
      rfl

/-! ### Ranks by links -/

@[simp] theorem PathOf.at_main {σ : Type} (stage : Stage) : (main : PathOf σ).at stage = main := by
  unfold PathOf.at
  split <;> rfl

namespace Links

variable {links : Links} {source target : StatId} {stat : Stat}

theorem mem_conveyors_iff : stat ∈ links.conveyors ↔
    ∃ share source target, links.conveyor? share source target = some stat := by
  have sides (link : Link) : stat ∈ link.conversion.toList ++ link.gain.toList ↔
      ∃ share, link.via share = some stat := by
    rw [List.mem_append, Option.mem_toList, Option.mem_toList]
    constructor
    · rintro (converts | gains)
      · exact ⟨.conversion, converts⟩
      · exact ⟨.gain, gains⟩
    · rintro ⟨_ | _, conveys⟩
      · exact .inl conveys
      · exact .inr conveys
  simp only [conveyors, List.mem_flatMap, Table.mem_values_iff, sides, conveyor?, link?,
    Option.bind_eq_some_iff]
  constructor
  · rintro ⟨outlet, ⟨source, found⟩, link, ⟨target, inside⟩, share, conveys⟩
    exact ⟨share, source, target, link, ⟨outlet, found, inside⟩, conveys⟩
  · rintro ⟨share, source, target, link, ⟨outlet, found, inside⟩, conveys⟩
    exact ⟨outlet, ⟨source, found⟩, link, ⟨target, inside⟩, share, conveys⟩

theorem mem_ends (linked : (links.link? source target).isSome) :
    source ∈ links.ends ∧ target ∈ links.ends := by
  obtain ⟨link, found⟩ := Option.isSome_iff_exists.mp linked
  rw [link?, Option.bind_eq_some_iff] at found
  obtain ⟨outlet, here, inside⟩ := found
  have entry := (Table.get?_eq_some_iff _ _ _).mp here
  have listed : target ∈ outlet.targets.keys := (Table.mem_keys_iff _ _).mpr (by rw [inside]; rfl)
  exact ⟨List.mem_flatMap.mpr ⟨_, entry, List.mem_cons_self⟩,
    List.mem_flatMap.mpr ⟨_, entry, List.mem_cons_of_mem _ listed⟩⟩

/-- Links in order: no stat that conveys is linked itself, and all that is linked is bound to concrete
entities. -/
structure Ordered (links : Links) : Prop where
  apart : ∀ stat ∈ links.conveyors, stat.id ∉ links.ends
  resolved : ∀ stat ∈ links.conveyors, stat.isResolved = true
  concrete : ∀ source target, (links.link? source target).isSome → source.entity.isConcrete = true

/-- The tier of whatever a stat calculates apart from the early stages on its main path. -/
def tierOf (links : Links) (stat : StatId) : Nat :=
  if stat ∈ links.conveyors.map (·.id) then 1 else 2

/-- The tier of a stage: no early stage on the main path reads another stat. -/
def tier (links : Links) (stat : StatId) (stage : Stage) (path : PathId) : Nat :=
  if path.isMain && decide (stage.rank ≤ Stage.base.rank) then 0 else links.tierOf stat

/-- The rank of a node, by its tier first and then by its stage. -/
def rank (links : Links) : NodeName → Nat
  | .contribution _ => 0
  | .pipeline stat stage path => 10 * links.tier stat stage path + stage.rank + 1

theorem tierOf_pos (links : Links) (stat : StatId) : 0 < links.tierOf stat := by
  unfold tierOf
  split <;> decide

theorem tier_le (links : Links) (stat : StatId) (stage : Stage) (path : PathId) :
    links.tier stat stage path ≤ links.tierOf stat := by
  unfold tier
  split <;> omega

theorem tier_early (links : Links) (stat : StatId) {stage : Stage}
    (early : stage.rank ≤ Stage.base.rank) : links.tier stat stage .main = 0 := by
  simp [tier, early]

theorem tier_aside (links : Links) (stat : StatId) (stage : Stage) {path : PathId}
    (aside : path.isMain = false) : links.tier stat stage path = links.tierOf stat := by
  simp [tier, aside]

theorem tier_late (links : Links) (stat : StatId) {stage : Stage} (path : PathId)
    (late : Stage.base.rank < stage.rank) : links.tier stat stage path = links.tierOf stat := by
  simp [tier, late]

/-- A stage that comes earlier on the same path is in no higher tier. -/
theorem tier_mono (links : Links) (stat : StatId) {lower stage : Stage}
    (earlier : lower.rank ≤ stage.rank) (path : PathId) :
    links.tier stat lower (path.at lower) ≤ links.tier stat stage path := by
  by_cases first : (path.isMain && decide (stage.rank ≤ Stage.base.rank)) = true
  · obtain ⟨main, early⟩ := Bool.and_eq_true_iff.mp first
    rw [PathOf.isMain_iff] at main
    subst main
    rw [PathOf.at_main, tier_early links stat (Nat.le_trans earlier (of_decide_eq_true early))]
    exact Nat.zero_le _
  · have high : links.tier stat stage path = links.tierOf stat := by rw [tier, if_neg first]
    rw [high]
    exact tier_le _ _ _ _

theorem rank_lt_of_tier {stat other : StatId} {stage later : Stage} {path route : PathId}
    (below : links.tier stat stage path < links.tier other later route) :
    links.rank (.pipeline stat stage path) < links.rank (.pipeline other later route) := by
  have last : stage.rank ≤ 9 := by cases stage <;> decide
  simp only [rank]
  omega

theorem rank_lt_of_stage {stat : StatId} {stage later : Stage} {path route : PathId}
    (below : links.tier stat stage path ≤ links.tier stat later route)
    (earlier : stage.rank < later.rank) :
    links.rank (.pipeline stat stage path) < links.rank (.pipeline stat later route) := by
  simp only [rank]
  omega

theorem tierOf_conveyor (conveys : stat ∈ links.conveyors) : links.tierOf stat.id = 1 :=
  if_pos (List.mem_map_of_mem conveys)

theorem Ordered.tierOf_end (ordered : links.Ordered) (linked : target ∈ links.ends) :
    links.tierOf target = 2 := by
  refine if_neg fun listed => ?_
  obtain ⟨stat, conveys, rfl⟩ := List.mem_map.mp listed
  exact ordered.apart stat conveys linked

/-- Nothing of a stat that conveys ranks as high as what a linked stat calculates from it. -/
theorem Ordered.rank_conveyor (ordered : links.Ordered) (conveys : stat ∈ links.conveyors)
    (linked : target ∈ links.ends) {stage : Stage} {path : PathId}
    (high : links.tier target stage path = links.tierOf target) :
    links.rank (.pipeline stat.id .total .main) < links.rank (.pipeline target stage path) := by
  apply rank_lt_of_tier
  rw [tier_late _ _ _ (by decide), tierOf_conveyor conveys, high, ordered.tierOf_end linked]
  decide

/-- Requests for what is bound to concrete entities and ranks below some level. -/
def beneath (links : Links) (level : Nat) : Scope where
  query query := query.isResolved = true ∧ links.rank query.name < level
  place _ _ _ := True
  transform _ := False

end Links

namespace Graph

variable {graph other : Graph}

/-! ### What stages ask for ranks lower -/

/-- Whatever a stage of a simple stat may ask for is bound to concrete entities and ranks lower. -/
theorem Reads.beneath (ordered : graph.links.Ordered) {stat : Stat} (simple : stat.Simple graph.links)
    (resolved : stat.isResolved = true) {stage : Stage} {path : Path}
    (route : ∀ source, path.convertedStat? = some source → source.Simple graph.links)
    (place : path.id.at stage = path.id) {query : Query} (reads : graph.Reads stat path stage query) :
    (graph.links.beneath (graph.links.rank (.pipeline stat.id stage path.id))).query query := by
  have aside {source : Stat} (converted : path.convertedStat? = some source) :
      path.id.isMain = false := by
    rw [PathOf.id, PathOf.isMain_map, Bool.eq_false_iff, ne_eq, PathOf.isMain_iff]
    rintro rfl
    contradiction
  have convertible {source target : StatId} {other : Stat}
      (conveys : graph.links.conveyor? .conversion source target = some other) :
      other ∈ graph.links.conveyors ∧ source ∈ graph.links.ends := by
    have linked : (graph.links.link? source target).isSome := by
      rw [Links.conveyor?, Option.bind_eq_some_iff] at conveys
      exact Option.isSome_iff_exists.mpr ⟨_, conveys.choose_spec.1⟩
    exact ⟨Links.mem_conveyors_iff.mpr ⟨_, _, _, conveys⟩, (Links.mem_ends linked).1⟩
  cases reads with
  | collected => exact ⟨rfl, Nat.succ_pos _⟩
  | general either side =>
      have early : stage.rank ≤ Stage.base.rank := by rcases either with rfl | rfl <;> decide
      refine ⟨resolved, Links.rank_lt_of_tier ?_⟩
      rw [PathOf.id_main, PathOf.at_main, Links.tier_early _ _ early,
        Links.tier_aside _ _ _ (by rwa [PathOf.id, PathOf.isMain_map])]
      exact Links.tierOf_pos _ _
  | @earlier _ lower above =>
      have earlier := Stage.rank_lt_of_mem_above above
      refine ⟨resolved, Links.rank_lt_of_stage ?_ earlier⟩
      rw [PathOf.id_at, place]
      exact Links.tier_mono _ _ earlier.le _
  | part =>
      refine ⟨resolved, Links.rank_lt_of_stage ?_ (by decide)⟩
      rw [Links.tier_late _ _ _ (by decide), Links.tier_late _ _ _ (by decide)]
  | @source source converted linked =>
      have concrete := ordered.concrete _ _ linked
      refine ⟨(route source converted).resolved (Links.mem_ends linked).1 concrete,
        Links.rank_lt_of_tier ?_⟩
      rw [PathOf.id_main, PathOf.at_main, Links.tier_early _ _ (by decide),
        Links.tier_aside _ _ _ (aside converted)]
      exact Links.tierOf_pos _ _
  | @share source link other converted linked conveys =>
      have ends := (Links.mem_ends (Option.isSome_of_eq_some linked)).2
      have conveyor : other ∈ graph.links.conveyors := by
        have direct (share : Share) (side : link.via share = some other) :
            other ∈ graph.links.conveyors :=
          Links.mem_conveyors_iff.mpr
            ⟨share, source.id, stat.id, by rw [Links.conveyor?, linked, Option.bind_some, side]⟩
        rcases conveys with converts | gains | converts
        · exact direct .conversion converts
        · exact direct .gain gains
        · obtain ⟨_, conveys⟩ := (Links.mem_conversionStats_iff _ _ _).mp converts
          exact (convertible conveys).1
      exact ⟨ordered.resolved other conveyor,
        ordered.rank_conveyor conveyor ends (Links.tier_aside _ _ _ (aside converted))⟩
  | @retained other _ converts =>
      obtain ⟨_, conveys⟩ := (Links.mem_conversionStats_iff _ _ _).mp converts
      obtain ⟨conveyor, ends⟩ := convertible conveys
      exact ⟨ordered.resolved other conveyor,
        ordered.rank_conveyor conveyor ends (Links.tier_late _ _ _ (by decide))⟩
  | bound limits =>
      rw [simple.minimum, simple.maximum] at limits
      rcases limits with ⟨⟨⟩⟩ | ⟨⟨⟩⟩

/-- Whatever a node asks for is bound to concrete entities and ranks lower. -/
theorem planOf_beneath {links : Links} (linked : graph.links = links)
    (formed : graph.WellFormed (.simple links)) (ordered : links.Ordered) {node : NodeId}
    {address : Address} (found : graph.addressOf? node = some address) :
    (graph.planOf address).Asks (links.beneath (links.rank address.name)) := by
  subst linked
  cases address with
  | contribution modifier =>
      obtain ⟨added, present⟩ := Option.isSome_iff_exists.mp (formed.contributed _ _ found).2
      rw [planOf_contribution present]
      exact Plan.asks_degrade _ ((formed.present modifier added present).2.1.asks_simple _)
  | pipeline stat stage path =>
      obtain ⟨pipeline, here, _⟩ := formed.named _ _ _ _ found
      have pipelineFormed := formed.pipelines stat pipeline here
      obtain rfl := pipelineFormed.keyed
      rw [planOf_pipeline here]
      refine Plan.asks_bind (asks_stagePlan fun query reads => ?_) fun value => ?_
      · exact reads.beneath ordered pipelineFormed.within.head pipelineFormed.resolved
          (fun source converted => ((formed.addressed _ _ _ _ found).convertedStat converted).stat)
          (formed.at_addressed found)
      · refine Plan.asks_degrade _ ⟨trivial, fun transforms none => ?_⟩
        rw [List.eq_nil_iff_forall_not_mem.mpr none]
        trivial

/-! ### Calculations that descend -/

/-- A graph within the vocabulary, with some links, of whose nodes those that are being calculated rank
at least as high as some level. -/
structure Descends (links : Links) (level : Nat) (graph : Graph) : Prop where
  formed : graph.WellFormed (.simple links)
  stacked : graph.Stacked
  linked : graph.links = links
  above : ∀ name ∈ graph.running, level ≤ links.rank name

namespace Descends

variable {links : Links} {level : Nat}

theorem advance (descends : graph.Descends links level) (advances : Advances (.simple links) graph other) :
    other.Descends links level where
  formed := advances.formed
  stacked := advances.stacked
  linked := advances.grows.links.trans descends.linked
  above := advances.running descends.stacked ▸ descends.above

theorem enter (descends : graph.Descends links level) {node : NodeId} {present : Node}
    (found : graph.nodes.get? node = some present) (stale : present.cache = .stale)
    (below : links.rank present.address.name < level) :
    (graph.enter node).Descends links (links.rank present.address.name) where
  formed := descends.formed.enter node
  stacked := descends.stacked.enter found stale
  linked := (graph.grows_enter node).links.trans descends.linked
  above := by
    rw [running_enter found, List.forall_mem_cons]
    exact ⟨le_rfl, fun name running => below.le.trans (descends.above name running)⟩

theorem of_resting (resting : graph.Resting (.simple graph.links)) (level : Nat) :
    graph.Descends graph.links level where
  formed := resting.formed
  stacked := resting.stacked
  linked := rfl
  above := by
    rw [running, resting.idle]
    exact fun _ member => absurd member List.not_mem_nil

end Descends

end Graph

open CharacterSheet.Graph

section Induction

variable {links : Links}

mutual

/-- A calculation of a node that ranks lower than all that are going on ends with a value. -/
theorem Evaluates.succeeds (ordered : links.Ordered) {level : Nat} {node : NodeId} {graph after : Graph}
    {reply : Reply} :
    Evaluates node graph reply after → graph.Descends links level →
      (∀ name, graph.nameOf? node = some name → links.rank name < level) →
        ∃ value, reply = .ok value
  | .absent _, _, _ => ⟨_, rfl⟩
  | .cached _ _, _, _ => ⟨_, rfl⟩
  | @Evaluates.circular _ _ present found computing, descends, below => by
      have named := nameOf?_of_get? found
      have running := (descends.stacked.computing node).mp ⟨present, found, computing⟩
      have above := descends.above _ (List.mem_filterMap.mpr ⟨node, running, named⟩)
      exact absurd (below _ named) (Nat.not_lt.mpr above)
  | @Evaluates.calculated _ _ present _ frame found stale runs, descends, below => by
      have named := nameOf?_of_get? found
      have entered := descends.enter found stale (below _ named)
      have address := addressOf?_enter found
      have asks := (planOf_asks entered.formed address).stated entered.formed
      have beneath := planOf_beneath entered.linked entered.formed ordered address
      exact runs.succeeds ordered entered asks beneath
        (planOf_passes (Vocabulary.passing_simple links) entered.formed present.address)

/-- A plan that asks only for what ranks lower than all calculations that are going on, and has no
faults of its own, ends with a value. -/
theorem Runs.succeeds (ordered : links.Ordered) {level : Nat} {plan : Plan (Option Value)}
    {frame after : Frame} {reply : Reply} :
    Runs plan frame reply after → frame.graph.Descends links level →
      plan.Asks (statedScope (.simple links)) → plan.Asks (links.beneath level) →
        plan.Propagates (Transform.Passes fun _ => False) (fun fault => fault.isLocal = false ∧ False) →
          ∃ value, reply = .ok value
  | @Runs.finish reply _, _, _, _, passes => by
      cases reply with
      | ok value => exact ⟨value, rfl⟩
      | error fault => exact passes.2.elim
  | .note rest, descends, asks, beneath, passes => by
      have noted := Advances.record descends.formed descends.stacked (Record.inward_of_note asks.1)
      exact rest.succeeds ordered (descends.advance noted) asks.2 beneath.2 passes
  | .consult rest, descends, asks, beneath, passes => by
      refine rest.succeeds ordered descends (asks.2 _ descends.formed.transforms_within)
        (beneath.2 _ fun transform member => ?_)
        (passes _ fun _ => descends.formed.passed (Vocabulary.passing_simple links))
      obtain ⟨_, within, _⟩ := descends.formed.transforms member
      exact within.behavior
  | @Runs.answered query resume frame answer graph reply after refused rest, descends, asks, beneath,
      passes => by
      have located := advances_locate descends.formed descends.stacked asks.1
      rw [refused] at located
      have later := fun passes => rest.succeeds ordered (descends.advance located) (asks.2 answer)
        (beneath.2 answer) passes
      have resolved := beneath.1.1
      obtain ⟨-, ⟨stat, stage, path, rfl, unresolved, -⟩ | ⟨modifier, -, -, rfl⟩⟩ :=
        refused_locate refused
      · exact absurd resolved (Bool.eq_false_iff.mp unresolved)
      · exact later (passes.2 none)
  | @Runs.read query resume frame node grown answer graph reply after found evaluates rest, descends,
      asks, beneath, passes => by
      have located := advances_locate descends.formed descends.stacked asks.1
      rw [found] at located
      have place := located_locate descends.formed descends.stacked asks.1 found
      have reached := descends.advance located
      have evaluated := evaluates.advances located.formed located.stacked
      have inner := evaluates.succeeds ordered reached fun name named => by
        rw [reached.formed.nameOf?_located place, Option.some.injEq] at named
        exact named ▸ beneath.1.2
      have later := fun passes => rest.succeeds ordered (reached.advance evaluated) (asks.2 answer)
        (beneath.2 answer) passes
      obtain ⟨value, rfl⟩ := inner
      exact later (passes.2 value)

end

end Induction

/-! ### Conversions close no circle -/

theorem Stat.concrete_of_isResolved {stat : Stat} (resolved : stat.isResolved = true) :
    stat.id.entity.isConcrete = true := by
  cases stat
  simp only [isResolved, Bool.and_eq_true] at resolved
  exact resolved.1.1.1

/-- Whatever a resolved stat conveys comes from a concrete entity. -/
theorem Stat.concrete_of_route {stat : Stat} (resolved : stat.isResolved = true) {share : Share}
    {source target : StatId} (route : stat.route? = some (share, source, target)) :
    source.entity.isConcrete = true := by
  obtain ⟨id, role, minimum, maximum, rounding, dataType, behaviors⟩ := stat
  simp only [isResolved, Bool.and_eq_true] at resolved
  cases role with
  | regular => contradiction
  | conversion source target | gain source target =>
      cases route
      simp only [Role.isResolved, Bool.and_eq_true] at resolved
      exact concrete_of_isResolved resolved.2.1

namespace Graph

variable {graph : Graph}

/-- Links that are backed are in order, provided that no stat that conveys is linked itself. -/
theorem ordered_links {vocabulary : Vocabulary} (formed : graph.WellFormed vocabulary)
    (backs : graph.Backs)
    (apart : ∀ stat ∈ graph.links.conveyors, stat.id ∉ graph.links.ends) : graph.links.Ordered where
  apart := apart
  resolved := by
    intro stat conveys
    obtain ⟨share, source, target, conveys⟩ := Links.mem_conveyors_iff.mp conveys
    obtain ⟨⟨⟨pipeline, here, rfl⟩, _⟩, _⟩ := backs.conveys share source target stat conveys
    exact (formed.pipelines _ pipeline here).resolved
  concrete := by
    intro source target linked
    obtain ⟨share, stat, conveys⟩ := backs.proper.isSome_link?_iff.mp linked
    obtain ⟨⟨⟨pipeline, here, rfl⟩, _⟩, route⟩ := backs.conveys share source target stat conveys
    exact Stat.concrete_of_route (formed.pipelines _ pipeline here).resolved route

end Graph

/-- Whatever happened before, if nothing on the sheet has bounds or behaviors, all modifiers that are
present give constants, and no stat that conveys by a link is itself the source or the target of a link,
then every read of every stage of a resolved stat ends with a value, and so does the calculation of every
node. Conversions and gains may lead back and forth, to their own source, and take more than all of it. -/
theorem conversions_close_no_circle (settings : Settings) (retention : Retention)
    (operations : List Operation) :
    let sheet := Sheet.run { settings, retention } operations
    sheet.graph.Within (.simple sheet.graph.links) →
      (∀ stat ∈ sheet.graph.links.conveyors, stat.id ∉ sheet.graph.links.ends) →
        (∀ stat stage path, stat.isResolved = true → stat.HeadWithin (.simple sheet.graph.links) →
          path.Within (.simple sheet.graph.links) →
            ∃ value, (sheet.value stat stage path).1 = .ok value) ∧
        ∀ node, ∃ value, (sheet.graph.valueOf node).1 = .ok value := by
  intro sheet within apart
  have before := Sheet.resting_run settings retention operations
  have accounted : sheet.graph.Accounted := Sheet.accounted_everything settings retention operations
  have resting : sheet.graph.Resting (.simple sheet.graph.links) :=
    { before with formed := before.formed.narrow within }
  have ordered := ordered_links resting.formed accounted.backs apart
  constructor
  · intro stat stage path resolved head route
    have asks : (Plan.read stat stage path).Asks (statedScope (.simple sheet.graph.links)) :=
      Plan.asks_read ⟨head, route⟩
    obtain ⟨_, runs⟩ := runs_perform resting asks
    exact runs.succeeds ordered (.of_resting resting _) asks
      (Plan.asks_read ⟨resolved, Nat.lt_succ_self _⟩) (Plan.propagates_read stat stage path)
  · intro node
    have evaluates := evaluates_valueOf resting node
    cases named : sheet.graph.nameOf? node with
    | none =>
        exact evaluates.succeeds ordered (.of_resting resting 0) fun _ found => nomatch named ▸ found
    | some own =>
        refine evaluates.succeeds ordered (.of_resting resting (sheet.graph.links.rank own + 1))
          fun name found => ?_
        rw [Option.some.inj (found.symm.trans named)]
        exact Nat.lt_succ_self _

theorem named_within_simple (links : Links) (name : String) :
    (Stat.named name).Within (.simple links) :=
  ⟨Stat.simple_of_regular rfl rfl rfl rfl, trivial, trivial, trivial, trivial⟩

theorem conveying_within_simple (links : Links) (source target : String) :
    (Stat.conversion (.named source) (.named target)).Within (.simple links) ∧
      (Stat.gain (.named source) (.named target)).Within (.simple links) := by
  have ends := And.intro (named_within_simple links source) (named_within_simple links target)
  exact ⟨⟨⟨rfl, rfl, rfl, fun _ _ => rfl⟩, ends, trivial, trivial, trivial⟩,
    ⟨rfl, rfl, rfl, fun _ _ => rfl⟩, ends, trivial, trivial, trivial⟩

/-- Lead and gold turn into each other, lead also into itself and altogether by more than all of it, and
each is gained as the other. -/
def alchemy : List Operation :=
  [.add (.baseAdd ⟨1⟩ (.named "Lead") 200), .add (.baseAdd ⟨2⟩ (.named "Gold") 20),
    .add (.conversion ⟨3⟩ (.named "Lead") (.named "Gold") 100),
    .add (.conversion ⟨4⟩ (.named "Lead") (.named "Lead") 60),
    .add (.conversion ⟨5⟩ (.named "Gold") (.named "Lead") 50),
    .add (.gain ⟨6⟩ (.named "Lead") (.named "Gold") 20),
    .add (.gain ⟨7⟩ (.named "Gold") (.named "Lead") 20)]

/-- All of this is calculated, and most of the gold comes from lead. -/
theorem alchemy_succeeds :
    let sheet := Sheet.run {} alchemy
    ((∀ stat stage path, stat.isResolved = true → stat.HeadWithin (.simple sheet.graph.links) →
        path.Within (.simple sheet.graph.links) →
          ∃ value, (sheet.value stat stage path).1 = .ok value) ∧
      ∀ node, ∃ value, (sheet.graph.valueOf node).1 = .ok value) ∧
      (sheet.total (.named "Gold")).1 = .ok (some (.scalar 175)) := by
  intro sheet
  have within (links : Links) : ∀ operation ∈ alchemy, operation.Within (.simple links) := by
    have adds {stat : Stat} (within : stat.Within (.simple links)) (id : ModifierId) (amount : Number) :
        (Operation.add (.baseAdd id stat amount)).Within (.simple links) :=
      { stats := fun _ member => List.mem_singleton.mp member ▸ within.headWithin
        value := ⟨⟨_, rfl⟩, trivial⟩
        condition := fun _ none => nomatch none }
    simp only [alchemy, List.forall_mem_cons]
    have named := named_within_simple links
    have conveying := conveying_within_simple links
    exact ⟨adds (named _) _ _, adds (named _) _ _, adds (conveying _ _).1 _ _,
      adds (conveying _ _).1 _ _, adds (conveying _ _).1 _ _, adds (conveying _ _).2 _ _,
      adds (conveying _ _).2 _ _, fun _ none => nomatch none⟩
  have confined : sheet.graph.Within (.simple sheet.graph.links) :=
    ((Sheet.reachable_run (.new {} {}) (within _)).intact (Vocabulary.closed_simple _)).formed.within
  exact ⟨conversions_close_no_circle {} {} alchemy confined (by decide +kernel), by decide +kernel⟩

end CharacterSheet
