import CharacterSheet.Proofs.History.Chronicles
import CharacterSheet.Proofs.Total.Contents
import CharacterSheet.Proofs.Announcement.Settling
import CharacterSheet.Proofs.Calculation.Uncaching

/-!
Contract: the failure of a modifier stays with the modifier.

Owns:
- nothing that is read from outside comes to a local fault;
- muted modifiers, whose value is absent whatever is on the sheet, and graphs with one of them muted;
- what is cached after a modifier on its own came to a local fault: it comes to nothing from there,
  wherever it is asked for;
- calculations made anew come to the same with the modifier and with the muted one, and so do reads
  without cached values.

A modifier that fails has read nothing that rests on it, since it would have come to a circle.
-/

namespace CharacterSheet

/-- A degraded plan comes to nothing if the plan comes to a local fault. -/
theorem Plan.run_degrade {σ : Type} {interpreter : Interpreter σ} {plan : Plan (Option Value)}
    {state after : σ} {fault : Fault}
    (failed : plan.run interpreter state = some (.error fault, after)) (isLocal : fault.isLocal)
    (name : NodeName) :
    (degrade name plan).run interpreter state =
      some (.ok none, interpreter.record (.degraded name fault) after) := by
  rw [degrade, run_bind, run_attempt, failed]
  simp only [Option.map_some, isLocal, ↓reduceIte]
  rfl

/-! ### Muted modifiers -/

/-- The modifier with a value that is always absent, and without a condition. -/
def Modifier.muted (modifier : Modifier) : Modifier :=
  { modifier with value := .constant none, condition := none }

/-- The vocabulary in which an identity stands for one stat, and in which no stat carries behaviors
and no formula swallows a fault. -/
def Vocabulary.uniform (catalogue : StatId → Stat) : Vocabulary where
  head named := named = catalogue named.id
  stat named := named = catalogue named.id
  path _ := True
  formula := Formula.Propagates
  behavior _ := False
  main := trivial
  head_of_stat _ listed := listed

theorem Vocabulary.closed_uniform {catalogue : StatId → Stat} :
    (Vocabulary.uniform catalogue).Closed where
  item _ := trivial
  convertedFrom _ _ := trivial
  linking _ listed _ := listed

theorem Vocabulary.catalogues_uniform {catalogue : StatId → Stat} :
    (Vocabulary.uniform catalogue).Catalogues catalogue where
  head _ listed := listed
  formula _ propagates := propagates
  behavior _ absurd := absurd

theorem Modifier.Within.muted {vocabulary : Vocabulary} {modifier : Modifier}
    (within : modifier.Within vocabulary) (heeded : vocabulary.formula (.constant none)) :
    modifier.muted.Within vocabulary where
  stats := within.stats
  value := ⟨heeded, trivial⟩
  condition := fun _ none => nomatch none

/-- Members stay entered where they were. -/
theorem Pipeline.WellFormed.mute {vocabulary : Vocabulary} {modifiers : Table ModifierId Modifier}
    {stat : StatId} {pipeline : Pipeline} (formed : pipeline.WellFormed vocabulary modifiers stat)
    (id : ModifierId) : pipeline.WellFormed vocabulary (modifiers.modify id Modifier.muted) stat where
  keyed := formed.keyed
  resolved := formed.resolved
  within := formed.within
  slots := by
    intro form path slot here
    have before := formed.slots form path slot here
    refine { before with enrolled := fun member listed => ?_ }
    obtain ⟨modifier, found, fits⟩ := before.enrolled member listed
    rw [Table.get?_modify, found]
    split
    · exact ⟨_, rfl, fits⟩
    · exact ⟨_, rfl, fits⟩

namespace Graph

variable {vocabulary : Vocabulary} {catalogue : StatId → Stat} {graph base after : Graph}
  {id : ModifierId}

/-! ### Reads from outside -/

theorem plain_valueOf (graph : Graph) (node : NodeId) : Plain (graph.valueOf node).1 := by
  rcases valueOf_cases node graph with ⟨levels, calculated, -⟩ | ⟨nothing, -⟩
  · exact (evaluate_sound calculated).plain
  · rw [nothing]
    rintro _ ⟨⟩

theorem plain_answer {query : Query} {frame after : Frame} {reply : Reply}
    (answered : outside.answer query frame = some (reply, after)) : Plain reply := by
  change Frame.answer (fun node graph => some (graph.valueOf node)) query frame = _ at answered
  rw [Frame.answer_eq] at answered
  split at answered
  · next refused =>
    cases answered
    exact refused_plain refused
  · cases answered
    exact plain_valueOf _ _

/-- What is read from outside by a shielded plan comes to no local fault. -/
theorem plain_perform {α : Type} {plan : Plan α} (shielded : plan.Shielded) (graph : Graph) :
    ∀ fault, (graph.perform plan).1 = .error fault → fault.isLocal = false := by
  have ends {plan : Plan α} (shielded : plan.Shielded) {frame : Frame}
      {ended : Except Fault α × Frame} (ran : plan.run outside frame = some ended) :
      ∀ fault, ended.1 = .error fault → fault.isLocal = false := by
    induction plan generalizing frame with
    | finish outcome =>
        cases ran
        exact shielded
    | ask query resume inductionHypothesis =>
        unfold Plan.run at ran
        split at ran
        · contradiction
        · next reply _ answered =>
          exact inductionHypothesis reply (shielded reply (plain_answer answered)) ran
    | consult stat stage path resume inductionHypothesis =>
        exact inductionHypothesis _ (shielded _) ran
    | note record rest inductionHypothesis => exact inductionHypothesis shielded ran
  obtain ⟨ended, ran⟩ :=
    Option.isSome_iff_exists.mp (Plan.run_isSome outside_answers plan { graph })
  have same : (graph.perform plan).1 = ended.1 := by
    simp only [perform, ran, Option.get_some]
  rw [same]
  exact ends shielded ran

theorem shielded_read (stat : Stat) (stage : Stage) (path : Path) :
    (Plan.read stat stage path).Shielded := fun _ plain => plain

theorem shielded_breakdown (graph : Graph) (stat : Stat) : (graph.breakdownPlan stat).Shielded :=
  Plan.shielded_of_propagates (breakdownPlan_propagates graph stat)

/-! ### Graphs with a modifier muted -/

/-- The graph with a modifier muted. -/
def mute (graph : Graph) (id : ModifierId) : Graph :=
  { graph with modifiers := graph.modifiers.modify id Modifier.muted }

/-- Whether the modifier, which has no cached value, comes to a local fault if it is calculated with a
number of levels: to a fault of its condition or of its value. -/
def failsAlone (graph : Graph) (levels : Nat) (id : ModifierId) : Bool :=
  match graph.contributions.get? id, graph.modifiers.get? id with
  | some node, some modifier =>
      (graph.known node).isNone &&
        match modifier.plan.run (Frame.interpreter (evaluate levels)) { graph := graph.enter node } with
        | some (.error fault, _) => fault.isLocal
        | _ => false
  | _, _ => false

/-- The calculation of the modifier ends in a local fault. -/
def Degrades (graph : Graph) (id : ModifierId) : Prop := ∃ levels, graph.failsAlone levels id

theorem Degrades.failed (degrades : graph.Degrades id) :
    ∃ node modifier levels fault frame, graph.contributions.get? id = some node ∧
      graph.modifiers.get? id = some modifier ∧ graph.known node = none ∧ fault.isLocal ∧
        modifier.plan.run (Frame.interpreter (evaluate levels)) { graph := graph.enter node } =
          some (.error fault, frame) := by
  obtain ⟨levels, fails⟩ := degrades
  unfold failsAlone at fails
  split at fails
  · next node modifier contributes present =>
    rw [Bool.and_eq_true, Option.isNone_iff_eq_none] at fails
    obtain ⟨unknown, fails⟩ := fails
    split at fails
    · next fault frame ran =>
      exact ⟨node, modifier, levels, fault, frame, contributes, present, unknown, fails, ran⟩
    · contradiction
  · contradiction

theorem modifiers_mute (graph : Graph) (id other : ModifierId) :
    (graph.mute id).modifiers.get? other =
      if other = id then (graph.modifiers.get? other).map Modifier.muted
      else graph.modifiers.get? other := Table.get?_modify ..

/-- A muted modifier has the source of the modifier. -/
theorem priorityOf_mute (graph : Graph) (id : ModifierId) :
    (graph.mute id).priorityOf = graph.priorityOf := by
  funext other
  by_cases same : other = id
  · simp only [priorityOf, modifiers_mute, if_pos same]
    cases graph.modifiers.get? other <;> rfl
  · simp only [priorityOf, modifiers_mute, if_neg same]

/-- A muted modifier comes to nothing, and all else is calculated as before. -/
theorem planOf_mute (graph : Graph) (id : ModifierId) (address : Address) :
    (graph.mute id).planOf address =
      if address.name = .contribution id then .finish (.ok none) else graph.planOf address := by
  cases address with
  | contribution modifier =>
      simp only [planOf, modifiers_mute, Address.name, NodeName.contribution.injEq]
      by_cases same : modifier = id
      · rw [if_pos same, if_pos same]
        cases graph.modifiers.get? modifier with
        | none => rfl
        | some present =>
            show Plan.degrade _ (Formula.plan (.constant none)) = _
            unfold Formula.plan
            rfl
      · rw [if_neg same, if_neg same]
  | pipeline stat stage path =>
      have same (named : Stat) :
          (graph.mute id).stagePlan named stage path = graph.stagePlan named stage path := by
        cases stage with
        | baseSet =>
            rw [stagePlan, stagePlan, baseSetPlan, baseSetPlan, priorityOf_mute]
            rfl
        | _ => rfl
      rw [Address.name, if_neg (by simp)]
      simp only [planOf, same]
      rfl

theorem isSome_modifiers_mute (graph : Graph) (id other : ModifierId) :
    ((graph.mute id).modifiers.get? other).isSome = (graph.modifiers.get? other).isSome := by
  rw [modifiers_mute]
  split
  · exact Option.isSome_map
  · rfl

theorem WellFormed.mute (formed : graph.WellFormed vocabulary)
    (heeded : vocabulary.formula (.constant none)) (id : ModifierId) :
    (graph.mute id).WellFormed vocabulary :=
  { formed with
    contributed := fun node modifier place => by
      rw [isSome_modifiers_mute]
      exact formed.contributed node modifier place
    present := by
      intro other modifier found
      rw [modifiers_mute] at found
      split at found
      · obtain ⟨before, here, rfl⟩ := Option.map_eq_some_iff.mp found
        have kept := formed.present other before here
        exact ⟨kept.1, kept.2.1.muted heeded, kept.2.2⟩
      · exact formed.present other modifier found
    pipelines := fun stat pipeline here => (formed.pipelines stat pipeline here).mute id }

/-! ### What is cached after the failure -/

/-- The modifier has come to nothing from what is cached on a graph, and all that is cached there
is right. -/
structure Falters (vocabulary : Vocabulary) (base : Graph) (id : ModifierId) (after : Graph) :
    Prop where
  formed : after.WellFormed vocabulary
  coherent : after.Coherent Clean
  tallies : base.Tallies after
  contributes : ∃ node, after.contributions.get? id = some node ∧ after.known node = none
  yields : ∃ reads, (after.planOf (.contribution id)).Yields after none reads

/-- A modifier that fails comes to nothing from what is cached by then. -/
theorem Falters.of_degrades (catalogues : vocabulary.Catalogues catalogue)
    (resting : graph.Resting vocabulary) (coherent : graph.Coherent Clean)
    (tallies : base.Tallies graph) (degrades : graph.Degrades id) :
    ∃ after, base.Falters vocabulary id after := by
  obtain ⟨node, modifier, levels, fault, frame, contributes, present, unknown, isLocal, failed⟩ :=
    degrades.failed
  have own : graph.addressOf? node = some (.contribution id) :=
    resting.formed.contributing id node contributes
  obtain ⟨kept, found, addressed⟩ := Option.map_eq_some_iff.mp own
  have idle : node ∉ graph.evaluating := by simp [resting.idle]
  have stale := stale_of_unknown resting.stacked found unknown idle
  -- The calculation begins.
  have formed := resting.formed.enter node
  have stacked := resting.stacked.enter found stale
  have begun := (proceeds_enter resting.formed coherent found stale).1
  have place : (graph.enter node).addressOf? node = some (.contribution id) :=
    (congrFun (addressOf?_of_shape (shape_enter graph node)) node).trans own
  have plan : (graph.enter node).planOf (.contribution id) =
      .degrade (.contribution id) modifier.plan := by
    rw [planOf_of_shape (shape_enter graph node), planOf, present]
    rfl
  -- It ends with nothing.
  have runs : Runs ((graph.enter node).planOf (.contribution id)) { graph := graph.enter node }
      (.ok none) { frame with graph := frame.graph.record (.degraded (.contribution id) fault) } := by
    rw [plan]
    exact run_sound (fun _ _ _ _ => evaluate_sound) (Plan.run_degrade failed isLocal _)
  have asks := planOf_asks formed place
  have propagates := planOf_propagates catalogues.propagating formed (.contribution id)
  have advances := runs.advances formed stacked (asks.stated formed)
  have settles := runs.settles catalogues.propagating formed stacked begun place asks propagates
  -- no behavior came into force, so the calculation has not become outdated
  have calm := (runs.logs formed stacked (asks.stated formed)).calm
    (runs.registrations (Vocabulary.Bare.hushed catalogues.behavior) formed stacked asks).le
  have tallies := (tallies.trans (.of_extends (grows_enter graph node).toExtends)).trans
    (.of_extends advances.grows.toExtends)
  have running : node ∈ (graph.enter node).evaluating := List.mem_cons_self
  refine ⟨_, advances.formed, settles.settles.coherent, tallies, ⟨node, ?_, ?_⟩, ?_⟩
  · rw [advances.grows.contributions]
    exact contributes
  · rw [Option.eq_none_iff_forall_ne_some]
    exact fun value => advances.stacked.not_known (advances.evaluating ▸ running)
  · rcases settles.yields none rfl with disturbed | ⟨reads, yields, _⟩
    · have outdated := disturbed node running
      rw [calm.1.outdated] at outdated
      exact absurd (resting.stacked.outdated node outdated) idle
    · rw [← advances.grows.planOf formed place] at yields
      exact ⟨reads, yields⟩

/-- With the modifier muted, it comes to nothing as well, and nothing else changes. -/
theorem Falters.mute (falters : base.Falters vocabulary id after)
    (heeded : vocabulary.formula (.constant none)) :
    (base.mute id).Falters vocabulary id (after.mute id) where
  formed := falters.formed.mute heeded id
  coherent := by
    obtain ⟨node, contributes, unknown⟩ := falters.contributes
    have alters : after.Alters (after.mute id) Clean (· = node) :=
      .of_content rfl (fun _ => rfl) (fun _ _ found => found) (fun _ _ found => found)
        fun other address distinct place => by
          refine ⟨?_, by cases address <;> rfl⟩
          rw [planOf_mute, if_neg]
          intro named
          cases address with
          | contribution modifier =>
              cases named
              exact distinct (Option.some.inj
                ((falters.formed.contributed other id place).1.symm.trans contributes))
          | pipeline stat stage path => cases named
    have dirty : (after.mute id).Coherent (· = node) :=
      alters.coherent falters.formed falters.coherent fun _ => .imp_left False.elim
    -- the modifier itself has no value that would have to be justified
    refine ⟨dirty.grounded, fun other value known _ => dirty.justified other value known ?_⟩
    rintro rfl
    exact nomatch unknown.symm.trans known
  tallies :=
    { falters.tallies with
      modifiers := congrArg (·.modify id Modifier.muted) falters.tallies.modifiers }
  contributes := falters.contributes
  yields := ⟨[], by
    rw [planOf_mute, Address.name, if_pos rfl]
    exact .finish⟩

/-! ### What is asked for -/

/-- A request for a name is answered by the node that has this name. -/
theorem located_of_sought (formed : base.WellFormed vocabulary)
    (afterFormed : after.WellFormed vocabulary) {query : Query} {name : NodeName}
    {plan : Plan (Option Value)} (sought : base.sought query = .ok (name, plan))
    {node : NodeId} {address : Address} (place : after.addressOf? node = some address)
    (named : address.name = name) : after.located query = some node := by
  cases query with
  | contribution modifier =>
      rw [Graph.sought] at sought
      split at sought
      · cases sought
        cases address with
        | contribution other =>
            cases named
            exact (afterFormed.contributed node modifier place).1
        | pipeline stat stage path => cases named
      · contradiction
  | node stat stage path =>
      rw [Graph.sought] at sought
      split at sought
      case isFalse => contradiction
      next resolved =>
      cases sought
      obtain ⟨full, spelled, fullId, _⟩ := formed.spelled stat.id stage path
      rw [spelled] at named
      cases address with
      | contribution other => cases named
      | pipeline other own full' =>
          simp only [Address.name, NodeName.pipeline.injEq] at named
          obtain ⟨rfl, rfl, same⟩ := named
          obtain ⟨pipeline, here, listed⟩ := afterFormed.named node _ _ _ place
          rw [located, if_pos resolved, node?, here, Option.bind_some, ← fullId, ← same]
          exact listed

/-- What a request asks for is the plan of the node that has its name. -/
theorem Falters.plan_of_sought (falters : base.Falters vocabulary id after)
    (catalogues : vocabulary.Catalogues catalogue) (formed : base.WellFormed vocabulary)
    (stacked : base.Stacked) {query : Query} (asked : (statedScope vocabulary).query query)
    {name : NodeName} {plan : Plan (Option Value)} (sought : base.sought query = .ok (name, plan))
    {node : NodeId} {address : Address} (place : after.addressOf? node = some address)
    (named : address.name = name) : plan = after.planOf address := by
  have located := located_of_sought formed falters.formed sought place named
  have mirrors := falters.tallies.mirrors catalogues formed stacked falters.formed
  cases sought.symm.trans (mirrors.sought query node address asked located place)
  rfl

/-- With a modifier muted, a request is for the same as before, except for this modifier. -/
theorem sought_mute (base : Graph) (id : ModifierId) (query : Query) :
    (base.mute id).sought query = (base.sought query).map fun found =>
      (found.1, if found.1 = .contribution id then .finish (.ok none) else found.2) := by
  cases query with
  | contribution modifier =>
      rw [Graph.sought, Graph.sought, planOf_mute]
      show (if base.contributions.contains modifier then _ else _) = _
      split <;> rfl
  | node stat stage path =>
      have opened : (base.mute id).opened stat = (base.opened stat).mute id := by
        rw [Graph.opened, Graph.opened]
        show (if base.pipelines.contains stat.id then _ else _) = _
        split <;> rfl
      rw [Graph.sought, Graph.sought]
      split
      · simp only [opened, planOf_mute]
        rfl
      · rfl

/-- No name on the stack is one of a cached value. -/
def Apart (after : Graph) (stack : List NodeName) : Prop :=
  ∀ node value address, after.known node = some value → after.addressOf? node = some address →
    address.name ∉ stack

section Comparison

variable (catalogues : vocabulary.Catalogues catalogue) (formed : base.WellFormed vocabulary)
  (stacked : base.Stacked) (falters : base.Falters vocabulary id after)
  {stack : List NodeName} (apart : after.Apart stack) {levels : Nat}
  (enough : after.nodes.size < levels)
include catalogues formed stacked falters apart enough

/-- What is cached after the failure is what is calculated anew. -/
theorem Falters.recompute_known {node : NodeId} {value : Option Value} {address : Address}
    (known : after.known node = some value) (place : after.addressOf? node = some address) :
    ∃ names, base.recompute levels (address.name :: stack) (after.planOf address) =
      some (.ok value, names) := by
  have grounded := falters.coherent.grounded node value known
  obtain ⟨names, ran, _⟩ := recompute_grounded
    (falters.tallies.mirrors catalogues formed stacked falters.formed) falters.formed
    falters.coherent grounded known place .nil
    (fun _ member => absurd member List.not_mem_nil) enough (by
      intro lower name below named
      obtain ⟨cached, ready⟩ := (grounded.beneath below).known
      obtain ⟨present, found, rfl⟩ := Option.map_eq_some_iff.mp named
      exact apart lower cached present.address ready (addressOf?_of_get? found))
  exact ⟨names, ran⟩

/-- The modifier is calculated anew to nothing. -/
theorem Falters.recompute_itself :
    ∃ names, base.recompute (levels + 1) (.contribution id :: stack)
      (after.planOf (.contribution id)) = some (.ok none, names) := by
  obtain ⟨node, contributes, unknown⟩ := falters.contributes
  have own := falters.formed.contributing id node contributes
  -- the modifier has no cached value, so the stack stays apart with its name on top
  have aside : after.Apart (.contribution id :: stack) := by
    intro other value address known place member
    rcases List.mem_cons.mp member with named | member
    · cases falters.formed.named_once (name_of_addressOf? place)
        ((name_of_addressOf? own).trans (congrArg some named.symm))
      exact nomatch unknown.symm.trans known
    · exact apart other value address known place member
  obtain ⟨reads, yields⟩ := falters.yields
  obtain ⟨names, ran, _⟩ := run_anew
    (falters.tallies.mirrors catalogues formed stacked falters.formed) falters.formed
    (.contribution id :: stack)
    (fun name plan => (base.recompute levels (name :: .contribution id :: stack) plan).map Prod.fst)
    yields ((planOf_asks falters.formed own).stated falters.formed) (by
      intro producer _ cached address known place
      refine ⟨aside producer cached address known place, ?_⟩
      obtain ⟨names, ran⟩ :=
        Falters.recompute_known catalogues formed stacked falters aside enough known place
      rw [ran]
      rfl) []
  exact ⟨names, ran⟩

end Comparison

/-- What a calculation comes to if every read is made anew is the same with the modifier muted. -/
theorem Falters.recompute_mute (catalogues : vocabulary.Catalogues catalogue)
    (heeded : vocabulary.formula (.constant none)) (formed : base.WellFormed vocabulary)
    (stacked : base.Stacked) (mutedStacked : (base.mute id).Stacked)
    (falters : base.Falters vocabulary id after) {levels : Nat}
    {stack : List NodeName} {plan : Plan (Option Value)} {ended : Reply × List NodeName}
    (apart : after.Apart stack) (asks : plan.Asks (statedScope vocabulary))
    (ran : base.recompute levels stack plan = some ended) :
    (base.mute id).recompute (levels + (after.nodes.size + 1)) stack plan = some ended := by
  induction levels generalizing stack plan ended with
  | zero => contradiction
  | succ levels inductionHypothesis =>
      rw [Nat.add_right_comm]
      have transforms : (base.mute id).transformsFor = base.transformsFor := rfl
      refine recompute_agrees catalogues formed transforms (fun query => ?_) ?_ asks ran
      · rw [sought_mute]
        cases base.sought query <;> rfl
      intro query name own again reply reads asked sought soughtAgain ran
      have ownAsks := sought_asks catalogues formed stacked asked sought
      have replanned : again = if name = .contribution id then .finish (.ok none) else own := by
        rw [sought_mute, sought] at soughtAgain
        exact (Prod.mk.inj (Except.ok.inj soughtAgain)).2.symm
      by_cases itself : name = .contribution id
      · -- the modifier comes to nothing on both graphs
        rw [if_pos itself] at replanned
        obtain ⟨node, contributes, _⟩ := falters.contributes
        have plan := falters.plan_of_sought catalogues formed stacked asked sought
          (falters.formed.contributing id node contributes) itself.symm
        obtain ⟨names, nothing⟩ := falters.recompute_itself catalogues formed stacked apart
          (Nat.lt_succ_self _)
        subst itself plan replanned
        cases recompute_unique catalogues formed stacked ownAsks ran nothing
        exact ⟨[], rfl⟩
      rw [if_neg itself] at replanned
      subst replanned
      by_cases cached : ∃ node value address, after.known node = some value ∧
        after.addressOf? node = some address ∧ address.name = name
      · -- what is cached after the failure is calculated anew to the same value on both graphs
        obtain ⟨node, value, address, known, place, rfl⟩ := cached
        obtain ⟨names, comes⟩ := falters.recompute_known catalogues formed stacked apart
          (Nat.lt_succ_self _) known place
        obtain ⟨names, comesAgain⟩ := (falters.mute heeded).recompute_known catalogues
          (formed.mute heeded id) mutedStacked apart
          (show after.nodes.size < levels + (after.nodes.size + 1) by omega) known place
        rw [planOf_mute, if_neg itself] at comesAgain
        rw [falters.plan_of_sought catalogues formed stacked asked sought place rfl]
          at ran ownAsks ⊢
        cases recompute_unique catalogues formed stacked ownAsks ran comes
        exact ⟨names, comesAgain⟩
      · refine ⟨reads, inductionHypothesis ?_ ownAsks ran⟩
        intro node value address known place member
        rcases List.mem_cons.mp member with named | member
        · exact cached ⟨node, value, address, known, place, named⟩
        · exact apart node value address known place member

/-- If all cached values are right and the modifier fails, a read without cached values has the same
reply with the modifier muted. -/
theorem Degrades.perform_read (catalogues : vocabulary.Catalogues catalogue)
    (heeded : vocabulary.formula (.constant none)) (calm : graph.Resting vocabulary)
    (coherent : graph.Coherent Clean) (degrades : graph.Degrades id) (tallies : base.Tallies graph)
    (resting : base.Resting vocabulary) (unknown : ∀ node, base.known node = none) {stat : Stat}
    (stage : Stage) {path : Path} (within : stat.HeadWithin vocabulary)
    (route : path.Within vocabulary) :
    (base.perform (Plan.read stat stage path)).1 =
      ((base.mute id).perform (Plan.read stat stage path)).1 := by
  have asks : (Plan.read stat stage path).Asks (statedScope vocabulary) :=
    Plan.asks_read ⟨within, route⟩
  have comes {graph : Graph} (resting : graph.Resting vocabulary)
      (unknown : ∀ node, graph.known node = none) :
      Recomputes graph [] (Plan.read stat stage path)
        (graph.perform (Plan.read stat stage path)).1 := by
    obtain ⟨_, runs⟩ := runs_perform resting asks
    have idle : graph.Running [] := by
      rw [Running, resting.idle]
      rfl
    exact runs.recomputes catalogues resting.formed resting.stacked resting.formed resting.stacked
      (.of_unknown unknown) (.refl graph) [] asks (Plan.propagates_read ..) idle
  have muted : (base.mute id).Resting vocabulary :=
    { formed := resting.formed.mute heeded id
      stacked := ⟨resting.stacked.computing, resting.stacked.distinct, resting.stacked.outdated⟩
      idle := resting.idle }
  obtain ⟨after, falters⟩ := Falters.of_degrades catalogues calm coherent tallies degrades
  obtain ⟨fewest, ends⟩ := comes resting unknown
  obtain ⟨fewer, endsAgain⟩ := comes muted unknown
  obtain ⟨names, ran⟩ := ends (max fewest fewer) (Nat.le_max_left ..) []
  have same := falters.recompute_mute catalogues heeded resting.formed resting.stacked
    muted.stacked (fun _ _ _ _ _ => List.not_mem_nil) asks
    (show base.recompute (_ + 1) [] _ = _ from ran)
  rw [Nat.add_right_comm] at same
  obtain ⟨namesAgain, ranAgain⟩ :=
    endsAgain (max fewest fewer + (after.nodes.size + 1)) (by omega) []
  exact (Prod.mk.inj (Option.some.inj (same.symm.trans ranAgain))).1

end Graph

/-! ### Isolation -/

/-- A fault that may spread from one node to another: neither a malformed condition nor a failure
of a formula. -/
def Fault.Spreads (fault : Fault) : Prop :=
  ∀ reason, fault ≠ .malformedCondition reason ∧ fault ≠ .formulaFailed reason

theorem Fault.spreads_of_not_local {fault : Fault} (wide : fault.isLocal = false) : fault.Spreads := by
  refine fun reason => ⟨?_, ?_⟩
  · rintro rfl
    cases wide
  · rintro rfl
    cases wide

open CharacterSheet.Graph

/-- A read without cached values replies what it would reply with the modifier muted. -/
def Sheet.Disregards (sheet : Sheet) (id : ModifierId) (stat : Stat) (stage : Stage) (path : Path) :
    Prop :=
  ((sheet.withGraph sheet.graph.uncached).value stat stage path).1 =
    ((sheet.withGraph (sheet.graph.uncached.mute id)).value stat stage path).1

/-- Whatever formulas, conditions and behaviors there are: no calculation of any node, nested or not,
no read on behalf of a subscriber and nothing that is read from outside replies a malformed condition
or the failure of a formula. After operations in which an identity stands for one stat, there are no
behaviors and no formula swallows a fault: if a modifier, calculated without cached values, fails in
one of these ways, every read disregards it. The same holds if cached values were used, provided that
paths for what comes from a single stat have the global source. -/
theorem failures_stay_with_their_modifiers (settings : Settings) (retention : Retention)
    (operations : List Operation) :
    let sheet := Sheet.run { settings, retention } operations
    (∀ levels node graph fault after,
      evaluate levels node graph = some (.error fault, after) → fault.Spreads) ∧
    (∀ graph reading fault, (readFor graph reading).1 = .error fault → fault.Spreads) ∧
    (∀ stat stage path fault, (sheet.value stat stage path).1 = .error fault → fault.Spreads) ∧
    (∀ stat fault, (sheet.breakdown stat).1 = .error fault → fault.Spreads) ∧
    ∀ catalogue id stat stage path,
      ((∀ operation ∈ operations, operation.Within (.uniform catalogue)) →
        stat.HeadWithin (.uniform catalogue) → path.Within (.uniform catalogue) →
          sheet.graph.uncached.Degrades id → sheet.Disregards id stat stage path) ∧
      ((∀ operation ∈ operations, operation.Within (.catalogued catalogue)) →
        stat.HeadWithin (.catalogued catalogue) → path.Within (.catalogued catalogue) →
          sheet.graph.Degrades id → sheet.Disregards id stat stage path) := by
  intro sheet
  refine ⟨fun levels node graph fault after evaluated => ?_, fun graph reading fault replied => ?_,
    fun stat stage path fault replied => ?_, fun stat fault replied => ?_,
    fun catalogue id stat stage path => ⟨?_, ?_⟩⟩
  · exact Fault.spreads_of_not_local ((evaluate_sound evaluated).plain fault rfl)
  · exact Fault.spreads_of_not_local (plain_perform (shielded_read _ _ _) graph fault replied)
  · exact Fault.spreads_of_not_local (plain_perform (shielded_read _ _ _) sheet.graph fault replied)
  · exact Fault.spreads_of_not_local
      (plain_perform (shielded_breakdown sheet.graph stat) sheet.graph fault replied)
  · intro within named route degrades
    have intact : sheet.graph.Intact (.uniform catalogue) :=
      (Sheet.reachable_run (.new settings retention) within).intact Vocabulary.closed_uniform
    have fresh := resting_uncached intact.toResting
    exact degrades.perform_read Vocabulary.catalogues_uniform (constant_propagates none) fresh
      (.of_unknown sheet.graph.known_uncached) (.refl _) fresh sheet.graph.known_uncached stage named
      route
  · intro within named route degrades
    have intact : sheet.graph.Intact (.catalogued catalogue) :=
      (Sheet.reachable_run (.new settings retention) within).intact Vocabulary.closed_catalogued
    exact degrades.perform_read Vocabulary.catalogues_catalogued (constant_propagates none)
      intact.toResting (intact.clean Vocabulary.faithful_catalogued Vocabulary.flat_catalogued)
      (Undisturbed.of_shape sheet.graph.shape_uncached).toTallies.symm
      (resting_uncached intact.toResting) sheet.graph.known_uncached stage named route

/-- A modifier of weight. -/
def weighing (id : ModifierId) (value : Formula) : Modifier where
  id := id
  stats := [.named "Weight"]
  form := .baseAdd
  value := value

theorem weighing_within {vocabulary : Vocabulary} (id : ModifierId) {value : Formula}
    (weight : (Stat.named "Weight").HeadWithin vocabulary) (allowed : vocabulary.formula value)
    (within : value.Within vocabulary) : (weighing id value).Within vocabulary where
  stats := fun _ member => List.mem_singleton.mp member ▸ weight
  value := ⟨allowed, within⟩
  condition := fun _ none => nomatch none

/-- Of two modifiers of weight, one reads what there is of steel and then fails. -/
def losingCount : List Operation :=
  [.add (weighing ⟨1⟩ (.constant (some (.scalar 10)))),
    .add (weighing ⟨2⟩ (.sum [.reference (.named "Steel") .total .main, .fail (.formulaFailed "")]))]

/-- The failed modifier counts as absent, so the total is that of the other one. -/
theorem losingCount_muted :
    let sheet := Sheet.run {} losingCount
    sheet.graph.uncached.Degrades ⟨2⟩ ∧ sheet.Disregards ⟨2⟩ (.named "Weight") .total .main ∧
      ((sheet.withGraph (sheet.graph.uncached.mute ⟨2⟩)).value (.named "Weight") .total .main).1 =
        .ok (some (.scalar 10)) := by
  intro sheet
  have plain (name : String) : (Stat.named name).Within (.uniform Stat.plain) :=
    ⟨rfl, trivial, trivial, trivial, trivial⟩
  have weight := (plain "Weight").headWithin
  have within : ∀ operation ∈ losingCount, operation.Within (.uniform Stat.plain) := by
    simp only [losingCount, List.forall_mem_cons]
    exact ⟨weighing_within _ weight (constant_propagates (some (.scalar 10))) trivial,
      weighing_within _ weight (Formula.propagates_of_heeds _ rfl)
        ⟨⟨plain "Steel", trivial, trivial⟩, trivial, trivial⟩, fun _ none => nomatch none⟩
  have degrades : sheet.graph.uncached.Degrades ⟨2⟩ := ⟨10, by decide +kernel⟩
  have total : ((sheet.withGraph sheet.graph.uncached).value (.named "Weight") .total .main).1 =
      .ok (some (.scalar 10)) := by decide +kernel
  have same := ((failures_stay_with_their_modifiers {} {} losingCount).2.2.2.2 Stat.plain ⟨2⟩
    (.named "Weight") .total .main).1 within weight .main degrades
  exact ⟨degrades, same, same.symm.trans total⟩

/-- Half of the iron becomes steel. Of the two modifiers of weight, the first one brings in steel as
a stat that is either there or not, and fails. -/
def weighingSteel : List Operation :=
  let whether : Stat := { Stat.named "Steel" with dataType := .bool }
  [.add (.baseAdd ⟨1⟩ (.named "Iron") 5), .add (.conversion ⟨2⟩ (.named "Iron") (.named "Steel") 50),
    .add (weighing ⟨3⟩ (.sum [.reference whether .total .main, .fail (.formulaFailed "")])),
    .add (weighing ⟨4⟩ (.reference (.named "Steel") .total .main))]

/-- If stats of one identity differ, a modifier that fails can still leave its mark. -/
theorem failed_weighing_matters : ¬ ∀ settings retention operations,
    let vocabulary := Vocabulary.bounding Formula.Propagates (fun _ => False) (fun _ => True) trivial
    (∀ operation ∈ operations, operation.Within vocabulary) →
      ∀ id stat stage path, stat.HeadWithin vocabulary → path.Within vocabulary →
        let sheet := Sheet.run { settings, retention } operations
        sheet.graph.uncached.Degrades id → sheet.Disregards id stat stage path := by
  intro same
  have weight : (Stat.named "Weight").HeadWithin
      (.bounding Formula.Propagates (fun _ => False) (fun _ => True) trivial) :=
    (named_within_bounding _).headWithin
  have within : ∀ operation ∈ weighingSteel, operation.Within
      (.bounding Formula.Propagates (fun _ => False) (fun _ => True) trivial) := by
    have whether : ({ Stat.named "Steel" with dataType := .bool } : Stat).Within
        (.bounding Formula.Propagates (fun _ => False) (fun _ => True) trivial) :=
      ⟨trivial, trivial, trivial, trivial, trivial⟩
    simp only [weighingSteel, List.forall_mem_cons]
    exact ⟨constant_within_bounding _ _ (named_within_bounding _) constant_propagates,
      constant_within_bounding _ _ (conversion_within_bounding _ _) constant_propagates,
      weighing_within _ weight (Formula.propagates_of_heeds _ rfl)
        ⟨⟨whether, trivial, trivial⟩, trivial, trivial⟩,
      weighing_within _ weight (Formula.propagates_of_heeds _ rfl)
        ⟨named_within_bounding _, trivial, trivial⟩,
      fun _ none => nomatch none⟩
  have again := same {} {} weighingSteel within ⟨3⟩ (.named "Weight") .total .main weight .main
    ⟨20, by decide +kernel⟩
  unfold Sheet.Disregards at again
  exact absurd again (by decide +kernel)

end CharacterSheet
