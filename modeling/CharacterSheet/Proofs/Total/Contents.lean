import CharacterSheet.Proofs.Calculation.Recomputing
import CharacterSheet.Proofs.Change.Tallying

/-!
Contract: what reads depend on if every identity stands for one stat.

Owns:
- vocabularies that catalogue, in which a stat without behaviors belongs to every identity;
- more levels never change what is calculated anew;
- every calculation within a catalogue comes to what is calculated anew, faults included;
- so reads have the same replies on graphs that tally, whatever is cached there.
-/

namespace CharacterSheet

/-- The vocabulary in which an identity stands for one stat, and in which no stat carries behaviors,
no formula swallows a fault and paths for what comes from a single stat have the global source. -/
def Vocabulary.catalogued (catalogue : StatId → Stat) : Vocabulary where
  head named := named = catalogue named.id
  stat named := named = catalogue named.id
  path path := path.convertedStat?.isSome → path.source = .global
  formula := Formula.Propagates
  behavior _ := False
  main := PathOf.main_unconverted
  head_of_stat _ listed := listed

/-- An identity stands for one stat, no formula swallows a fault and no behavior may be named. -/
structure Vocabulary.Catalogues (vocabulary : Vocabulary) (catalogue : StatId → Stat) : Prop where
  head : ∀ named, vocabulary.head named → named = catalogue named.id
  formula : ∀ formula, vocabulary.formula formula → formula.Propagates
  behavior : ∀ behavior, ¬ vocabulary.behavior behavior

section Catalogued

variable {catalogue : StatId → Stat}

theorem Vocabulary.closed_catalogued : (Vocabulary.catalogued catalogue).Closed where
  item _ converted := nomatch converted
  convertedFrom _ _ _ := rfl
  linking _ listed _ := listed

theorem Vocabulary.faithful_catalogued : (Vocabulary.catalogued catalogue).Faithful where
  propagating := ⟨fun _ propagates => propagates, fun _ absurd => absurd.elim⟩
  global := fun _ global => global

theorem Vocabulary.flat_catalogued : (Vocabulary.catalogued catalogue).Flat :=
  fun _ absurd => absurd.elim

theorem Vocabulary.catalogues_catalogued :
    (Vocabulary.catalogued catalogue).Catalogues catalogue where
  head _ listed := listed
  formula _ propagates := propagates
  behavior _ absurd := absurd

variable {vocabulary : Vocabulary} (catalogues : vocabulary.Catalogues catalogue)
include catalogues

theorem Vocabulary.Catalogues.propagating : vocabulary.Propagating :=
  ⟨catalogues.formula, fun behavior named => absurd named (catalogues.behavior behavior)⟩

/-- The identity of a path says which path it is. -/
theorem PathOf.Within.eq_of_id {path other : Path} (within : path.Within vocabulary)
    (listed : other.Within vocabulary) (same : path.id = other.id) : path = other := by
  have spelled {path : Path} (within : path.Within vocabulary) :
      path.conversions = path.id.conversions.map catalogue := by
    rw [PathOf.id, PathOf.map, List.map_map]
    exact (List.map_id _).symm.trans (List.map_congr_left fun stat member =>
      catalogues.head _ (statsWithin_iff.mp within.conversions stat member).headWithin.head)
  have listing : path.conversions = other.conversions := by
    rw [spelled within, spelled listed, same]
  have sources : path.source = other.source := congrArg (fun id : PathId => id.source) same
  cases path
  cases other
  cases sources
  cases listing
  rfl

end Catalogued

/-- A plan comes to the same if the requests that it may make are answered in the same way. -/
theorem Plan.run_agrees {α σ : Type} {scope : Scope} {first second : Interpreter σ} {plan : Plan α}
    {state : σ} {ended : Except Fault α × σ} (ran : plan.run first state = some ended)
    (asks : plan.Asks scope)
    (answers : ∀ query state answered, scope.query query →
      first.answer query state = some answered → second.answer query state = some answered)
    (transforms : ∀ stat stage path state, second.transforms stat stage path state =
      first.transforms stat stage path state)
    (given : ∀ stat stage path state, ∀ transform ∈ first.transforms stat stage path state,
      scope.transform transform)
    (records : second.record = first.record) : plan.run second state = some ended := by
  induction plan generalizing state with
  | finish outcome => exact ran
  | ask query resume inductionHypothesis =>
      unfold Plan.run at ran ⊢
      split at ran
      · contradiction
      · next reply next answered =>
        rw [answers query state _ asks.1 answered]
        exact inductionHypothesis reply ran (asks.2 reply)
  | consult stat stage path resume inductionHypothesis =>
      have later := inductionHypothesis _ ran (asks.2 _ (given stat stage path state))
      rwa [← transforms] at later
  | note record rest inductionHypothesis =>
      have later := inductionHypothesis ran asks.2
      rwa [← records] at later

namespace Graph

variable {vocabulary : Vocabulary} {catalogue : StatId → Stat} {graph middle other base : Graph}

/-! ### Plans within a catalogue -/

section Catalogued

variable (catalogues : vocabulary.Catalogues catalogue)

include catalogues in
/-- No behavior is in force. -/
theorem WellFormed.transformsFor_nil (formed : graph.WellFormed vocabulary)
    (stat : StatId) (stage : Stage) (path : PathId) : graph.transformsFor stat stage path = [] := by
  apply List.eq_nil_iff_forall_not_mem.mpr
  intro transform member
  obtain ⟨behavior, within, _⟩ := formed.transforms member
  exact (catalogues.behavior behavior within.behavior).elim

include catalogues in
/-- A stage is calculated in the same way on graphs that tally. -/
theorem Tallies.planOf (tallies : graph.Tallies other)
    (formed : graph.WellFormed vocabulary) (otherFormed : other.WellFormed vocabulary)
    {stat : StatId} {stage : Stage} {path : Path} (place : path.id.at stage = path.id)
    (opened : (graph.pipelines.get? stat).isSome) (otherOpened : (other.pipelines.get? stat).isSome) :
    other.planOf (.pipeline stat stage path) = graph.planOf (.pipeline stat stage path) := by
  have named {graph : Graph} (formed : graph.WellFormed vocabulary)
      (opened : (graph.pipelines.get? stat).isSome) :
      (graph.pipelines.get? stat).map (·.stat) = some (catalogue stat) := by
    obtain ⟨pipeline, here⟩ := Option.isSome_iff_exists.mp opened
    have keyed := (formed.pipelines stat pipeline here).keyed
    have listed : pipeline.stat = catalogue pipeline.stat.id :=
      catalogues.head _ (formed.pipelines stat pipeline here).within.head
    rw [here, Option.map_some, listed, keyed]
  refine planOf_congr ?_ place fun pipeline here => (formed.pipelines stat pipeline here).keyed
  exact
    { kept := (named otherFormed otherOpened).trans (named formed opened).symm
      members := fun form _ => tallies.members stat form path.id
      priorities := fun _ member _ => by rw [priorityOf, priorityOf, tallies.modifiers]
      shares := fun _ source _ => by
        rw [tallies.links]
        exact ⟨rfl, Or.inl rfl⟩
      retained := fun _ _ => by
        rw [tallies.links]
        exact ⟨rfl, rfl⟩
      paths := fun _ => tallies.paths stat }

/-- Opening a pipeline to look at it is harmless. -/
theorem extends_opened (formed : graph.WellFormed vocabulary) (stacked : graph.Stacked) {stat : Stat}
    (resolved : stat.isResolved) (within : stat.HeadWithin vocabulary) :
    graph.Extends (graph.opened stat) ∧ (graph.opened stat).WellFormed vocabulary ∧
      ((graph.opened stat).pipelines.get? stat.id).isSome := by
  rw [opened]
  split
  · next present => exact ⟨.refl graph, formed, present⟩
  · next missing =>
    have absent : graph.pipelines.get? stat.id = none := by
      rwa [Table.contains, Bool.not_eq_true, Option.isSome_eq_false_iff, Option.isNone_iff_eq_none]
        at missing
    have advances := advances_openPipeline formed stacked absent resolved within
    refine ⟨advances.grows.toExtends, advances.formed, ?_⟩
    rw [openPipeline, Table.get?_insert, if_pos rfl]
    rfl

/-- The address of a stage, whether or not it has a node, is spelled with the path of the stage. -/
theorem WellFormed.spelled (formed : graph.WellFormed vocabulary) (stat : StatId) (stage : Stage)
    (path : Path) : ∃ full : Path, ((graph.node? stat stage path.id).bind graph.addressOf?).getD
        (.pipeline stat stage (path.at stage)) = .pipeline stat stage full ∧
      full.id = path.id.at stage ∧ (path.Within vocabulary → full.Within vocabulary) := by
  cases present : graph.node? stat stage path.id with
  | none => exact ⟨path.at stage, rfl, PathOf.id_at path stage, fun within => within.at stage⟩
  | some node =>
      obtain ⟨pipeline, here, listed⟩ := Option.bind_eq_some_iff.mp present
      obtain ⟨full, place, fullId, _⟩ := formed.listed _ _ _ _ _ here listed
      exact ⟨full, by rw [Option.bind_some, place, Option.getD_some], fullId,
        fun _ => formed.addressed _ _ _ _ place⟩

/-- The modifiers with a contribution node are those that are present. -/
theorem WellFormed.contributions_contains (formed : graph.WellFormed vocabulary) (id : ModifierId) :
    graph.contributions.contains id = graph.modifiers.contains id := by
  rw [Bool.eq_iff_iff, Table.contains, Table.contains]
  constructor
  · intro contributes
    obtain ⟨node, here⟩ := Option.isSome_iff_exists.mp contributes
    exact (formed.contributed node id (formed.contributing id node here)).2
  · intro present
    obtain ⟨modifier, here⟩ := Option.isSome_iff_exists.mp present
    exact (formed.present id modifier here).2.2

include catalogues in
/-- A request is for the same on graphs that tally. -/
theorem Tallies.mirrors (tallies : base.Tallies graph)
    (baseFormed : base.WellFormed vocabulary) (baseStacked : base.Stacked)
    (formed : graph.WellFormed vocabulary) : graph.Mirrors vocabulary base where
  sought := by
    intro query node address asked found place
    cases query with
    | contribution modifier =>
        have here : graph.contributions.get? modifier = some node := found
        rw [formed.contributing modifier node here] at place
        cases place
        have there : base.contributions.contains modifier := by
          rw [baseFormed.contributions_contains, ← tallies.modifiers,
            ← formed.contributions_contains, Table.contains, here]
          rfl
        rw [Graph.sought, if_pos there, Graph.planOf, Graph.planOf, tallies.modifiers]
        rfl
    | node stat stage path =>
        rw [located] at found
        split at found
        case isFalse => contradiction
        next resolved =>
        obtain ⟨pipeline, here, listed⟩ := Option.bind_eq_some_iff.mp found
        obtain ⟨full, address', fullId, fits⟩ := formed.listed _ _ _ _ _ here listed
        cases place.symm.trans address'
        have fullWithin := formed.addressed _ _ _ _ place
        obtain ⟨own, spelled, ownId, within⟩ := baseFormed.spelled stat.id stage path
        have same : full = own := PathOf.Within.eq_of_id catalogues fullWithin (within asked.2)
          (fullId.trans ownId.symm)
        rw [← same] at spelled
        obtain ⟨larger, openedFormed, opened⟩ :=
          extends_opened baseFormed baseStacked resolved asked.1
        have plan : graph.planOf (.pipeline stat.id stage full) =
            (base.opened stat).planOf (.pipeline stat.id stage full) :=
          ((Tallies.of_extends larger).symm.trans tallies).planOf catalogues openedFormed formed
            (fullId ▸ fits) opened (by rw [here]; rfl)
        rw [Graph.sought, if_pos resolved, spelled, plan]
  transforms stat stage path :=
    (baseFormed.transformsFor_nil catalogues ..).trans (formed.transformsFor_nil catalogues ..).symm

end Catalogued

/-- A refusal is the same on graphs that tally. -/
theorem Tallies.sought_of_refused (tallies : base.Tallies graph)
    (baseFormed : base.WellFormed vocabulary) (formed : graph.WellFormed vocabulary) {query : Query}
    {answer : Reply} {same : Graph} (refused : graph.locate query = (.error answer, same)) :
    base.sought query = .error answer := by
  obtain ⟨_, ⟨stat, stage, path, rfl, unresolved, rfl⟩ | ⟨modifier, rfl, missing, rfl⟩⟩ :=
    refused_locate refused
  · rw [sought, if_neg (by simp [unresolved])]
  · have absent : ¬ base.contributions.contains modifier := by
      rw [baseFormed.contributions_contains, ← tallies.modifiers, ← formed.contributions_contains,
        Table.contains, missing]
      exact Bool.false_ne_true
    rw [sought, if_neg absent]

/-! ### More levels -/

section Anew

variable (catalogues : vocabulary.Catalogues catalogue) (formed : base.WellFormed vocabulary)
  (stacked : base.Stacked)
include catalogues formed stacked

/-- What a request asks for stays within what may be named. -/
theorem sought_asks {query : Query} {name : NodeName} {plan : Plan (Option Value)}
    (asked : (statedScope vocabulary).query query) (sought : base.sought query = .ok (name, plan)) :
    plan.Asks (statedScope vocabulary) := by
  have advances := advances_locate formed stacked asked
  have tallies : base.Tallies (base.locate query).2 := .of_extends advances.grows.toExtends
  rcases found : base.locate query with ⟨reply | node, grown⟩
  · rw [(Tallies.refl base).sought_of_refused formed formed found] at sought
    contradiction
  · rw [found] at advances tallies
    have there := located_locate formed stacked asked found
    obtain ⟨address, place⟩ := advances.formed.located_addressed there
    have same := (tallies.mirrors catalogues formed stacked advances.formed).sought query node address
      asked there place
    cases same.symm.trans sought
    exact (planOf_asks advances.formed place).stated advances.formed

omit stacked in
/-- A calculation comes to the same on a graph on which its requests are for the same names, if the
calculations nested in it come to the same replies. -/
theorem recompute_agrees {other : Graph} (transforms : other.transformsFor = base.transformsFor)
    (names : ∀ query, (other.sought query).map Prod.fst = (base.sought query).map Prod.fst)
    {levels more : Nat} {stack : List NodeName}
    (nested : ∀ query name own again reply reads, (statedScope vocabulary).query query →
      base.sought query = .ok (name, own) → other.sought query = .ok (name, again) →
        base.recompute levels (name :: stack) own = some (reply, reads) →
          ∃ reads, other.recompute more (name :: stack) again = some (reply, reads))
    {plan : Plan (Option Value)} {ended : Reply × List NodeName}
    (asks : plan.Asks (statedScope vocabulary))
    (ran : base.recompute (levels + 1) stack plan = some ended) :
    other.recompute (more + 1) stack plan = some ended := by
  refine Plan.run_agrees ran asks ?_
    (fun stat stage path _ => congrFun (congrFun (congrFun transforms stat) stage) path) ?_ rfl
  · intro query before answered asked answer
    have named := names query
    simp only [anew] at answer ⊢
    rcases sought : base.sought query with reply | ⟨name, own⟩ <;>
      rcases again : other.sought query with reply' | ⟨name', plan'⟩ <;>
      simp only [sought, again, Except.map, reduceCtorEq, Except.error.injEq, Except.ok.injEq]
        at named answer ⊢
    · rwa [named]
    · subst named
      split at answer
      · next circular => rwa [if_pos circular]
      · next outside =>
        rw [if_neg outside]
        obtain ⟨reply, calculated, rfl⟩ := Option.map_eq_some_iff.mp answer
        obtain ⟨⟨reply, reads⟩, ran, rfl⟩ := Option.map_eq_some_iff.mp calculated
        obtain ⟨_, ranAgain⟩ := nested query _ own plan' reply reads asked sought again ran
        rw [ranAgain]
        rfl
  · intro stat stage path _ transform member
    change transform ∈ base.transformsFor stat stage path at member
    rw [formed.transformsFor_nil catalogues] at member
    contradiction

/-- More levels never change what a calculation comes to. -/
theorem recompute_mono {levels more : Nat} (enough : levels ≤ more) {stack : List NodeName}
    {plan : Plan (Option Value)} {ended : Reply × List NodeName}
    (asks : plan.Asks (statedScope vocabulary)) (ran : base.recompute levels stack plan = some ended) :
    base.recompute more stack plan = some ended := by
  induction levels generalizing more stack plan ended with
  | zero => contradiction
  | succ levels inductionHypothesis =>
      obtain ⟨more, rfl⟩ : ∃ fewer, more = fewer + 1 := ⟨more - 1, by omega⟩
      refine recompute_agrees catalogues formed rfl (fun _ => rfl) ?_ asks ran
      intro query name own again reply reads asked sought soughtAgain ran
      cases sought.symm.trans soughtAgain
      exact ⟨reads, inductionHypothesis (Nat.le_of_succ_le_succ enough)
        (sought_asks catalogues formed stacked asked sought) ran⟩

theorem recompute_unique {levels more : Nat} {stack : List NodeName} {plan : Plan (Option Value)}
    {ended other : Reply × List NodeName} (asks : plan.Asks (statedScope vocabulary))
    (ran : base.recompute levels stack plan = some ended)
    (ranAgain : base.recompute more stack plan = some other) : ended = other := by
  have first := recompute_mono catalogues formed stacked (Nat.le_max_left levels more) asks ran
  have second := recompute_mono catalogues formed stacked (Nat.le_max_right levels more) asks ranAgain
  exact Option.some.inj (first.symm.trans second)

end Anew

/-! ### The stack by names -/

/-- The names of the nodes that are being calculated, innermost first. -/
def Running (graph : Graph) (stack : List NodeName) : Prop :=
  graph.evaluating.map graph.nameOf? = stack.map some

theorem Running.advance {stack : List NodeName} (running : graph.Running stack)
    (stacked : graph.Stacked) (advances : Advances vocabulary graph other) :
    other.Running stack := by
  rw [Running, advances.evaluating, ← running]
  exact List.map_congr_left fun node member => nameOf?_of_advances advances stacked member

theorem Running.enter {stack : List NodeName} (running : graph.Running stack) {node : NodeId}
    {present : Node} (found : graph.nodes.get? node = some present) :
    (graph.enter node).Running (present.address.name :: stack) := by
  show (node :: graph.evaluating).map (graph.enter node).nameOf? = _
  rw [nameOf?_of_shape (shape_enter graph node), List.map_cons, List.map_cons, nameOf?_of_get? found,
    ← running]

/-- A node is being calculated if its name is on the stack. -/
theorem Running.mem_iff {stack : List NodeName} (running : graph.Running stack)
    (formed : graph.WellFormed vocabulary) {node : NodeId} {name : NodeName}
    (named : graph.nameOf? node = some name) : name ∈ stack ↔ node ∈ graph.evaluating := by
  have listed : name ∈ stack ↔ some name ∈ graph.evaluating.map graph.nameOf? := by
    rw [running, List.mem_map]
    simp
  rw [listed, List.mem_map]
  constructor
  · rintro ⟨other, member, same⟩
    rwa [formed.named_once named same]
  · exact fun member => ⟨node, member, named⟩

theorem Stacked.not_known (stacked : graph.Stacked) {node : NodeId}
    (running : node ∈ graph.evaluating) {value : Option Value} : graph.known node ≠ some value := by
  intro known
  obtain ⟨present, found, computing⟩ := (stacked.computing node).mpr running
  obtain ⟨again, there, ready⟩ := known_eq_some_iff.mp known
  cases found.symm.trans there
  cases computing.symm.trans ready

/-- The fault of a circle by names. -/
theorem Running.cycleFault {stack : List NodeName} (running : graph.Running stack)
    (formed : graph.WellFormed vocabulary) {node : NodeId} {name : NodeName}
    (named : graph.nameOf? node = some name) : graph.cycleFault node = circle stack name := by
  have inner : ∀ (nodes : List NodeId) (stack : List NodeName),
      nodes.map graph.nameOf? = stack.map some →
        (nodes.takeWhile (· ≠ node)).map graph.nameOf? = (stack.takeWhile (· ≠ name)).map some := by
    intro nodes
    induction nodes with
    | nil =>
        rintro (_ | _) ⟨⟩
        rfl
    | cons first rest inductionHypothesis =>
        rintro (_ | ⟨top, below⟩) same
        · cases same
        · simp only [List.map_cons, List.cons.injEq] at same
          have both : first = node ↔ top = name := by
            constructor
            · rintro rfl
              exact Option.some.inj (same.1.symm.trans named)
            · rintro rfl
              exact formed.named_once same.1 named
          by_cases stops : first = node
          · simp [stops, both.mp stops]
          · simpa [stops, mt both.mpr stops, same.1] using inductionHypothesis below same.2
  rw [Graph.cycleFault, circle]
  congr 1
  have spelled : (node :: (graph.evaluating.takeWhile (· ≠ node)).reverse ++ [node]).map
      graph.nameOf? = (name :: (stack.takeWhile (· ≠ name)).reverse ++ [name]).map some := by
    simp only [List.map_append, List.map_cons, List.map_reverse, inner _ _ running, named,
      List.map_nil]
  calc _ = ((node :: (graph.evaluating.takeWhile (· ≠ node)).reverse ++ [node]).map
        graph.nameOf?).filterMap id := List.filterMap_map.symm
    _ = name :: (stack.takeWhile (· ≠ name)).reverse ++ [name] := by
        rw [spelled, List.filterMap_map]
        exact List.filterMap_some

end Graph

open CharacterSheet.Graph

/-! ### Calculations are made anew in effect -/

section Induction

variable {vocabulary : Vocabulary} {catalogue : StatId → Stat} {base : Graph}

/-- What a plan comes to if every read is made anew, with enough levels. -/
def Recomputes (base : Graph) (stack : List NodeName) (plan : Plan (Option Value)) (reply : Reply) :
    Prop :=
  ∃ fewest, ∀ levels, fewest ≤ levels → ∀ before, ∃ names,
    plan.run (base.anew stack fun name plan => (base.recompute levels (name :: stack) plan).map
      Prod.fst) before = some (reply, names)

mutual

/-- A calculation comes to what is calculated anew on any graph that tallies. -/
theorem Evaluates.recomputes (catalogues : vocabulary.Catalogues catalogue)
    (formedBase : base.WellFormed vocabulary) (stackedBase : base.Stacked) {node : NodeId}
    {graph after : Graph} {reply : Reply} :
    Evaluates node graph reply after → graph.WellFormed vocabulary → graph.Stacked →
      graph.Coherent Clean → base.Tallies graph → node ∉ graph.evaluating →
        ∀ (address : Address) (stack : List NodeName), graph.addressOf? node = some address →
          graph.Running stack → ∃ fewest, ∀ levels, fewest ≤ levels → ∃ names,
            base.recompute levels (address.name :: stack) (graph.planOf address) =
              some (reply, names)
  | .absent missing, _, _, _, _, _ => by
      intro address stack found
      rw [addressOf?, missing] at found
      contradiction
  | @Evaluates.cached _ _ present value here ready, formed, stacked, coherent, tallies, _ => by
      intro address stack found running
      have known : graph.known node = some value := known_eq_some_iff.mpr ⟨present, here, ready⟩
      have grounded := coherent.grounded node value known
      refine ⟨graph.nodes.size + 1, fun levels enough => ?_⟩
      obtain ⟨names, same, _⟩ := recompute_grounded
        (tallies.mirrors catalogues formedBase stackedBase formed) formed coherent grounded known
        found .nil (fun _ member => nomatch member) enough
        (by
          -- what the node rests on has a value, so it is not being calculated
          intro lower name below named member
          obtain ⟨cached, known⟩ := (grounded.beneath below).known
          exact stacked.not_known ((running.mem_iff formed named).mp member) known)
      exact ⟨names, same⟩
  | .circular here computing, _, stacked, _, _, idle =>
      absurd ((stacked.computing node).mp ⟨_, here, computing⟩) idle
  | @Evaluates.calculated _ _ present _ frame here stale runs, formed, stacked, coherent, tallies,
      _ => by
      intro address stack found running
      have entered := formed.enter node
      have place := addressOf?_enter here
      obtain ⟨fewest, comes⟩ := runs.recomputes catalogues formedBase stackedBase entered
        (stacked.enter here stale) (proceeds_enter formed coherent here stale).1
        (tallies.trans (.of_extends (grows_enter graph node).toExtends)) (present.address.name :: stack)
        ((planOf_asks entered place).stated entered)
        (planOf_propagates catalogues.propagating entered present.address)
        (running.enter here)
      rw [addressOf?, here] at found
      cases found
      rw [planOf_of_shape (shape_enter graph node)] at comes
      refine ⟨fewest + 1, fun levels enough => ?_⟩
      obtain ⟨fewer, rfl⟩ : ∃ fewer, levels = fewer + 1 := ⟨levels - 1, by omega⟩
      exact comes fewer (Nat.le_of_succ_le_succ enough) []

/-- The run of a plan comes to what the plan comes to if every read is made anew. -/
theorem Runs.recomputes (catalogues : vocabulary.Catalogues catalogue)
    (formedBase : base.WellFormed vocabulary) (stackedBase : base.Stacked)
    {plan : Plan (Option Value)} {frame after : Frame} {reply : Reply} :
    Runs plan frame reply after → frame.graph.WellFormed vocabulary →
      frame.graph.Stacked → frame.graph.Coherent Clean → base.Tallies frame.graph →
        ∀ (stack : List NodeName), plan.Asks (statedScope vocabulary) →
          plan.Propagates Transform.Propagates (fun fault => fault.isLocal = false) →
            frame.graph.Running stack → Recomputes base stack plan reply
  | .finish, _, _, _, _ => by
      intro stack _ _ _
      exact ⟨0, fun _ _ before => ⟨before, rfl⟩⟩
  | @Runs.note entry _ frame _ _ rest, formed, stacked, coherent, tallies => by
      intro stack asks propagates running
      have noted := proceeds_record formed stacked coherent (Record.inward_of_note asks.1)
      exact rest.recomputes catalogues formedBase stackedBase noted.advances.formed
        noted.advances.stacked noted.settles.coherent
        (tallies.trans (.of_extends noted.advances.grows.toExtends)) stack asks.2 propagates
        (running.advance stacked noted.advances)
  | @Runs.consult stat stage path resume frame _ after rest, formed, stacked, coherent, tallies => by
      intro stack asks propagates running
      have nothing := formed.transformsFor_nil catalogues stat stage path
      have baseNothing := formedBase.transformsFor_nil catalogues stat stage path
      have given : ∀ transform ∈ frame.graph.transformsFor stat stage path,
          transform.Within vocabulary ∧ transform.Propagates := by
        rw [nothing]
        exact fun _ member => nomatch member
      obtain ⟨fewest, comes⟩ := rest.recomputes catalogues formedBase stackedBase formed stacked
        coherent tallies stack (asks.2 _ fun transform member => (given _ member).1)
        (propagates _ fun transform member => (given _ member).2) running
      rw [nothing, ← baseNothing] at comes
      exact ⟨fewest, comes⟩
  | @Runs.answered query resume frame answer grown _ after refused rest, formed, stacked, coherent,
      tallies => by
      intro stack asks propagates running
      have sought : base.sought query = .error answer := tallies.sought_of_refused formedBase formed refused
      have located := proceeds_locate formed stacked coherent asks.1
      have plain := refused_plain refused
      rw [refused] at located
      obtain ⟨fewest, comes⟩ := rest.recomputes catalogues formedBase stackedBase
        located.advances.formed located.advances.stacked located.settles.coherent
        (tallies.trans (.of_extends located.advances.grows.toExtends)) stack (asks.2 answer)
        (propagates_resume propagates plain) (running.advance stacked located.advances)
      refine ⟨fewest, fun levels enough before => ?_⟩
      simpa only [Plan.run, anew, sought] using comes levels enough before
  | @Runs.read query resume frame located grown answer graph _ after here evaluates rest, formed,
      stacked, coherent, tallies => by
      intro stack asks propagates running
      have making := proceeds_locate formed stacked coherent asks.1
      rw [here] at making
      have there := located_locate formed stacked asks.1 here
      have existing := making.advances.formed.located_addressed there
      have madeTallies := tallies.trans (.of_extends making.advances.grows.toExtends)
      have propagating := catalogues.propagating
      have evaluated := evaluates.advances making.advances.formed making.advances.stacked
      have plain := evaluates.plain
      have settles := (evaluates.settles propagating making.advances.formed making.advances.stacked
        making.settles.coherent existing).1
      have reached := making.advances.trans evaluated
      obtain ⟨fewest, comes⟩ := rest.recomputes catalogues formedBase stackedBase evaluated.formed
        evaluated.stacked settles.coherent
        (madeTallies.trans (.of_extends evaluated.grows.toExtends)) stack (asks.2 answer)
        (propagates_resume propagates plain) (running.advance stacked reached)
      have madeRunning := running.advance stacked making.advances
      obtain ⟨own, place⟩ := existing
      have mirrors := madeTallies.mirrors catalogues formedBase stackedBase making.advances.formed
      have sought := mirrors.sought query located own asks.1 there place
      have memIff := madeRunning.mem_iff making.advances.formed (name_of_addressOf? place)
      have inner := evaluates.recomputes catalogues formedBase stackedBase making.advances.formed
        making.advances.stacked making.settles.coherent madeTallies
      by_cases circular : located ∈ grown.evaluating
      · refine ⟨fewest, fun levels enough before => ?_⟩
        obtain ⟨same, _⟩ := evaluates_running making.advances.stacked circular evaluates
        rw [madeRunning.cycleFault making.advances.formed (name_of_addressOf? place)] at same
        obtain ⟨names, runs⟩ := comes levels enough
          (if own.name ∈ before then before else before ++ [own.name])
        refine ⟨names, ?_⟩
        simpa only [Plan.run, anew, sought, if_pos (memIff.mpr circular), same] using runs
      · obtain ⟨fewer, calculates⟩ := inner circular own stack place madeRunning
        refine ⟨max fewest fewer, fun levels enough before => ?_⟩
        obtain ⟨read, calculated⟩ := calculates levels (Nat.le_trans (Nat.le_max_right ..) enough)
        obtain ⟨names, runs⟩ := comes levels (Nat.le_trans (Nat.le_max_left ..) enough)
          (if own.name ∈ before then before else before ++ [own.name])
        refine ⟨names, ?_⟩
        simpa only [Plan.run, anew, sought, if_neg (mt memIff.mp circular), calculated,
          Option.map_some] using runs

end

end Induction

/-- What a plan comes to if every read is made anew is one thing. -/
theorem Recomputes.unique {base : Graph} {stack : List NodeName} {plan : Plan (Option Value)}
    {reply other : Reply} (first : Recomputes base stack plan reply)
    (second : Recomputes base stack plan other) : reply = other := by
  obtain ⟨fewest, comes⟩ := first
  obtain ⟨fewer, comesToo⟩ := second
  obtain ⟨_, runs⟩ := comes (max fewest fewer) (Nat.le_max_left ..) []
  obtain ⟨_, runsToo⟩ := comesToo (max fewest fewer) (Nat.le_max_right ..) []
  exact congrArg Prod.fst (Option.some.inj (runs.symm.trans runsToo))

/-- Reads have the same replies on graphs that tally. -/
theorem Graph.Tallies.perform_read {catalogue : StatId → Stat} {graph other : Graph}
    (tallies : graph.Tallies other) (intact : graph.Intact (.catalogued catalogue))
    (otherIntact : other.Intact (.catalogued catalogue)) {stat : Stat} (stage : Stage) {path : Path}
    (within : stat.HeadWithin (.catalogued catalogue)) (route : path.Within (.catalogued catalogue)) :
    (other.perform (Plan.read stat stage path)).1 = (graph.perform (Plan.read stat stage path)).1 := by
  have asks : (Plan.read stat stage path).Asks (statedScope (.catalogued catalogue)) :=
    Plan.asks_read ⟨within, route⟩
  have comes {read : Graph} (intact' : read.Intact (.catalogued catalogue))
      (tallies : graph.Tallies read) :
      Recomputes graph [] (Plan.read stat stage path) (read.perform (Plan.read stat stage path)).1 := by
    obtain ⟨_, runs⟩ := runs_perform intact'.toResting asks
    have idle : read.Running [] := by
      rw [Running, intact'.idle]
      rfl
    exact runs.recomputes Vocabulary.catalogues_catalogued intact.formed intact.stacked
      intact'.formed intact'.stacked
      (intact'.clean Vocabulary.faithful_catalogued Vocabulary.flat_catalogued) tallies [] asks
      (Plan.propagates_read ..) idle
  exact (comes otherIntact tallies).unique (comes intact (.refl graph))

end CharacterSheet
