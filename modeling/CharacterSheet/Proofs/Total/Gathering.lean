import CharacterSheet.Proofs.Change.Enduring
import CharacterSheet.Proofs.Total.Mustering
import CharacterSheet.Proofs.Calculation.Nesting

/-!
Contract: a stage that collects modifiers comes to what these contribute.

Owns:
- transforms in force stay in force while nodes are calculated;
- what modifiers contribute in the course of the calculation of the stage that collects them;
- unless behaviors are in force for it, the value of such a stage is calculated from just that,
  whether it is calculated anew or found in the cache;
- after any calls, graphs are in the state that this asks for.
-/

namespace CharacterSheet
namespace Graph

variable {vocabulary : Vocabulary} {graph : Graph}

/-! ### Transforms in force -/

theorem inForce_ensurePipeline (stat : Stat) {address : Address} {transform : Transform}
    (inForce : transform ∈ graph.transformsOf address) :
    transform ∈ (graph.ensurePipeline stat).transformsOf address := by
  rw [ensurePipeline_eq]
  have opened : transform ∈ (graph.openPipeline stat).transformsOf address := by
    cases address <;> exact inForce
  split
  · exact inForce
  · split
    · exact opened
    · next unforced =>
      have absent : (graph.openPipeline stat).behaviors.get? stat.id = none := by
        simp only [Bool.or_eq_true, not_or, Table.contains, Bool.not_eq_true,
          Option.isSome_eq_false_iff, Option.isNone_iff_eq_none] at unforced
        exact unforced.2
      rw [enforce, transformsOf_of_shape (shape_invalidateTargets _ _)]
      cases address with
      | contribution modifier => exact opened
      | pipeline own stage path =>
          simp only [transformsOf, transformsFor_eq] at opened
          simp only [transformsOf, transformsFor_eq, record, Table.entries_insert_of_absent absent,
            List.flatMap_append, List.mem_append]
          exact Or.inl opened

/-- While nodes are calculated, transforms in force stay in force. -/
theorem enduring_inForce (address : Address) (transform : Transform) :
    Enduring fun graph => transform ∈ graph.transformsOf address where
  record := fun graph entry inForce => by
    rwa [transformsOf_of_shape (shape_record graph entry)]
  enter := fun graph node inForce => by
    rwa [transformsOf_of_shape (shape_enter graph node)]
  leave := fun graph node reads reply inForce => by
    rwa [transformsOf_of_shape (shape_leave graph node reads reply)]
  locate := by
    intro graph query inForce
    cases query with
    | contribution modifier =>
        rw [locate_contribution]
        split <;> exact inForce
    | node stat stage path =>
        rw [locate_node]
        split
        · exact obtain_induction (motive := fun grown => transform ∈ grown.transformsOf address)
            stage (inForce_ensurePipeline stat inForce) fun grown other place before _ _ _ => by
              cases address <;> exact before
        · exact inForce

/-- Where no behavior is in force in the end of a run, none was before. -/
theorem bare_of_runs {plan : Plan (Option Value)} {frame after : Frame} {reply : Reply}
    (runs : Runs plan frame reply after) {address : Address}
    (bare : after.graph.transformsOf address = []) : frame.graph.transformsOf address = [] := by
  refine List.eq_nil_iff_forall_not_mem.mpr fun transform member => ?_
  have later := (enduring_inForce address transform).runs runs member
  rw [bare] at later
  contradiction

/-! ### Contributions from the cache -/

/-- What is cached of the contribution of a modifier. -/
def contributed (graph : Graph) (modifier : ModifierId) : Option Value :=
  ((graph.contributions.get? modifier).bind graph.known).getD none

/-- Whether something is cached of the contribution of a modifier. -/
def Contributes (graph : Graph) (modifier : ModifierId) : Prop :=
  ∃ node, graph.contributions.get? modifier = some node ∧
    graph.known node = some (graph.contributed modifier)

/-- Contributions that follow from cached values are those that are cached. -/
theorem contributed_of_yields {members : List ModifierId} {values : List (Option Value)}
    {reads : List NodeId}
    (yields : (Plan.gather Plan.contribution members).Yields graph values reads) :
    values = members.map graph.contributed ∧ ∀ member ∈ members, graph.Contributes member := by
  induction members generalizing values reads with
  | nil =>
      cases yields
      exact ⟨rfl, fun _ none => absurd none List.not_mem_nil⟩
  | cons member rest inductionHypothesis =>
      obtain ⟨first, _, _, own, later, _⟩ := Plan.Yields.of_bind yields
      obtain ⟨others, _, _, further, last, _⟩ := Plan.Yields.of_bind later
      obtain ⟨rfl, contribute⟩ := inductionHypothesis further
      cases last
      cases own with
      | @read _ _ node cached _ _ found known finished =>
        cases finished
        have listed : graph.contributions.get? member = some node := found
        have same : graph.contributed member = first := by
          rw [contributed, listed, Option.bind_some, known]
          rfl
        refine ⟨by rw [List.map_cons, same], ?_⟩
        rintro other inside
        rcases List.mem_cons.mp inside with rfl | later
        · exact ⟨node, listed, same.symm ▸ known⟩
        · exact contribute other later

/-- Contributions that are cached are not calculated anew. -/
theorem run_contributed {members : List ModifierId} {frame : Frame}
    (contribute : ∀ member ∈ members, frame.graph.Contributes member) :
    ∃ reads, (Plan.gather Plan.contribution members).run (Frame.interpreter (evaluate 1)) frame =
      some (.ok (members.map frame.graph.contributed), { frame with reads }) := by
  induction members generalizing frame with
  | nil => exact ⟨frame.reads, rfl⟩
  | cons member rest inductionHypothesis =>
      obtain ⟨node, listed, known⟩ := contribute member List.mem_cons_self
      obtain ⟨present, found, ready⟩ := known_eq_some_iff.mp known
      have same : (frame.addRead node).graph = frame.graph := by
        unfold Frame.addRead
        split <;> rfl
      have answered : Frame.answer (evaluate 1) (.contribution member) frame =
          some (.ok (frame.graph.contributed member), frame.addRead node) := by
        simp only [Frame.answer, listed, Frame.readNode, evaluate, evaluateBy, same, found, ready]
        rw [← same]
      have contribute' : ∀ other ∈ rest, (frame.addRead node).graph.Contributes other := by
        rw [same]
        exact fun other inside => contribute other (List.mem_cons_of_mem member inside)
      obtain ⟨reads, later⟩ := inductionHypothesis contribute'
      refine ⟨reads, ?_⟩
      have own : (Plan.contribution member).run (Frame.interpreter (evaluate 1)) frame =
          some (.ok (frame.graph.contributed member), frame.addRead node) := by
        simp only [Plan.contribution, Plan.run, Frame.interpreter, answered]
      have gathered : Plan.gather Plan.contribution (member :: rest) =
          (Plan.contribution member).bind fun first =>
            (Plan.gather Plan.contribution rest).bind fun others =>
              .finish (.ok (first :: others)) := rfl
      rw [gathered, Plan.run_bind, own]
      simp only [Plan.run_bind, later, Plan.run, same, List.map_cons]

/-- What is cached of a contribution is still cached when the calculation of a stage begins. -/
theorem Contributes.enter {node : NodeId} {stat : StatId} {stage : Stage} {full : Path}
    (formed : graph.WellFormed vocabulary)
    (found : graph.addressOf? node = some (.pipeline stat stage full)) {member : ModifierId}
    (contributes : graph.Contributes member) : (graph.enter node).Contributes member ∧
      (graph.enter node).contributed member = graph.contributed member := by
  obtain ⟨own, listed, known⟩ := contributes
  have apart : own ≠ node := by
    rintro rfl
    have staged := formed.contributing member own listed
    rw [found] at staged
    cases staged
  have listed' : (graph.enter node).contributions.get? member = some own := listed
  have known' : (graph.enter node).known own = some (graph.contributed member) := by
    rw [Graph.known, get?_enter, if_neg apart]
    exact known
  have same : (graph.enter node).contributed member = graph.contributed member := by
    rw [contributed, listed', Option.bind_some, known']
    rfl
  exact ⟨⟨own, listed', same.symm ▸ known'⟩, same⟩

/-- A stage whose contributions are all cached comes to these. -/
theorem run_contributed_enter {node : NodeId} {stat : StatId} {stage : Stage} {full : Path}
    (formed : graph.WellFormed vocabulary)
    (found : graph.addressOf? node = some (.pipeline stat stage full)) {members : List ModifierId}
    (contribute : ∀ member ∈ members, graph.Contributes member) :
    ∃ reads, (Plan.gather Plan.contribution members).run (Frame.interpreter (evaluate 1))
        { graph := graph.enter node } =
      some (.ok (members.map graph.contributed), { graph := graph.enter node, reads }) := by
  have values : members.map (graph.enter node).contributed = members.map graph.contributed :=
    List.map_congr_left fun member inside => ((contribute member inside).enter formed found).2
  rw [← values]
  exact @run_contributed members { graph := graph.enter node } fun member inside =>
    ((contribute member inside).enter formed found).1

/-! ### The value of a stage that collects modifiers -/

section Collected

variable {node : NodeId} {stat : StatId} {stage : Stage} {full : Path} {members : List ModifierId}
  {outcome : List (Option Value) → Option Value}
  (plan : graph.planOf (.pipeline stat stage full) =
    (Plan.gather Plan.contribution members).bind fun values =>
      .degrade (.pipeline stat stage full.id)
        (.consult stat stage full.id (Transform.planAll (outcome values))))
include plan

/-- Without behaviors, the plan of the stage ends with what follows from the contributions. -/
theorem run_collected {levels : Nat} {values : List (Option Value)} {frame after : Frame}
    (supplies : (Plan.gather Plan.contribution members).run (Frame.interpreter (evaluate levels))
      frame = some (.ok values, after))
    (bare : after.graph.transformsFor stat stage full.id = []) :
    Runs (graph.planOf (.pipeline stat stage full)) frame (.ok (outcome values)) after := by
  refine run_sound (fun _ _ _ _ => evaluate_sound) (?_ :
    Plan.run (Frame.interpreter (evaluate levels)) _ frame = _)
  rw [plan, Plan.run_bind, supplies]
  simp only [Plan.degrade, Plan.attempt, Plan.bind, Plan.run, Frame.interpreter, bare]
  rfl

/-- What is cached of the stage is what follows from the contributions. -/
theorem yields_collected (bare : graph.transformsFor stat stage full.id = []) {value : Option Value}
    {reads : List NodeId}
    (yields : (graph.planOf (.pipeline stat stage full)).Yields graph value reads) :
    value = outcome (members.map graph.contributed) ∧
      ∀ member ∈ members, graph.Contributes member := by
  rw [plan] at yields
  obtain ⟨values, _, _, gathered, degraded, _⟩ := Plan.Yields.of_bind yields
  obtain ⟨rfl, contribute⟩ := contributed_of_yields gathered
  refine ⟨?_, contribute⟩
  cases degraded with
  | consult rest =>
    rw [bare] at rest
    cases rest
    rfl

theorem valueOf_collected (resting : graph.Resting vocabulary) (mustered : graph.Mustered)
    (found : graph.addressOf? node = some (.pipeline stat stage full))
    (collects : stage.form?.isSome = true) {levels : Nat} {values : List (Option Value)}
    {after : Frame}
    (supplies : (Plan.gather Plan.contribution members).run (Frame.interpreter (evaluate levels))
      { graph := graph.enter node } = some (.ok values, after))
    (bare : after.graph.transformsFor stat stage full.id = []) :
    (graph.valueOf node).1 = .ok (outcome values) := by
  have entered : (graph.enter node).planOf (.pipeline stat stage full) =
      graph.planOf (.pipeline stat stage full) := congrFun (planOf_of_shape (shape_enter graph node)) _
  have inForce : (graph.enter node).transformsOf = graph.transformsOf :=
    transformsOf_of_shape (shape_enter graph node)
  have runs := run_collected plan supplies bare
  have evaluates := evaluates_valueOf resting node
  obtain ⟨present, here, same⟩ := Option.map_eq_some_iff.mp found
  rw [← same] at entered
  cases cache : present.cache with
  | computing =>
      have running := (resting.stacked.computing node).mp ⟨present, here, cache⟩
      rw [resting.idle] at running
      exact absurd running List.not_mem_nil
  | stale =>
      have calculated : Evaluates node graph (.ok (outcome values)) _ :=
        .calculated here cache (entered.symm ▸ same.symm ▸ runs)
      exact (Prod.mk.inj (evaluates.unique calculated)).1
  | ready value =>
      -- the same calculation, had the value not been cached, would find all contributions cached
      have begun : (graph.enter node).transformsOf (.pipeline stat stage full) = [] :=
        bare_of_runs runs bare
      have still : graph.transformsOf (.pipeline stat stage full) = [] := inForce ▸ begun
      have known : graph.known node = some value := known_eq_some_iff.mpr ⟨present, here, cache⟩
      obtain ⟨address, reads, place, yields, _⟩ := mustered node value _ known found collects (by
        rw [still]
        exact fun _ none => absurd none List.not_mem_nil)
      rw [found] at place
      cases place
      obtain ⟨rfl, contribute⟩ := yields_collected plan still yields
      obtain ⟨others, ran⟩ := run_contributed_enter resting.formed found contribute
      have again := run_collected plan ran begun
      have cached := (Prod.mk.inj (evaluates.unique (.cached here cache))).1
      have agree := (Prod.mk.inj (runs.unique again)).1
      rw [cached, agree]

end Collected

/-- In the course of the calculation of the stage that collects the modifiers of a form for a stat on
a path, each modifier contributes what `contribution` says, and none fails. In the end the graph is
`after`. -/
def Supplies (graph : Graph) (stat : Stat) (form : Form) (path : Path)
    (contribution : ModifierId → Option Value) (after : Graph) : Prop :=
  ∃ node grown levels reads, graph.obtain? stat form.stage path = (.ok node, grown) ∧
    (graph.contributionsTo stat.id form (path.at form.stage).id).run
        (Frame.interpreter (evaluate levels)) { graph := grown.enter node } =
      some (.ok ((graph.members stat.id form (path.at form.stage).id).map contribution),
        { graph := after, reads })

/-- What modifiers contribute can be computed, and so can which behaviors are then in force. -/
theorem supplies_of_run {stat : Stat} (resolved : stat.isResolved = true) {form : Form} {path : Path}
    {contribution : ModifierId → Option Value} (levels : Nat)
    (computed : ((graph.contributionsTo stat.id form (path.at form.stage).id).run
        (Frame.interpreter (evaluate levels))
        { graph :=
          (graph.obtain stat form.stage path).2.enter (graph.obtain stat form.stage path).1 }).map
          (fun outcome => (outcome.1,
            (outcome.2.graph.transformsFor stat.id form.stage (path.at form.stage).id).isEmpty)) =
      some (.ok ((graph.members stat.id form (path.at form.stage).id).map contribution), true)) :
    ∃ after, graph.Supplies stat form path contribution after ∧
      after.transformsFor stat.id form.stage (path.at form.stage).id = [] := by
  obtain ⟨⟨_, after⟩, ran, same⟩ := Option.map_eq_some_iff.mp computed
  obtain ⟨rfl, bare⟩ := Prod.mk.inj same
  refine ⟨after.graph, ⟨_, _, levels, after.reads, ?_, ran⟩, List.isEmpty_iff.mp bare⟩
  rw [obtain?, if_pos resolved]

/-- Unless behaviors are in force for it, a stage comes to what follows from the contributions. -/
theorem Supplies.read {stat : Stat} {form : Form} {path : Path}
    {contribution : ModifierId → Option Value} {after : Graph}
    (supplies : graph.Supplies stat form path contribution after) (resting : graph.Resting vocabulary)
    (mustered : graph.Mustered) (within : stat.HeadWithin vocabulary) (route : path.Within vocabulary)
    (bare : after.transformsFor stat.id form.stage (path.at form.stage).id = [])
    {outcome : List (Option Value) → Option Value}
    (stages : ∀ (other : Graph) (kept : Stat) (full : Path), graph.Grows other →
      kept.id = stat.id → full.id = (path.at form.stage).id →
        other.stagePlan kept form.stage full =
          (Plan.gather Plan.contribution (graph.members stat.id form (path.at form.stage).id)).bind
            fun values => .finish (.ok (outcome values))) :
    (graph.perform (.read stat form.stage path)).1 =
      .ok (outcome ((graph.members stat.id form (path.at form.stage).id).map contribution)) := by
  obtain ⟨node, grown, levels, reads, obtained, ran⟩ := supplies
  have resolved : stat.isResolved = true := by
    by_contra unresolved
    rw [obtain?, if_neg unresolved] at obtained
    cases obtained
  have steps : Steps vocabulary graph (graph.obtain stat form.stage path).2 :=
    steps_obtain resting.formed resting.stacked resolved within route
  have listed : (graph.obtain stat form.stage path).2.node? stat.id form.stage path.id =
      some (graph.obtain stat form.stage path).1 :=
    node?_obtain resting.formed resting.stacked resolved within route
  have located : graph.locate (.node stat form.stage path) = (.ok node, grown) := by
    rw [locate, obtained]
  rw [obtain?, if_pos resolved] at obtained
  cases obtained
  have rested := resting.advance steps.advances
  obtain ⟨full, found, place⟩ := rested.formed.address_of_node? listed
  rw [← PathOf.id_at] at place
  obtain ⟨pipeline, here, _⟩ := rested.formed.named _ _ _ _ found
  have keyed := (rested.formed.pipelines _ pipeline here).keyed
  have collects : form.stage.form?.isSome = true := by cases form <;> rfl
  have plan : (graph.obtain stat form.stage path).2.planOf (.pipeline stat.id form.stage full) =
      (Plan.gather Plan.contribution (graph.members stat.id form (path.at form.stage).id)).bind
        fun values => .degrade (.pipeline stat.id form.stage full.id)
          (.consult stat.id form.stage full.id (Transform.planAll (outcome values))) := by
    rw [planOf_pipeline here, stages _ _ full steps.advances.grows keyed place, Plan.bind_assoc]
    rfl
  have replied := valueOf_collected plan rested
    (upheld_mustered.step resting.formed steps mustered) found collects ran (place ▸ bare)
  -- a read from outside is answered what its node is calculated to be
  have asks : (Plan.read stat form.stage path).Asks (statedScope vocabulary) :=
    Plan.asks_read ⟨within, route⟩
  obtain ⟨_, runs⟩ := runs_perform resting asks
  rw [← replied]
  generalize (graph.perform (.read stat form.stage path)).1 = reply at runs
  cases runs with
  | answered refused rest => cases refused.symm.trans located
  | read there evaluates rest =>
      cases there.symm.trans located
      cases rest
      exact (Prod.mk.inj (evaluates.unique (evaluates_valueOf rested _))).1

end Graph

/-! ### After any calls -/

open CharacterSheet.Graph

theorem Sheet.mustered_run (settings : Settings) (retention : Retention)
    (operations : List Operation) :
    let graph := (Sheet.run { settings, retention } operations).graph
    graph.Intact .everything ∧ graph.Enrolled (operations.foldl Operation.roll []) ∧
      graph.Mustered := by
  exact ⟨Sheet.intact_everything settings retention operations,
    Sheet.enrolled_everything settings retention operations,
    (lasting_mustered Vocabulary.closed_everything).run Vocabulary.closed_everything .initial .initial
      .initial (Operation.all_within_everything operations)⟩

end CharacterSheet
