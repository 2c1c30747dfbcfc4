import CharacterSheet.Proofs.History.Annals

/-!
Contract: behaviors are in force exactly while their stat has a pipeline.

Owns:
- the census of a run: which pipelines were made and not removed since, in the order of their making;
- graphs in which the behaviors in force are those of the stats with a pipeline;
- heralds: wherever the transforms in force for a node change, that node and all that read it, directly
  or not, lose their values and wait to be announced;
- in every run the behaviors in force are those of the census, and every change of them is heralded.

A stat counts as it was when its pipeline was made. If it comes back with other behaviors after its
pipeline was removed, these count from then on, and they come last.
-/

namespace CharacterSheet

/-! ### The census -/

/-- Stats with a pipeline, in the order in which these were made. -/
abbrev Census := List (StatId × Stat)

namespace Census

/-- Take in an event. -/
def note (census : Census) : Event → Census
  | .opened stat _ => census ++ [(stat.id, stat)]
  | .closed stat _ => census.filter (·.1 ≠ stat)
  | _ => census

/-- The stats whose pipelines were made in the course of some events and not removed since. -/
def of (events : List Event) : Census := events.foldl note []

/-- The behaviors that some stats carry; a stat without behaviors has no entry. -/
def behaviors (census : Census) : List (StatId × List Behavior) :=
  (census.filter fun carrier => !carrier.2.behaviors.isEmpty).map fun carrier =>
    (carrier.1, carrier.2.behaviors)

/-- The transforms of all behaviors of some stats that apply to a stage of a stat on a path. -/
def transformsFor (census : Census) (stat : StatId) (stage : Stage) (path : PathId) :
    List Transform :=
  (census.flatMap fun carrier => carrier.2.behaviors.filter (·.appliesTo stat stage path)).map
    (·.transform)

variable {census : Census}

/-- The stats of a census have the behaviors of their entries. -/
theorem flatMap_behaviors (census : Census) (stat : StatId) (stage : Stage) (path : PathId) :
    (census.behaviors.flatMap fun entry =>
      (entry.2.filter (·.appliesTo stat stage path)).map (·.transform)) =
        census.transformsFor stat stage path := by
  rw [Census.behaviors, List.flatMap_map, transformsFor, List.map_flatMap]
  refine Graph.flatMap_filter fun carrier _ idle => ?_
  have none : carrier.2.behaviors = [] := by simpa using idle
  simp [none]

end Census

namespace Graph

variable {graph other : Graph}

/-! ### Behaviors in force -/

/-- The behaviors in force are those of the stats with a pipeline, in the order in which these were
made. -/
def Enforces (graph : Graph) (census : Census) : Prop :=
  graph.carriers = census ∧ graph.behaviors.entries = census.behaviors

variable {census : Census}

theorem Enforces.same (enforces : graph.Enforces census) (same : graph.SameForce other) :
    other.Enforces census :=
  ⟨same.carriers.trans enforces.1, (congrArg Table.entries same.behaviors).trans enforces.2⟩

/-- The transforms in force for a stage are those of the present stats. -/
theorem Enforces.transformsFor (enforces : graph.Enforces census) (stat : StatId) (stage : Stage)
    (path : PathId) : graph.transformsFor stat stage path = census.transformsFor stat stage path := by
  rw [transformsFor_eq, enforces.2, Census.flatMap_behaviors]

theorem keys_carriers (graph : Graph) : graph.carriers.map Prod.fst = graph.pipelines.keys := by
  simp [carriers, Table.keys, Function.comp_def]

/-- A stat without a pipeline has no behaviors in force. -/
theorem Enforces.unforced (enforces : graph.Enforces census) {stat : StatId}
    (missing : graph.pipelines.get? stat = none) : graph.behaviors.get? stat = none := by
  cases force : graph.behaviors.get? stat with
  | none => rfl
  | some behaviors =>
      have listed := (Table.get?_eq_some_iff _ _ _).mp force
      rw [enforces.2, Census.behaviors] at listed
      obtain ⟨carrier, member, same⟩ := List.mem_map.mp listed
      have key : stat ∈ graph.pipelines.keys := by
        rw [← keys_carriers, enforces.1]
        exact List.mem_map.mpr ⟨carrier, List.mem_of_mem_filter member, congrArg Prod.fst same⟩
      rw [Table.mem_keys_iff, missing] at key
      contradiction

/-! ### Pipelines that are made -/

theorem carriers_openPipeline {stat : Stat} (missing : graph.pipelines.get? stat.id = none) :
    (graph.openPipeline stat).carriers = graph.carriers ++ [(stat.id, stat)] := by
  simp [carriers, openPipeline, Table.entries_insert_of_absent missing]

/-- When a missing pipeline is made, the behaviors of its stat come into force behind all others, and
the nodes that they apply to are invalidated. -/
theorem ensurePipeline_cases {stat : Stat} (enforces : graph.Enforces census)
    (missing : graph.pipelines.get? stat.id = none) :
    stat.behaviors = [] ∧ graph.ensurePipeline stat = graph.openPipeline stat ∨
      stat.behaviors ≠ [] ∧
        graph.ensurePipeline stat = (graph.openPipeline stat).enforce stat.id stat.behaviors := by
  have unforced := enforces.unforced missing
  rw [ensurePipeline_eq, if_neg (by simp [Table.contains, missing])]
  by_cases idle : stat.behaviors = []
  · exact .inl ⟨idle, by simp [idle]⟩
  · exact .inr ⟨idle, by simp [idle, Table.contains, unforced]⟩

theorem enforces_ensurePipeline {stat : Stat} (enforces : graph.Enforces census)
    (missing : graph.pipelines.get? stat.id = none) :
    (graph.ensurePipeline stat).Enforces (census ++ [(stat.id, stat)]) := by
  have opened := carriers_openPipeline missing
  rw [enforces.1] at opened
  rcases ensurePipeline_cases enforces missing with ⟨idle, same⟩ | ⟨active, same⟩ <;> rw [same]
  · refine ⟨opened, enforces.2.trans ?_⟩
    simp [Census.behaviors, idle]
  · have comes : Enforces ({ graph.openPipeline stat with
        behaviors := graph.behaviors.insert stat.id stat.behaviors }.record
          (.behaviorsRegistered stat.id stat.behaviors.length)) (census ++ [(stat.id, stat)]) := by
      refine ⟨opened, ?_⟩
      simp only [record, Table.entries_insert_of_absent (enforces.unforced missing), enforces.2]
      simp [Census.behaviors, active]
    exact comes.same (sameForce_invalidateAll _ _)

/-! ### Pipelines that are removed -/

theorem carriers_close (graph : Graph) (stat : StatId) :
    (graph.close stat).carriers = graph.carriers.filter (·.1 ≠ stat) := by
  simp [carriers, close, Table.erase, Table.eraseWhere, List.filter_map, Function.comp_def]

/-- When a pipeline is removed, the behaviors of its stat are lifted, and the nodes that they applied
to are invalidated. -/
theorem removePipeline_cases {stat : StatId} {pipeline : Pipeline} (enforces : graph.Enforces census)
    (here : graph.pipelines.get? stat = some pipeline) :
    graph.behaviors.get? stat = none ∧ graph.removePipeline stat = graph.close stat ∨
      ∃ behaviors, graph.behaviors.get? stat = some behaviors ∧ graph.removePipeline stat =
        (((graph.close stat).lift stat).record
          (.behaviorsUnregistered stat behaviors.length)).invalidateTargets behaviors := by
  have present : graph.pipelines.contains stat = true := by simp [Table.contains, here]
  rw [removePipeline_eq, if_pos present]
  cases force : graph.behaviors.get? stat with
  | none => exact .inl ⟨rfl, rfl⟩
  | some behaviors =>
      have listed := (Table.get?_eq_some_iff _ _ _).mp force
      rw [enforces.2, Census.behaviors] at listed
      obtain ⟨carrier, member, same⟩ := List.mem_map.mp listed
      have active : behaviors.isEmpty = false := by
        have active := (List.mem_filter.mp member).2
        cases same
        simpa using active
      exact .inr ⟨behaviors, rfl, by simp [active]⟩

theorem enforces_removePipeline {stat : StatId} {pipeline : Pipeline}
    (enforces : graph.Enforces census) (here : graph.pipelines.get? stat = some pipeline) :
    (graph.removePipeline stat).Enforces (census.filter (·.1 ≠ stat)) := by
  have closed := graph.carriers_close stat
  rw [enforces.1] at closed
  have remaining : Census.behaviors (census.filter (·.1 ≠ stat)) =
      census.behaviors.filter (·.1 ≠ stat) := by
    simp only [Census.behaviors, List.filter_map, List.filter_filter, Function.comp_def]
    congr 2
    funext carrier
    exact Bool.and_comm _ _
  rcases removePipeline_cases enforces here with ⟨unforced, same⟩ | ⟨behaviors, _, same⟩ <;> rw [same]
  · refine ⟨closed, ?_⟩
    show graph.behaviors.entries = _
    rw [remaining, ← enforces.2, List.filter_eq_self.mpr]
    rintro ⟨carrier, behaviors⟩ member
    have listed := (Table.get?_eq_some_iff _ _ _).mpr member
    simp only [ne_eq, decide_not, Bool.not_eq_true', decide_eq_false_iff_not]
    rintro rfl
    rw [unforced] at listed
    contradiction
  · have goes : Enforces (((graph.close stat).lift stat).record
        (.behaviorsUnregistered stat behaviors.length)) (census.filter (·.1 ≠ stat)) := by
      refine ⟨closed, ?_⟩
      rw [remaining, ← enforces.2]
      simp [record, lift, close, Table.erase, Table.eraseWhere]
    exact goes.same (sameForce_invalidateAll _ _)

/-! ### Heralds -/

/-- Wherever the transforms in force for an existing node change, the node and all that depends on it
along recorded reads are without a value afterwards and wait to be announced. -/
def Heralds (graph other : Graph) : Prop :=
  ∀ node stat stage path, other.nameOf? node = some (.pipeline stat stage path) →
    other.transformsFor stat stage path ≠ graph.transformsFor stat stage path →
      ∀ reached, other.Reaches node reached →
        other.known reached = none ∧ reached ∈ other.pending.nodes

theorem Heralds.of_same (same : other.behaviors = graph.behaviors) : graph.Heralds other := by
  intro _ stat stage path _ differ
  rw [transformsFor_eq, transformsFor_eq, same] at differ
  exact absurd rfl differ

/-- A named node is listed by the pipeline of its stat. -/
theorem listed_of_named (formed : graph.WellFormed .everything) {node : NodeId} {stat : StatId}
    {stage : Stage} {path : PathId} (named : graph.nameOf? node = some (.pipeline stat stage path)) :
    ∃ pipeline, graph.pipelines.get? stat = some pipeline ∧
      pipeline.nodes.get? (stage, path) = some node := by
  obtain ⟨present, found, name⟩ := Option.map_eq_some_iff.mp named
  have address : graph.addressOf? node = some present.address := congrArg (Option.map _) found
  generalize present.address = own at address name
  cases own with
  | contribution modifier => cases name
  | pipeline stat stage full =>
      cases name
      exact formed.named node stat stage full address

/-- The invalidation of what some behaviors apply to heralds every change that they make, if all nodes
are where they were. -/
theorem heralds_invalidateTargets {ready : Graph} {behaviors : List Behavior}
    (formed : graph.WellFormed .everything) (nodes : ready.nodes = graph.nodes)
    (lists : ∀ stat pipeline key node, graph.pipelines.get? stat = some pipeline →
      pipeline.nodes.get? key = some node → ready.pipelines.get? stat = some pipeline)
    (applies : ∀ stat stage path, (ready.invalidateTargets behaviors).transformsFor stat stage path ≠
      graph.transformsFor stat stage path → behaviors.filter (·.appliesTo stat stage path) ≠ []) :
    graph.Heralds (ready.invalidateTargets behaviors) := by
  intro node stat stage path named differ reached reaches
  rw [invalidateTargets_eq] at named reaches ⊢
  have fades := ready.fades_invalidateAll (behaviors.flatMap ready.behaviorTargets)
  have before : graph.nameOf? node = some (.pipeline stat stage path) := by
    have address : _ = ready.addressOf? node := congrFun (congrArg Shape.address? fades.shape) node
    have name (graph : Graph) : graph.nameOf? node = (graph.addressOf? node).map (·.name) := by
      simp [nameOf?, addressOf?, Function.comp_def]
    rw [name] at named ⊢
    rw [← named]
    simp only [addressOf?, ← nodes]
    exact congrArg (Option.map (·.name)) address.symm
  obtain ⟨pipeline, here, listed⟩ := listed_of_named formed before
  obtain ⟨present, found, _⟩ := Option.map_eq_some_iff.mp before
  obtain ⟨behavior, member⟩ := List.exists_mem_of_ne_nil _ (applies stat stage path differ)
  obtain ⟨carried, matching⟩ := List.mem_filter.mp member
  have targeted : node ∈ behaviors.flatMap ready.behaviorTargets :=
    List.mem_flatMap.mpr ⟨behavior, carried, mem_behaviorTargets_iff.mpr
      ⟨stat, pipeline, stage, path, lists stat pipeline _ node here listed, listed, matching⟩⟩
  rw [fades.reaches] at reaches
  have affected : reached ∈ ready.dependents (behaviors.flatMap ready.behaviorTargets) :=
    (mem_dependents_iff _ _ _).mpr
      ⟨node, targeted, Table.contains_iff.mpr ⟨present, nodes ▸ found⟩, reaches⟩
  exact ⟨fades.known_dropped affected, (pending_invalidateAll _ _ _).mpr (.inr affected)⟩

/-- Behaviors that come into force are heralded. -/
theorem heralds_ensurePipeline (formed : graph.WellFormed .everything) {stat : Stat}
    (enforces : graph.Enforces census) (missing : graph.pipelines.get? stat.id = none) :
    graph.Heralds (graph.ensurePipeline stat) := by
  have later := enforces_ensurePipeline enforces missing
  rcases ensurePipeline_cases enforces missing with ⟨_, same⟩ | ⟨_, same⟩ <;> rw [same] at later ⊢
  · exact .of_same rfl
  refine heralds_invalidateTargets formed rfl ?_ ?_
  · intro own pipeline key node here _
    refine (Table.get?_insert_other _ ?_ _).trans here
    rintro rfl
    rw [missing] at here
    contradiction
  · intro own stage path differ none
    apply differ
    refine (later.transformsFor own stage path).trans ?_
    rw [enforces.transformsFor]
    simp [Census.transformsFor, none]

/-- Behaviors that are lifted are heralded. -/
theorem heralds_removePipeline (formed : graph.WellFormed .everything) {stat : StatId}
    {pipeline : Pipeline} (enforces : graph.Enforces census)
    (here : graph.pipelines.get? stat = some pipeline) (empty : pipeline.isEmpty = true) :
    graph.Heralds (graph.removePipeline stat) := by
  rcases removePipeline_cases enforces here with ⟨_, same⟩ | ⟨behaviors, force, same⟩ <;> rw [same]
  · exact .of_same rfl
  refine heralds_invalidateTargets formed rfl ?_ ?_
  · intro own other key node there listed
    refine (pipelines_close graph stat own).trans ((if_neg ?_).trans there)
    rintro rfl
    cases here.symm.trans there
    rw [Pipeline.isEmpty, Bool.and_eq_true] at empty
    rw [entries_eq_nil empty.1] at listed
    contradiction
  · intro own stage path differ none
    apply differ
    rw [transformsFor_eq, transformsFor_eq, invalidateTargets_eq,
      (sameForce_invalidateAll _ _).behaviors]
    refine flatMap_filter ?_
    rintro ⟨carrier, carried⟩ member dropped
    have gone : carrier = stat := by simpa using dropped
    have listed : graph.behaviors.get? carrier = some carried :=
      (Table.get?_eq_some_iff _ _ _).mpr member
    rw [gone, force] at listed
    cases listed
    simp [none]

/-! ### Runs -/

/-- What an event does to the behaviors in force is what the census takes in, and it is heralded. -/
theorem enforces_after {event : Event} (proper : event.Proper)
    (enforces : event.graph.Enforces census) :
    event.after.Enforces (census.note event) ∧ event.graph.Heralds event.after := by
  cases event with
  | opened stat graph =>
      exact ⟨enforces_ensurePipeline enforces proper.fits,
        heralds_ensurePipeline proper.formed enforces proper.fits⟩
  | closed stat graph =>
      obtain ⟨pipeline, here, empty⟩ := proper.fits
      exact ⟨enforces_removePipeline enforces here,
        heralds_removePipeline proper.formed enforces here empty⟩
  | look graph | calculated node readings reply graph | read node graph | flushed wanted graph =>
      exact ⟨enforces, .of_same rfl⟩

/-- The census of what happens is kept by the graph to which it leads. -/
theorem Unfolds.enforces {events : List Event} (unfolds : graph.Unfolds events other)
    (enforces : graph.Enforces census) : other.Enforces (events.foldl Census.note census) := by
  induction events generalizing graph census with
  | nil => exact enforces.same unfolds
  | cons event rest inductionHypothesis =>
      obtain ⟨same, proper, later⟩ := unfolds
      exact inductionHypothesis later (enforces_after proper (enforces.same same)).1

end Graph

open CharacterSheet.Graph

/-- In the chronicle of every run, be it between two operations or in the middle of a calculation, the
behaviors in force are those of the stats whose pipelines were made and not removed since, each as it
was when its pipeline was made, in the order in which they were made; so the transforms in force for
a stage are those of the present stats whose rules match it, in this order. Whenever the transforms
for an existing node change, the node and all that depends on it are without a value right afterwards
and wait to be announced; between two events nothing comes into force and nothing is lifted. -/
theorem behaviors_follow_pipelines (settings : Settings) (retention : Retention)
    (operations : List Operation) :
    let chronicle := Sheet.chronicle { settings, retention } operations
    (Sheet.run { settings, retention } operations).graph.Enforces (Census.of chronicle) ∧
      ∀ earlier event later, chronicle = earlier ++ event :: later →
        event.graph.Enforces (Census.of earlier) ∧
          (∀ stat stage path, event.graph.transformsFor stat stage path =
            (Census.of earlier).transformsFor stat stage path) ∧
          event.graph.Heralds event.after ∧
          ∀ next rest, later = next :: rest → event.after.SameForce next.graph := by
  intro chronicle
  have unfolds : ({} : Graph).Unfolds chronicle (Sheet.run { settings, retention } operations).graph :=
    @Sheet.unfolds_chronicle { settings, retention } .initial operations
  have begins : ({} : Graph).Enforces [] := ⟨rfl, rfl⟩
  refine ⟨unfolds.enforces begins, fun earlier event later split => ?_⟩
  obtain ⟨before, proper, after⟩ := (split ▸ unfolds).cut
  have enforces := before.enforces begins
  refine ⟨enforces, enforces.transformsFor, (enforces_after proper enforces).2, ?_⟩
  rintro next rest rfl
  exact after.1

/-- A list is what comes before one of its items, the item, and what comes after it. -/
theorem split_of_getElem? {α : Type} {items : List α} {index : Nat} {item : α}
    (found : items[index]? = some item) :
    items = items.take index ++ item :: items.drop (index + 1) := by
  obtain ⟨inside, rfl⟩ := List.getElem?_eq_some_iff.mp found
  rw [List.getElem_cons_drop inside, List.take_append_drop]

/-- The total of a stat is watched while another stat, which sets it, comes and goes. -/
def visitingAura : List Operation :=
  [.add (.baseAdd ⟨1⟩ (.named "Power") 5), .subscribe (.named "Power") .total .main [],
    .subscribeRoster aura .baseAdd .main, .unsubscribe ⟨2⟩, .beginBatch, .endBatch]

/-- When the other stat comes, a transform comes into force for the total, which loses its value and
waits to be announced. -/
theorem visitingAura_heralded :
    let chronicle := Sheet.chronicle {} visitingAura
    ∃ event, chronicle[49]? = some event ∧
      (Census.of (chronicle.take 49)).map (·.1.name) = ["Power"] ∧
      (Census.of chronicle).map (·.1.name) = ["Power"] ∧
      event.graph.transformsFor (Stat.named "Power").id .total .main = [] ∧
      event.after.transformsFor (Stat.named "Power").id .total .main ≠ [] ∧
      event.after.known ⟨7⟩ = none ∧ ⟨7⟩ ∈ event.after.pending.nodes := by
  intro chronicle
  obtain ⟨event, found⟩ : ∃ event, chronicle[49]? = some event :=
    Option.isSome_iff_exists.mp (by decide +kernel)
  have facts : chronicle[49]?.map (fun event =>
      ((event.graph.transformsFor (Stat.named "Power").id .total .main).length,
        (event.after.transformsFor (Stat.named "Power").id .total .main).length,
        event.after.nameOf? ⟨7⟩)) =
      some (0, 1, some (.pipeline (Stat.named "Power").id .total .main)) := by decide +kernel
  have earlier : (Census.of (chronicle.take 49)).map (·.1.name) = ["Power"] := by decide +kernel
  have whole : (Census.of chronicle).map (·.1.name) = ["Power"] := by decide +kernel
  obtain ⟨-, -, heralds, -⟩ := (behaviors_follow_pipelines {} {} visitingAura).2 _ _ _
    (split_of_getElem? found)
  clear_value chronicle
  rw [found, Option.map_some, Option.some.injEq, Prod.mk.injEq, Prod.mk.injEq] at facts
  obtain ⟨idle, active, named⟩ := facts
  have before := List.length_eq_zero_iff.mp idle
  have after := List.ne_nil_of_length_eq_add_one active
  exact ⟨event, found, earlier, whole, before, after,
    heralds ⟨7⟩ _ _ _ named (before ▸ after) ⟨7⟩ .refl⟩

end CharacterSheet
