import CharacterSheet.Proofs.Change.Courses

/-!
Contract: what stays the same while modifiers neither come nor go.

Owns:
- graphs that tally: the same modifiers in the same rosters, and the same links and paths;
- the numbers of memberships that pipelines keep, and when they are right;
- every move leads to a graph that tallies with the one before, with the same filled rosters in the
  same order, and keeps these numbers right.
-/

namespace CharacterSheet
namespace Graph

variable {vocabulary : Vocabulary} {graph middle other : Graph} {stat : Stat}

/-! ### Graphs that tally -/

/-- The same modifiers are in the same rosters, and the same stats are linked. -/
structure Tallies (graph other : Graph) : Prop where
  modifiers : other.modifiers = graph.modifiers
  members : ∀ stat form path, other.members stat form path = graph.members stat form path
  paths : ∀ stat, other.paths stat = graph.paths stat
  links : other.links = graph.links

namespace Tallies

theorem refl (graph : Graph) : graph.Tallies graph := ⟨rfl, fun _ _ _ => rfl, fun _ => rfl, rfl⟩

theorem symm (tallies : graph.Tallies other) : other.Tallies graph where
  modifiers := tallies.modifiers.symm
  members := fun stat form path => (tallies.members stat form path).symm
  paths := fun stat => (tallies.paths stat).symm
  links := tallies.links.symm

theorem trans (first : graph.Tallies middle) (second : middle.Tallies other) :
    graph.Tallies other where
  modifiers := second.modifiers.trans first.modifiers
  members := fun stat form path =>
    (second.members stat form path).trans (first.members stat form path)
  paths := fun stat => (second.paths stat).trans (first.paths stat)
  links := second.links.trans first.links

/-- Only pipelines, modifiers and links matter. -/
theorem of_same (pipelines : other.pipelines = graph.pipelines)
    (modifiers : other.modifiers = graph.modifiers) (links : other.links = graph.links) :
    graph.Tallies other where
  modifiers := modifiers
  members := fun stat form path => by rw [Graph.members, Graph.members, pipelines]
  paths := fun stat => by rw [Graph.paths, Graph.paths, pipelines, links]
  links := links

theorem of_extends (larger : graph.Extends other) : graph.Tallies other :=
  ⟨larger.modifiers, larger.members, larger.paths, larger.links⟩

end Tallies

/-! ### Rosters in their order -/

/-- The rosters of a stat in the order in which they were made. -/
def rostersOf (graph : Graph) (stat : StatId) : List ((Form × PathId) × Slot) :=
  (graph.pipelines.get? stat).elim [] (·.slots.entries)

theorem filled_eq (graph : Graph) (stat : StatId) : graph.filled stat =
    (graph.rostersOf stat).filterMap fun entry =>
      if entry.2.roster.members.isEmpty then none
      else some (entry.2.path, entry.2.roster.members) := by
  rw [filled, rostersOf]
  cases graph.pipelines.get? stat <;> rfl

theorem Extends.rostersOf (larger : graph.Extends other) (stat : StatId) :
    other.rostersOf stat = graph.rostersOf stat := by
  unfold Graph.rostersOf
  cases found : graph.pipelines.get? stat with
  | some pipeline =>
      obtain ⟨nodes, later, _⟩ := larger.pipelines stat pipeline found
      rw [later]
      rfl
  | none =>
      cases later : other.pipelines.get? stat with
      | none => rfl
      | some pipeline =>
          rw [Option.elim_some, (larger.opened stat pipeline later found).1]
          rfl

theorem Discards.rostersOf {gone : NodeId → Prop} (discards : graph.Discards other gone)
    (stat : StatId) : other.rostersOf stat = graph.rostersOf stat := by
  unfold Graph.rostersOf
  cases here : graph.pipelines.get? stat with
  | none => rw [discards.missing stat here]
  | some pipeline =>
      obtain ⟨nodes, later, _⟩ := discards.pipelines stat pipeline here
      rw [later]
      rfl

/-! ### Numbers of memberships -/

/-- Each pipeline knows how many members its rosters have. -/
def Counted (graph : Graph) : Prop :=
  ∀ stat pipeline, graph.pipelines.get? stat = some pipeline →
    pipeline.memberships = pipeline.enrollment

/-- Only pipelines matter. -/
theorem Counted.of_pipelines (counted : graph.Counted) (pipelines : other.pipelines = graph.pipelines) :
    other.Counted :=
  fun stat pipeline here => counted stat pipeline (pipelines ▸ here)

/-- What happens to rosters while modifiers neither come nor go: the graphs tally, those rosters that
have members stand in the same order, and right numbers of memberships stay right. -/
structure Undisturbed (graph other : Graph) : Prop extends graph.Tallies other where
  filled : ∀ stat, other.filled stat = graph.filled stat
  counted : graph.Counted → other.Counted

namespace Undisturbed

theorem refl (graph : Graph) : graph.Undisturbed graph := ⟨.refl graph, fun _ => rfl, id⟩

theorem trans (first : graph.Undisturbed middle) (second : middle.Undisturbed other) :
    graph.Undisturbed other :=
  ⟨first.toTallies.trans second.toTallies,
    fun stat => (second.filled stat).trans (first.filled stat), second.counted ∘ first.counted⟩

theorem of_same (pipelines : other.pipelines = graph.pipelines)
    (modifiers : other.modifiers = graph.modifiers) (links : other.links = graph.links) :
    graph.Undisturbed other where
  toTallies := .of_same pipelines modifiers links
  filled := fun stat => by rw [Graph.filled, Graph.filled, pipelines]
  counted := (·.of_pipelines pipelines)

theorem of_shape (shape : other.shape = graph.shape) : graph.Undisturbed other :=
  .of_same (congrArg Shape.pipelines shape) (congrArg Shape.modifiers shape)
    (congrArg Shape.links shape)

theorem record (graph : Graph) (entry : Record) : graph.Undisturbed (graph.record entry) :=
  .of_shape (shape_record graph entry)

theorem of_extends (larger : graph.Extends other) : graph.Undisturbed other where
  toTallies := .of_extends larger
  filled := fun stat => by rw [filled_eq, filled_eq, larger.rostersOf]
  counted := by
    intro counted stat pipeline here
    cases before : graph.pipelines.get? stat with
    | none =>
        obtain ⟨slots, none⟩ := larger.opened stat pipeline here before
        rw [none, Pipeline.enrollment, slots]
        rfl
    | some old =>
        obtain ⟨nodes, later, _⟩ := larger.pipelines stat old before
        rw [later] at here
        cases here
        exact counted stat old before

theorem of_explores (intact : graph.Intact vocabulary)
    (explores : Explores vocabulary graph other) : graph.Undisturbed other :=
  .of_extends (explores.advances intact.toResting).grows.toExtends

/-- New rosters with the same members on the same paths. -/
theorem of_refit (vocabulary : Vocabulary) {stat : StatId} {slots : Pipeline → Table (Form × PathId) Slot}
    (refits : ∀ pipeline, graph.pipelines.get? stat = some pipeline →
      Refits vocabulary graph.modifiers stat pipeline (slots pipeline)) :
    graph.Undisturbed
      (graph.modifyPipeline stat fun old => { old with slots := slots old }) where
  modifiers := rfl
  members := members_refit refits
  paths := fun own => paths_of_filled (filled_refit refits own) rfl
  links := rfl
  filled := filled_refit refits
  counted := by
    intro counted own pipeline here
    replace here := (graph.pipelines.get?_modify stat own _).symm.trans here
    split at here
    · next same =>
      subst same
      rw [Option.map_eq_some_iff] at here
      obtain ⟨old, there, rfl⟩ := here
      exact (counted own old there).trans (refits old there).enrollment.symm
    · exact counted own pipeline here

end Undisturbed

theorem undisturbed_obtainWatched (intact : graph.Intact vocabulary) {stage : Stage} {path : Path}
    {reads : List Reading} (resolved : stat.isResolved = true) (within : stat.HeadWithin vocabulary)
    (route : path.Within vocabulary) :
    graph.Undisturbed (graph.obtainWatched stat stage path reads) :=
  (Undisturbed.of_explores intact (explores_obtain graph resolved stage within route)).trans
    (.of_same rfl rfl rfl)

theorem undisturbed_subscribeRoster (intact : graph.Intact vocabulary) {form : Form} {path : Path}
    (within : stat.HeadWithin vocabulary) (route : path.Within vocabulary) :
    graph.Undisturbed (graph.subscribeRoster stat form path).2 := by
  rw [subscribeRoster_eq]
  split
  · next resolved =>
    have ready := intact_ensurePipeline intact resolved within
    have opens : graph.Undisturbed (graph.ensurePipeline stat) :=
      .of_extends (advances_ensurePipeline intact.formed intact.stacked resolved within).grows.toExtends
    have numbers : (graph.ensurePipeline stat).Undisturbed ((graph.ensurePipeline stat).newSubscription
        (.slot ⟨stat.id, form, (path.at form.stage).id⟩)).2 :=
      .of_same rfl rfl rfl
    refine (opens.trans numbers).trans (.of_refit vocabulary fun pipeline here => ?_)
    exact refits_seated (ready.formed.pipelines _ pipeline here) form _ route
  · exact .refl graph

theorem undisturbed_unsubscribe (intact : graph.Intact vocabulary) (id : SubscriptionId) :
    graph.Undisturbed (graph.unsubscribe id).2 := by
  unfold unsubscribe
  split
  · exact .refl graph
  · split
    · exact .of_same rfl rfl rfl
    · next slot _ =>
      have ended : graph.Undisturbed { graph with subscriptions := graph.subscriptions.erase id } :=
        .of_same rfl rfl rfl
      refine ended.trans (.of_refit vocabulary fun pipeline here => ?_)
      exact refits_unseated (intact.formed.pipelines _ pipeline here) slot.form id slot.path

/-! ### Sweeps -/

theorem Discards.undisturbed {gone : NodeId → Prop} (discards : graph.Discards other gone) :
    graph.Undisturbed other where
  modifiers := discards.modifiers
  members := discards.members
  paths := discards.paths
  links := discards.links
  filled := fun stat => by rw [filled_eq, filled_eq, discards.rostersOf]
  counted := by
    intro counted stat pipeline here
    obtain ⟨old, before, same, _⟩ := discards.pipeline_before here
    rw [same]
    exact counted stat old before

theorem undisturbed_removeSlots (intact : graph.Intact vocabulary) {slots : List SlotId}
    (vacant : ∀ slot ∈ slots, graph.Vacant slot) :
    graph.Undisturbed (slots.foldl removeSlot graph) := by
  induction slots generalizing graph with
  | nil => exact .refl graph
  | cons slot rest inductionHypothesis =>
      have refits := (vacant slot List.mem_cons_self).refits intact.formed
      have first : graph.Undisturbed (graph.removeSlot slot) := .of_refit vocabulary refits
      refine first.trans (inductionHypothesis (Intact.refit refits intact) ?_)
      intro other member
      rw [Vacant, first.members]
      exact vacant other (List.mem_cons_of_mem slot member)

/-- An empty pipeline has no members to lose. -/
theorem undisturbed_close {stat : StatId} (hollow : graph.Hollow stat) :
    graph.Undisturbed (graph.close stat) where
  modifiers := rfl
  members := members_close hollow
  paths := fun own => paths_of_filled (filled_close hollow own) rfl
  links := rfl
  filled := filled_close hollow
  counted := by
    intro counted own pipeline here
    rw [pipelines_close] at here
    split at here
    · contradiction
    · exact counted own pipeline here

theorem undisturbed_removePipeline {stat : StatId} (hollow : graph.Hollow stat) :
    graph.Undisturbed (graph.removePipeline stat) := by
  have lifted (closed : Graph) : closed.Undisturbed (closed.lift stat) :=
    .of_same rfl rfl rfl
  rw [removePipeline_eq]
  split
  · refine (undisturbed_close hollow).trans ?_
    split
    · exact .refl _
    · refine (lifted _).trans ?_
      split
      · exact .refl _
      · exact .of_shape (shape_invalidateTargets _ _)
  · exact .refl graph

theorem undisturbed_removePipelines {stats : List StatId}
    (hollow : ∀ stat ∈ stats, graph.Hollow stat) :
    graph.Undisturbed (stats.foldl removePipeline graph) := by
  induction stats generalizing graph with
  | nil => exact .refl graph
  | cons stat rest inductionHypothesis =>
      have first := undisturbed_removePipeline (hollow stat List.mem_cons_self)
      refine first.trans (inductionHypothesis ?_)
      intro other member pipeline here
      rw [pipelines_removePipeline] at here
      split at here
      · contradiction
      · exact hollow other (List.mem_cons_of_mem stat member) pipeline here

theorem undisturbed_swept (rules : Retention) (intact : graph.Intact vocabulary) :
    graph.Undisturbed (graph.swept rules) := by
  have thins : graph.Undisturbed (graph.thinned rules) := by
    exact (discards_sweep rules intact).undisturbed.trans
      (undisturbed_removeSlots (intact_removeSwept rules intact) fun _ =>
        vacant_sweptSlots rules intact)
  have shape : (graph.relaxed rules).shape = (graph.thinned rules).shape :=
    (relaxes_relaxed rules).shape
  have relaxes : (graph.thinned rules).Undisturbed (graph.relaxed rules) :=
    .of_shape shape
  exact (thins.trans relaxes).trans
    (undisturbed_removePipelines fun _ member => hollow_removablePipelines rules member)

theorem undisturbed_sweep (rules : Retention) (intact : graph.Intact vocabulary) :
    graph.Undisturbed (graph.sweep rules).2 :=
  sweep_induction (motive := graph.Undisturbed) (.refl graph) (undisturbed_swept rules intact)
    fun middle entry before => before.trans (.record middle entry)

/-! ### Moves -/

theorem undisturbed_stir (intact : graph.Intact vocabulary) (stir : Stir vocabulary graph other) :
    graph.Undisturbed other := by
  cases stir with
  | explore explores => exact .of_explores intact explores
  | deepen depth => exact .of_same rfl rfl rfl
  | register registered => exact .of_same rfl rfl rfl
  | watch resolved within route readings =>
      exact (undisturbed_obtainWatched intact resolved within route).trans
        (.of_explores (intact_obtainWatched intact resolved within route readings)
          (explores_settleWatched intact resolved within route readings))
  | watchRoster within route => exact undisturbed_subscribeRoster intact within route
  | unwatch id => exact undisturbed_unsubscribe intact id

theorem undisturbed_move (intact : graph.Intact vocabulary) (move : Move vocabulary graph other) :
    graph.Undisturbed other := by
  cases move with
  | stir stir => exact undisturbed_stir intact stir
  | flush announceRosters => exact .of_extends (extends_flush intact announceRosters)
  | sweep rules => exact undisturbed_sweep rules intact

/-- Moves leave all rosters their members. -/
theorem Moves.undisturbed (moves : Moves vocabulary graph other)
    (intact : graph.Intact vocabulary) : graph.Undisturbed other :=
  moves.keeps intact .refl (fun _ _ _ => .trans) fun _ _ => undisturbed_move

end Graph
end CharacterSheet
