import CharacterSheet.Proofs.Membership.Dwindling

/-!
Contract: what a sweep leaves alone.

Owns:
- nodes that a change leaves exactly as they are, with the edges along which they read;
- a sweep leaves all needed nodes as they are, unless it takes a pipeline with behaviors away;
- within a catalogue no later read can tell whether a sweep was made, whatever is done in between, as
  long as no modifier is added or the paths keep the order that they would have without the sweep.
-/

namespace CharacterSheet
namespace Graph

variable {vocabulary : Vocabulary} {graph middle other : Graph}

/-! ### Nodes that stay as they are -/

/-- A node keeps its number, its place, its value and its subscribers, and has read the same. -/
structure Retains (graph other : Graph) (node : NodeId) : Prop where
  same : other.nodes.get? node = graph.nodes.get? node
  feeds : ∀ producer, other.Feeds producer node ↔ graph.Feeds producer node

theorem Retains.trans {node : NodeId} (first : graph.Retains middle node)
    (second : middle.Retains other node) : graph.Retains other node where
  same := second.same.trans first.same
  feeds := fun producer => (second.feeds producer).trans (first.feeds producer)

theorem Retains.of_same (nodes : other.nodes = graph.nodes) (edges : other.edges = graph.edges)
    (node : NodeId) : graph.Retains other node where
  same := by rw [nodes]
  feeds := fun producer => by rw [Feeds, Feeds, edges]

theorem Retains.record (graph : Graph) (entry : Record) (node : NodeId) :
    graph.Retains (graph.record entry) node := ⟨rfl, fun _ => Iff.rfl⟩

/-- Taking rosters away changes no node, and brings no pipeline. -/
theorem retains_removeSlots (graph : Graph) (slots : List SlotId) (node : NodeId) :
    graph.Retains (slots.foldl removeSlot graph) node ∧
      (slots.foldl removeSlot graph).behaviors = graph.behaviors ∧
      ∀ stat, graph.pipelines.get? stat = none →
        (slots.foldl removeSlot graph).pipelines.get? stat = none := by
  induction slots generalizing graph with
  | nil => exact ⟨.of_same rfl rfl node, rfl, fun _ missing => missing⟩
  | cons slot rest inductionHypothesis =>
      have first : graph.Retains (graph.removeSlot slot) node :=
        ⟨rfl, fun _ => Iff.rfl⟩
      obtain ⟨later, behaviors, missing⟩ := inductionHypothesis (graph.removeSlot slot)
      refine ⟨first.trans later, behaviors, fun stat none => missing stat ?_⟩
      rw [removeSlot, modifyPipeline, Table.get?_modify, none]
      split <;> rfl

/-! ### Sweeps -/

section Sweep

variable (rules : Retention) (intact : graph.Intact vocabulary)
include intact

/-- The stages that a sweep removes are not needed, and neither is what rests on them. -/
theorem retains_removeSwept {node : NodeId} (needed : graph.Needed node) :
    graph.Retains (graph.removeNodes (graph.sweptNodes rules)) node where
  same := (discards_sweep rules intact).kept node fun ⟨_, leaves, reaches⟩ =>
    (mem_sweptNodes leaves).1 (needed.reaches reaches)
  feeds := fun producer => by
    rw [(discards_sweep rules intact).feeds]
    refine ⟨And.left, fun feeds => ⟨feeds, fun leaves => ?_, fun leaves => ?_⟩⟩
    · exact (mem_sweptNodes leaves).1 (needed.producer feeds)
    · exact (mem_sweptNodes leaves).1 needed

theorem retains_relaxed {node : NodeId} (needed : graph.Needed node) :
    graph.Retains (graph.relaxed rules) node := by
  have thins : graph.Retains (graph.thinned rules) node :=
    (retains_removeSwept rules intact needed).trans (retains_removeSlots _ _ node).1
  have relaxes : (graph.thinned rules).Relaxes (graph.relaxed rules) _ := relaxes_relaxed rules
  have unaffected : node ∉ (graph.thinned rules).nodes.keys.filter
      fun node => !graph.needed.contains node := by
    intro member
    have unneeded := (List.mem_filter.mp member).2
    rw [show graph.needed.contains node = true from needed] at unneeded
    contradiction
  refine thins.trans ⟨relaxes.kept node unaffected, fun producer => ?_⟩
  exact ⟨relaxes.fewer producer node, relaxes.feeds producer node unaffected⟩

/-- Up to the last step, a sweep brings no pipeline and lifts no behaviors. -/
theorem pipelines_relaxed : (graph.relaxed rules).behaviors = graph.behaviors ∧
    ∀ stat, (graph.relaxed rules).pipelines.contains stat → graph.pipelines.contains stat := by
  have discards := discards_sweep rules intact
  have shape : (graph.relaxed rules).shape = (graph.thinned rules).shape :=
    (relaxes_relaxed rules).shape
  obtain ⟨_, behaviors, missing⟩ := retains_removeSlots
    (graph.removeNodes (graph.sweptNodes rules)) (graph.sweptSlots rules) ⟨0⟩
  refine ⟨(congrArg Shape.behaviors shape).trans (behaviors.trans discards.behaviors), ?_⟩
  intro stat present
  by_contra absent
  have none : graph.pipelines.get? stat = none := by
    simpa [Table.contains] using absent
  have same : (graph.relaxed rules).pipelines = (graph.thinned rules).pipelines :=
    congrArg Shape.pipelines shape
  rw [Table.contains, same, thinned, missing stat (discards.missing stat none)] at present
  contradiction

/-- A sweep leaves needed nodes as they are if the pipelines that it takes away have no behaviors. -/
theorem retains_swept_of_unforced
    (unforced : ∀ stat ∈ (graph.relaxed rules).removablePipelines rules,
      ((graph.relaxed rules).behaviors.get? stat).getD [] = [])
    {node : NodeId} (needed : graph.Needed node) : graph.Retains (graph.swept rules) node := by
  obtain ⟨nodes, edges, -⟩ := removePipelines_unforced unforced
  exact (retains_relaxed rules intact needed).trans (.of_same nodes edges node)

/-- A sweep leaves needed nodes as they are unless it takes a pipeline with behaviors away. -/
theorem retains_swept (unowned : ∀ stat, graph.pipelines.contains stat →
      graph.behaviors.contains stat → (graph.swept rules).pipelines.contains stat)
    {node : NodeId} (needed : graph.Needed node) : graph.Retains (graph.swept rules) node := by
  have owns (stat : StatId) (member : stat ∈ (graph.relaxed rules).removablePipelines rules) :
      (graph.relaxed rules).behaviors.get? stat = none := by
    obtain ⟨behaviors, before⟩ := pipelines_relaxed rules intact
    rw [behaviors]
    by_contra owned
    have present : graph.pipelines.contains stat := by
      obtain ⟨entry, inside, rfl⟩ := List.mem_map.mp member
      have found := (Table.get?_eq_some_iff _ entry.1 entry.2).mpr (List.mem_of_mem_filter inside)
      exact before entry.1 (by rw [Table.contains, found]; rfl)
    have kept := unowned stat present (Option.isSome_iff_ne_none.mpr owned)
    rw [Table.contains, swept, pipelines_removePipelines, if_pos member] at kept
    contradiction
  exact retains_swept_of_unforced rules intact
    (fun stat member => by rw [owns stat member, Option.getD_none]) needed

/-- Before its report is noted, and if it is not refused, a sweep leads to the swept graph. -/
theorem retains_sweep (unowned : ∀ stat, graph.pipelines.contains stat →
      graph.behaviors.contains stat → (graph.sweep rules).2.pipelines.contains stat)
    {node : NodeId} (needed : graph.Needed node) : graph.Retains (graph.sweep rules).2 node := by
  rcases graph.sweep_cases rules with same | same | ⟨entry, same⟩ <;> rw [same] at unowned ⊢
  · exact .of_same rfl rfl node
  · exact retains_swept rules intact unowned needed
  · have pipelines : ((graph.swept rules).record entry).pipelines = (graph.swept rules).pipelines :=
      congrArg Shape.pipelines (shape_record _ entry)
    rw [pipelines] at unowned
    exact (retains_swept rules intact unowned needed).trans (.record _ entry node)

end Sweep

end Graph

open CharacterSheet.Graph

/-! ### Reads after a sweep -/

section Reads

variable {catalogue : StatId → Stat} {sheet : Sheet} (rules : Retention)
  (intact : sheet.graph.Intact (.catalogued catalogue)) {later : List Operation}
  (inside : ∀ operation ∈ later, operation.Within (.catalogued catalogue))
include intact inside

/-- Whether a sweep was made or not, later operations lead to the same modifiers, rosters and links. -/
theorem Sheet.regains_sweep {ledger : Ledger} (follows : sheet.graph.Follows ledger) :
    let first := (sheet.run later).graph
    let second := ((sheet.withGraph (sheet.graph.sweep rules).2).run later).graph
    first.Regains second ∧ second.links = first.links := by
  have closed : (Vocabulary.catalogued catalogue).Closed := Vocabulary.closed_catalogued
  have indexes : (Vocabulary.catalogued catalogue).Indexes catalogue :=
    Vocabulary.catalogues_catalogued.head
  have sweptIntact : (sheet.withGraph (sheet.graph.sweep rules).2).graph.Intact _ :=
    intact_sweep rules intact
  have ends := Sheet.follows_run closed indexes intact follows inside
  have endsToo := Sheet.follows_run closed indexes sweptIntact
    (follows.undisturbed (undisturbed_sweep rules intact)) inside
  exact ⟨ends.enrolled.regains endsToo.enrolled (Sheet.intact_run closed intact inside).formed
    (Sheet.intact_run closed sweptIntact inside).formed, endsToo.links.trans ends.links.symm⟩

/-- If no modifier comes later, a sweep does not change the order of the paths. -/
theorem Sheet.paths_sweep {ledger : Ledger} (follows : sheet.graph.Follows ledger)
    (fewer : ∀ operation ∈ later, operation.addsNothing) :
    ((sheet.withGraph (sheet.graph.sweep rules).2).run later).graph.paths =
      (sheet.run later).graph.paths := by
  have closed : (Vocabulary.catalogued catalogue).Closed := Vocabulary.closed_catalogued
  have sweptIntact : (sheet.withGraph (sheet.graph.sweep rules).2).graph.Intact _ :=
    intact_sweep rules intact
  have begun := (undisturbed_sweep rules intact).filled
  obtain ⟨regains, links⟩ := Sheet.regains_sweep rules intact inside follows
  refine funext fun stat => paths_of_filled ?_ links
  rw [(Sheet.dwindles_run closed intact inside fewer).filled,
    (Sheet.dwindles_run closed sweptIntact inside fewer).filled, regains.modifiers]
  exact congrArg _ (begun stat)

end Reads

/-- A sweep after any operations, whatever its rules are. Every node that something watched or
registered rests on stays exactly as it is, unless a pipeline with behaviors is taken away. And
if every identity stands for one stat without behaviors, no fault is swallowed and paths for
what comes from a single stat have the global source, then whatever is done later, all reads have
the same replies as without the sweep, as long as no modifier was added or the paths of all stats
stand in the order in which they would stand without it. -/
theorem sweep_goes_unnoticed (settings : Settings) (retention rules : Retention)
    (operations : List Operation) :
    let sheet := Sheet.run { settings, retention } operations
    let swept := (sheet.graph.sweep rules).2
    ((∀ stat, sheet.graph.pipelines.contains stat → sheet.graph.behaviors.contains stat →
        swept.pipelines.contains stat) →
      ∀ root node, sheet.graph.Rooted root → sheet.graph.Reaches node root →
        swept.nodes.get? node = sheet.graph.nodes.get? node ∧
          ∀ producer, swept.Feeds producer node ↔ sheet.graph.Feeds producer node) ∧
    ∀ catalogue, (∀ operation ∈ operations, operation.Within (.catalogued catalogue)) →
      ∀ later : List Operation, (∀ operation ∈ later, operation.Within (.catalogued catalogue)) →
        let first := sheet.run later
        let second := (sheet.withGraph swept).run later
        (∀ operation ∈ later, operation.addsNothing) ∨ second.graph.paths = first.graph.paths →
          ∀ stat stage path, stat.HeadWithin (.catalogued catalogue) →
            path.Within (.catalogued catalogue) →
              (second.value stat stage path).1 = (first.value stat stage path).1 := by
  intro sheet swept
  constructor
  · intro unowned root node rooted reaches
    have intact := Sheet.intact_everything settings retention operations
    have retains := retains_sweep rules intact unowned (rooted.needed.reaches reaches)
    exact ⟨retains.same, retains.feeds⟩
  · intro catalogue within later inside first second ordered stat stage path named route
    have closed : (Vocabulary.catalogued catalogue).Closed := Vocabulary.closed_catalogued
    have intact : sheet.graph.Intact (.catalogued catalogue) :=
      (Sheet.reachable_run (.new settings retention) within).intact closed
    have sweptIntact : (sheet.withGraph swept).graph.Intact (.catalogued catalogue) :=
      intact_sweep rules intact
    have follows : sheet.graph.Follows ((callsMade {} operations).foldl Ledger.enter {}) :=
      Sheet.follows_run closed Vocabulary.catalogues_catalogued.head .initial ⟨.initial, rfl⟩ within
    have paths : second.graph.paths = first.graph.paths :=
      ordered.elim (Sheet.paths_sweep rules intact inside follows) id
    obtain ⟨regains, links⟩ := Sheet.regains_sweep rules intact inside follows
    have tallies : first.graph.Tallies second.graph :=
      ⟨regains.modifiers, regains.members, congrFun paths, links⟩
    exact tallies.perform_read (Sheet.intact_run closed intact inside)
      (Sheet.intact_run closed sweptIntact inside) stage named route

theorem named_within_plain (name : String) :
    (Stat.named name).Within (.catalogued Stat.plain) := by
  simp [Stat.named, Stat.plain, Stat.Within, Role.Within, BoundWithin, BehaviorsWithin,
    Vocabulary.catalogued]

/-- A piece of equipment that adds to the power of who wears it. -/
def worn (id : Nat) (name : String) (amount : Number) : Modifier :=
  { Modifier.baseAdd ⟨id⟩ (.named "Power") amount with source := .item name }

theorem worn_within_plain (id : Nat) (name : String) (amount : Number) :
    (worn id name amount).Within (.catalogued Stat.plain) where
  stats := fun _ member => List.mem_singleton.mp member ▸ (named_within_plain "Power").headWithin
  value := ⟨Formula.propagates_of_heeds _ rfl, trivial⟩
  condition := fun _ none => absurd none (Option.not_mem_none _)

/-- Two pieces are put on, the total is watched, and another stat is read once. -/
def readingAside : List Operation :=
  [.add (worn 1 "Ring" 5), .add (worn 2 "Belt" 3), .subscribe (.named "Power") .total .main [],
    .value (.named "Speed") .total .main]

theorem readingAside_within :
    ∀ operation ∈ readingAside, operation.Within (.catalogued Stat.plain) := by
  simp only [readingAside, List.forall_mem_cons]
  exact ⟨worn_within_plain .., worn_within_plain ..,
    ⟨(named_within_plain "Power").headWithin, .main, fun _ none => absurd none List.not_mem_nil⟩,
    ⟨(named_within_plain "Speed").headWithin, .main⟩, fun _ none => absurd none List.not_mem_nil⟩

/-- The stat that was read once is swept away, and is read again; the watched total stays with what it
rests on. Without the belt it is the same whether it was swept or not. -/
theorem watched_total_survives_sweep :
    let sheet := Sheet.run {} readingAside
    let later : List Operation := [.value (.named "Speed") .total .main, .remove ⟨2⟩]
    (sheet.graph.sweep {}).2.nodes.get? ⟨16⟩ = sheet.graph.nodes.get? ⟨16⟩ ∧
      (((sheet.withGraph (sheet.graph.sweep {}).2).run later).value (.named "Power") .total .main).1 =
        ((sheet.run later).value (.named "Power") .total .main).1 := by
  have rooted {graph : Graph} {node : NodeId}
      (watched : (graph.nodes.get? node).any (!·.subscribers.isEmpty)) : graph.Rooted node := by
    obtain ⟨present, found, heard⟩ := (Option.any_eq_true ..).mp watched
    exact Or.inl ⟨present, found, by simpa using heard⟩
  have unowned {graph : Graph} (none : graph.behaviors.isEmpty) (stat : StatId) :
      ¬ graph.behaviors.contains stat := by
    rw [Table.isEmpty_iff.mp none]
    exact Bool.false_ne_true
  have calm : (Sheet.run {} readingAside).graph.behaviors.isEmpty := by decide +kernel
  have feeds : (Sheet.run {} readingAside).graph.Feeds ⟨16⟩ ⟨14⟩ := by
    unfold Feeds
    decide +kernel
  obtain ⟨stays, reads⟩ := sweep_goes_unnoticed {} {} {} readingAside
  refine ⟨(stays (fun stat _ owned => absurd owned (unowned calm stat)) ⟨14⟩ ⟨16⟩
    (rooted (by decide +kernel)) (.single feeds)).1, ?_⟩
  refine reads Stat.plain readingAside_within _ ?_ (.inl ?_) (.named "Power") .total .main
    (named_within_plain _).headWithin .main
  · simp only [List.forall_mem_cons]
    exact ⟨⟨(named_within_plain "Speed").headWithin, .main⟩, trivial,
      fun _ none => absurd none List.not_mem_nil⟩
  · decide

/-- Three pieces are put on, and the first is taken off. -/
def changing : List Operation :=
  [.add (worn 1 "Ring" 0.1), .add (worn 2 "Belt" 0.2), .add (worn 3 "Cape" 0.3), .remove ⟨1⟩]

/-- Put on again, the ring comes first if its empty roster stayed, and last if a sweep took it away.
So the same three numbers are summed in another order, with another rounding. -/
theorem ring_put_on_again_noticed :
    ¬ ∀ settings retention (rules : Retention) operations later catalogue,
      let sheet := Sheet.run { settings, retention } operations
      let swept := (sheet.graph.sweep rules).2
      sheet.batchDepth = 0 →
        (∀ operation ∈ operations ++ later, operation.Within (.catalogued catalogue)) →
          ∀ stat stage path, stat.HeadWithin (.catalogued catalogue) →
            path.Within (.catalogued catalogue) →
              (((sheet.withGraph swept).run later).value stat stage path).1 =
                ((sheet.run later).value stat stage path).1 := by
  intro unnoticed
  have within : ∀ operation ∈ changing ++ [.add (worn 1 "Ring" 0.1)],
      operation.Within (.catalogued Stat.plain) := by
    simp only [changing, List.cons_append, List.nil_append, List.forall_mem_cons]
    exact ⟨worn_within_plain .., worn_within_plain .., worn_within_plain .., trivial,
      worn_within_plain .., fun _ none => absurd none List.not_mem_nil⟩
  have same := unnoticed { sweepAfterBatch := false } {} {} changing [.add (worn 1 "Ring" 0.1)]
    Stat.plain (by decide +kernel) within (.named "Power") .total .main
    (named_within_plain "Power").headWithin .main
  exact absurd same (by decide +kernel)

end CharacterSheet
