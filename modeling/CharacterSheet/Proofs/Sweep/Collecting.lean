import CharacterSheet.Proofs.Sweep.Clearing
import CharacterSheet.Proofs.History.Histories

/-!
Contract: a sweep by rules that keep nothing removes exactly what is of no use.

Owns:
- what a graph holds after such a sweep, in terms of the graph before: stages, contribution nodes,
  rosters and pipelines;
- the numbers of nodes, rosters and pipelines that one graph has and another one lacks;
- the proof that a sweep leaves exactly what is of use and reports exactly what it took away.

The four kinds of things are followed through the phases of the sweep one after the other: nodes
only go with the first phase, rosters with the second, and pipelines with the last, which looks at
what the others have left.
-/

namespace CharacterSheet

/-- Keys that are taken away from a look-up are as many as those that are missing from it later. -/
theorem length_eq_countP {κ α : Type} [DecidableEq κ] {taken all : List κ} {before after : κ → Option α}
    (once : taken.Nodup) (distinct : all.Nodup) (listed : ∀ key, key ∈ all ↔ (before key).isSome)
    (there : ∀ key ∈ taken, (before key).isSome)
    (left : ∀ key, after key = if key ∈ taken then none else before key) :
    taken.length = all.countP fun key => (after key).isNone := by
  rw [List.countP_eq_length_filter]
  refine ((List.perm_ext_iff_of_nodup once (distinct.filter _)).mpr fun key => ?_).length_eq
  rw [List.mem_filter, listed, left]
  by_cases leaves : key ∈ taken
  · simp [leaves, there key leaves]
  · cases before key <;> simp [leaves]

namespace Graph

variable {vocabulary : Vocabulary} {graph other : Graph}

/-- The rosters of all pipelines. -/
def slotIds (graph : Graph) : List SlotId :=
  graph.pipelines.entries.flatMap fun entry =>
    entry.2.slots.keys.map fun key => ⟨entry.1, key.1, key.2⟩

/-- The numbers of nodes, rosters and pipelines of a graph that another graph lacks. -/
def losses (graph after : Graph) : SweepReport where
  nodes := graph.nodes.keys.countP fun node => (after.nodes.get? node).isNone
  rosters := graph.slotIds.countP fun slot => (after.roster? slot).isNone
  pipelines := graph.pipelines.keys.countP fun stat => (after.pipelines.get? stat).isNone

/-- Something that is watched or registered rests on a node. -/
def Serves (graph : Graph) (node : NodeId) : Prop :=
  ∃ root, graph.Rooted root ∧ graph.Reaches node root

/-- Of a graph there is left exactly what is of use. -/
structure Collects (graph after : Graph) : Prop where
  stages : ∀ node stat stage path, after.addressOf? node = some (.pipeline stat stage path) ↔
    graph.addressOf? node = some (.pipeline stat stage path) ∧ graph.Serves node
  contributions : ∀ node modifier, after.addressOf? node = some (.contribution modifier) ↔
    graph.addressOf? node = some (.contribution modifier)
  /-- A contribution node that is of no use stays, without a value and without what it read. -/
  emptied : ∀ node modifier, graph.addressOf? node = some (.contribution modifier) →
    ¬ graph.Serves node → after.Stale node ∧ after.producers node = []
  rosters : ∀ slot roster, after.roster? slot = some roster ↔
    graph.roster? slot = some roster ∧ (roster.members ≠ [] ∨ roster.subscribers ≠ [])
  pipelines : ∀ stat, after.pipelines.contains stat ↔
    graph.pipelines.contains stat ∧
      ((∃ node stage path, after.addressOf? node = some (.pipeline stat stage path)) ∨
        (∃ form path roster, after.roster? ⟨stat, form, path⟩ = some roster) ∨
          stat ∈ graph.registered)

theorem Collects.record {after : Graph} (collects : graph.Collects after) (entry : Record) :
    graph.Collects (after.record entry) :=
  ⟨collects.stages, collects.contributions, collects.emptied, collects.rosters, collects.pipelines⟩

theorem losses_record (graph after : Graph) (entry : Record) :
    graph.losses (after.record entry) = graph.losses after := rfl

/-! ### What goes -/

/-- The stages that go are those that are of no use. -/
theorem mem_sweptNodes_iff (formed : graph.WellFormed vocabulary) (node : NodeId) :
    node ∈ graph.sweptNodes {} ↔ ¬ graph.Serves node ∧
      ∃ stat stage path, graph.addressOf? node = some (.pipeline stat stage path) := by
  have needed : graph.Needed node ↔ graph.Serves node := needed_iff graph node
  rw [sweeps_node_iff]
  constructor
  · rintro ⟨stat, pipeline, ⟨stage, path⟩, here, listed, unneeded, -⟩
    obtain ⟨full, found, _⟩ := formed.listed stat pipeline stage path node here listed
    exact ⟨fun serves => unneeded (needed.mpr serves), stat, stage, full, found⟩
  · rintro ⟨useless, stat, stage, path, found⟩
    obtain ⟨pipeline, here, listed⟩ := formed.named node stat stage path found
    exact ⟨stat, pipeline, _, here, listed, fun serves => useless (needed.mp serves), rfl, rfl⟩

theorem roster?_eq_some_iff (graph : Graph) (slot : SlotId) (roster : Roster ModifierId) :
    graph.roster? slot = some roster ↔ ∃ pipeline filled,
      graph.pipelines.get? slot.stat = some pipeline ∧
        pipeline.slots.get? (slot.form, slot.path) = some filled ∧ filled.roster = roster := by
  rw [roster?, Option.map_eq_some_iff]
  constructor
  · rintro ⟨filled, found, same⟩
    obtain ⟨pipeline, here, inside⟩ := Option.bind_eq_some_iff.mp found
    exact ⟨pipeline, filled, here, inside, same⟩
  · rintro ⟨pipeline, filled, here, inside, same⟩
    exact ⟨filled, Option.bind_eq_some_iff.mpr ⟨pipeline, here, inside⟩, same⟩

/-- The rosters that go are those without members and subscribers. -/
theorem mem_sweptSlots_iff (formed : graph.WellFormed vocabulary) (slot : SlotId) :
    slot ∈ graph.sweptSlots {} ↔ ∃ roster, graph.roster? slot = some roster ∧
      roster.members = [] ∧ roster.subscribers = [] := by
  simp only [sweeps_slot_iff {} formed, roster?_eq_some_iff, and_true]
  constructor
  · rintro ⟨pipeline, filled, here, inside, empty⟩
    exact ⟨filled.roster, ⟨pipeline, filled, here, inside, rfl⟩, empty⟩
  · rintro ⟨_, ⟨pipeline, filled, here, inside, rfl⟩, empty⟩
    exact ⟨pipeline, filled, here, inside, empty⟩

/-! ### What is left of the rosters -/

theorem Discards.roster? {gone : NodeId → Prop} (discards : graph.Discards other gone)
    (slot : SlotId) : other.roster? slot = graph.roster? slot := by
  unfold Graph.roster?
  cases here : graph.pipelines.get? slot.stat with
  | none => rw [discards.missing _ here]
  | some pipeline =>
      obtain ⟨nodes, there, _⟩ := discards.pipelines _ pipeline here
      rw [there]
      rfl

theorem roster?_removeSlot (graph : Graph) (taken slot : SlotId) :
    (graph.removeSlot taken).roster? slot = if slot = taken then none else graph.roster? slot := by
  obtain ⟨stat, form, path⟩ := slot
  simp only [roster?, removeSlot, modifyPipeline, Table.get?_modify]
  by_cases own : stat = taken.stat
  · rw [if_pos own]
    cases graph.pipelines.get? stat with
    | none => exact (ite_self _).symm
    | some pipeline =>
        simp only [Option.map_some, Option.bind_some, Table.get?_erase]
        by_cases same : (form, path) = (taken.form, taken.path)
        · have equal : (⟨stat, form, path⟩ : SlotId) = taken := by
            cases same
            cases own
            rfl
          rw [if_pos same, if_pos equal]
          rfl
        · rw [if_neg same, if_neg]
          rintro rfl
          exact same rfl
  · rw [if_neg own, if_neg]
    rintro rfl
    exact own rfl

theorem roster?_removeSlots (graph : Graph) (taken : List SlotId) (slot : SlotId) :
    (taken.foldl removeSlot graph).roster? slot =
      if slot ∈ taken then none else graph.roster? slot := by
  induction taken generalizing graph with
  | nil => rfl
  | cons first rest inductionHypothesis =>
      rw [List.foldl_cons, inductionHypothesis, roster?_removeSlot]
      by_cases later : slot ∈ rest
      · rw [if_pos later, if_pos (List.mem_cons_of_mem first later)]
      · simp only [List.mem_cons, later, or_false, if_false]

theorem Hollow.roster? {stat : StatId} (hollow : graph.Hollow stat) (form : Form) (path : PathId) :
    graph.roster? ⟨stat, form, path⟩ = none := by
  refine Option.eq_none_iff_forall_ne_some.mpr fun roster found => ?_
  obtain ⟨pipeline, filled, here, inside, _⟩ := (roster?_eq_some_iff _ _ _).mp found
  rw [hollow.unfilled here] at inside
  contradiction

/-! ### What is left when pipelines go -/

/-- Where a pipeline goes, nodes lose at most their values. -/
theorem fades_removePipeline (graph : Graph) (stat : StatId) :
    ∃ (closed : Graph) (affected : NodeId → Prop), closed.nodes = graph.nodes ∧
      closed.edges = graph.edges ∧ closed.Fades (graph.removePipeline stat) affected := by
  rw [removePipeline_eq]
  split
  · split
    · exact ⟨graph.close stat, _, rfl, rfl, .refl _⟩
    · split
      · exact ⟨(graph.close stat).lift stat, _, rfl, rfl, .refl _⟩
      · rw [invalidateTargets_eq]
        exact ⟨((graph.close stat).lift stat).record _, _, rfl, rfl, fades_invalidateAll _ _⟩
  · exact ⟨graph, _, rfl, rfl, .refl graph⟩

theorem left_removePipelines (graph : Graph) (stats : List StatId) :
    let after := stats.foldl removePipeline graph
    after.edges = graph.edges ∧ after.addressOf? = graph.addressOf? ∧
      ∀ node, graph.Stale node → after.Stale node := by
  induction stats generalizing graph with
  | nil => exact ⟨rfl, rfl, fun _ => id⟩
  | cons stat rest inductionHypothesis =>
      obtain ⟨closed, affected, nodes, edges, fades⟩ := graph.fades_removePipeline stat
      obtain ⟨same, addresses, stale⟩ := inductionHypothesis (graph.removePipeline stat)
      have before : closed.addressOf? = graph.addressOf? := by
        funext node
        rw [addressOf?, addressOf?, nodes]
      refine ⟨same.trans (fades.edges.trans edges),
        addresses.trans ((addressOf?_of_shape fades.shape).trans before), fun node early => ?_⟩
      obtain ⟨present, found, cached⟩ := early
      exact stale node (fades.stale ⟨present, nodes ▸ found, cached⟩)

/-- A pipeline that goes has no rosters, so those that are left stay as they are. -/
theorem roster?_removePipelines {stats : List StatId} (hollow : ∀ stat ∈ stats, graph.Hollow stat)
    (slot : SlotId) : (stats.foldl removePipeline graph).roster? slot = graph.roster? slot := by
  have pipelines := graph.pipelines_removePipelines stats slot.stat
  by_cases leaves : slot.stat ∈ stats
  · rw [(hollow slot.stat leaves).roster?]
    rw [if_pos leaves] at pipelines
    rw [roster?, pipelines]
    rfl
  · rw [if_neg leaves] at pipelines
    rw [roster?, roster?, pipelines]

/-! ### What is left of contribution nodes -/

/-- A contribution node that is relaxed reads nothing any more. -/
theorem producers_relax {node : NodeId} {modifier : ModifierId}
    (found : graph.addressOf? node = some (.contribution modifier)) :
    (graph.relax node).producers node = [] := by
  obtain ⟨present, here, address⟩ := Option.map_eq_some_iff.mp found
  refine List.eq_nil_iff_forall_not_mem.mpr fun producer reads => ?_
  rw [mem_producers_iff] at reads
  simp only [relax, here, address] at reads
  have aside := (List.mem_filter.mp reads).2
  simp at aside

theorem producers_relaxAll {nodes : List NodeId} {node : NodeId} {modifier : ModifierId}
    (member : node ∈ nodes) (found : graph.addressOf? node = some (.contribution modifier)) :
    (nodes.foldl relax graph).producers node = [] := by
  induction nodes generalizing graph with
  | nil => contradiction
  | cons first rest inductionHypothesis =>
      have still : (graph.relax first).addressOf? node = some (.contribution modifier) := by
        rw [addressOf?_of_shape (graph.shape_relax first)]
        exact found
      rcases List.mem_cons.mp member with rfl | later
      · refine List.eq_nil_iff_forall_not_mem.mpr fun producer reads => ?_
        have early := (relaxes_foldl (graph.relax node) rest).fewer producer node
          ((mem_producers_iff _ _ _).mp reads)
        have none := producers_relax found
        rw [List.eq_nil_iff_forall_not_mem] at none
        exact none producer ((mem_producers_iff _ _ _).mpr early)
      · exact inductionHypothesis later still

/-! ### What is left after a sweep -/

/-- The nodes that a sweep relaxes are those that are left and not needed. -/
theorem mem_unneeded {rules : Retention} {node : NodeId} {present : Node}
    (here : (graph.thinned rules).nodes.get? node = some present) (unneeded : ¬ graph.Needed node) :
    node ∈ (graph.thinned rules).nodes.keys.filter fun node => !graph.needed.contains node := by
  refine List.mem_filter.mpr ⟨(Table.mem_keys_iff _ _).mpr (by rw [here]; rfl), ?_⟩
  rw [Bool.not_eq_true', ← Bool.not_eq_true]
  exact unneeded

section Sweep

variable (rules : Retention) (intact : graph.Intact vocabulary)
include intact

theorem addressOf?_thinned (node : NodeId) :
    (graph.thinned rules).addressOf? node =
      if node ∈ graph.sweptNodes rules then none else graph.addressOf? node := by
  have discards := discards_sweep rules intact
  have thins (slots : List SlotId) (graph : Graph) :
      (slots.foldl removeSlot graph).addressOf? node = graph.addressOf? node := by
    induction slots generalizing graph with
    | nil => rfl
    | cons slot rest inductionHypothesis => exact inductionHypothesis (graph.removeSlot slot)
  rw [thinned, thins]
  split
  · next leaves =>
    rw [addressOf?, discards.removed node leaves]
    rfl
  · next stays =>
    cases found : graph.addressOf? node with
    | some address => exact discards.address_left found stays
    | none =>
        refine Option.eq_none_iff_forall_ne_some.mpr fun address later => ?_
        rw [(discards.address_before later).1] at found
        contradiction

theorem addressOf?_swept (node : NodeId) :
    (graph.swept rules).addressOf? node =
      if node ∈ graph.sweptNodes rules then none else graph.addressOf? node := by
  rw [swept, (left_removePipelines _ _).2.1, addressOf?_of_shape (relaxes_relaxed rules).shape,
    addressOf?_thinned rules intact]

theorem roster?_swept (slot : SlotId) :
    (graph.swept rules).roster? slot =
      if slot ∈ graph.sweptSlots rules then none else graph.roster? slot := by
  have relaxes : (graph.relaxed rules).roster? slot = (graph.thinned rules).roster? slot := by
    have pipelines : (graph.relaxed rules).pipelines = (graph.thinned rules).pipelines :=
      congrArg Shape.pipelines (relaxes_relaxed rules).shape
    rw [Graph.roster?, Graph.roster?, pipelines]
  rw [swept, roster?_removePipelines fun _ => hollow_removablePipelines rules, relaxes, thinned,
    roster?_removeSlots, (discards_sweep rules intact).roster?]

omit intact in
theorem get?_swept (stat : StatId) :
    (graph.swept rules).pipelines.get? stat =
      if stat ∈ (graph.relaxed rules).removablePipelines rules then none
      else (graph.relaxed rules).pipelines.get? stat :=
  pipelines_removePipelines _ _ stat

/-- Up to the last phase no pipeline goes. -/
theorem contains_relaxed (stat : StatId) :
    (graph.relaxed rules).pipelines.contains stat = graph.pipelines.contains stat := by
  have discards := discards_sweep rules intact
  have same : (graph.relaxed rules).pipelines = (graph.thinned rules).pipelines :=
    congrArg Shape.pipelines (relaxes_relaxed rules).shape
  have thins (slots : List SlotId) (graph : Graph) :
      (slots.foldl removeSlot graph).pipelines.contains stat = graph.pipelines.contains stat := by
    induction slots generalizing graph with
    | nil => rfl
    | cons slot rest inductionHypothesis =>
        rw [List.foldl_cons, inductionHypothesis, Table.contains, Table.contains, removeSlot,
          modifyPipeline, Table.get?_modify]
        split
        · exact Option.isSome_map
        · rfl
  rw [same, thinned, thins]
  cases here : graph.pipelines.get? stat with
  | none => rw [Table.contains, Table.contains, here, discards.missing stat here]
  | some pipeline =>
      obtain ⟨nodes, there, _⟩ := discards.pipelines stat pipeline here
      rw [Table.contains, Table.contains, here, there]
      rfl

/-- The pipelines that go are those that have nothing left and are not registered. -/
theorem mem_removablePipelines_iff (stat : StatId) :
    stat ∈ (graph.relaxed {}).removablePipelines {} ↔ graph.pipelines.contains stat ∧
      (graph.relaxed {}).Hollow stat ∧ stat ∉ graph.registered := by
  have books := (sameBooks_relaxed {} intact).registered
  rw [← contains_relaxed {} intact]
  constructor
  · intro member
    refine ⟨?_, hollow_removablePipelines {} member, ?_⟩
    all_goals
      obtain ⟨⟨own, pipeline⟩, inside, rfl⟩ := List.mem_map.mp member
      obtain ⟨listed, removable⟩ := List.mem_filter.mp inside
    · exact Table.contains_iff.mpr ⟨pipeline, (Table.get?_eq_some_iff _ _ _).mpr listed⟩
    · rw [books] at removable
      simpa using (Bool.and_eq_true_iff.mp (Bool.and_eq_true_iff.mp removable).1).2
  · rintro ⟨here, hollow, unregistered⟩
    obtain ⟨pipeline, found⟩ := Table.contains_iff.mp here
    refine List.mem_map.mpr ⟨(stat, pipeline), List.mem_filter.mpr
      ⟨(Table.get?_eq_some_iff _ _ _).mp found, ?_⟩, rfl⟩
    rw [hollow pipeline found, books]
    simpa using unregistered

/-- A pipeline that is left after the second phase and not empty has a stage or a roster. -/
theorem lists_of_not_hollow {stat : StatId} (present : ¬ graph.Hollow stat) :
    (∃ node stage path, graph.addressOf? node = some (.pipeline stat stage path)) ∨
      ∃ form path roster, graph.roster? ⟨stat, form, path⟩ = some roster := by
  unfold Hollow at present
  push Not at present
  obtain ⟨pipeline, here, filled⟩ := present
  rw [Pipeline.isEmpty, ne_eq, Bool.and_eq_true, not_and_or] at filled
  rcases filled with nodes | slots
  · obtain ⟨⟨⟨stage, path⟩, node⟩, member⟩ :=
      List.exists_mem_of_ne_nil _ fun none => nodes (List.isEmpty_iff.mpr none)
    obtain ⟨full, found, _⟩ := intact.formed.listed stat pipeline stage path node here
      ((Table.get?_eq_some_iff _ _ _).mpr member)
    exact .inl ⟨node, stage, full, found⟩
  · obtain ⟨⟨⟨form, path⟩, slot⟩, member⟩ :=
      List.exists_mem_of_ne_nil _ fun none => slots (List.isEmpty_iff.mpr none)
    exact .inr ⟨form, path, slot.roster, (roster?_eq_some_iff _ _ _).mpr
      ⟨pipeline, slot, here, (Table.get?_eq_some_iff _ _ _).mpr member, rfl⟩⟩

/-- A node that is left although it is of no use has no value. -/
theorem stale_swept {node : NodeId} {address : Address}
    (left : (graph.swept rules).addressOf? node = some address) (useless : ¬ graph.Needed node) :
    (graph.swept rules).Stale node := by
  obtain ⟨_, addresses, stale⟩ := (graph.relaxed rules).left_removePipelines
    ((graph.relaxed rules).removablePipelines rules)
  have relaxes := @relaxes_relaxed graph rules
  have before : (graph.thinned rules).addressOf? node = some address := by
    rw [← addressOf?_of_shape relaxes.shape, ← addresses]
    exact left
  obtain ⟨present, here, _⟩ := Option.map_eq_some_iff.mp before
  have affected := mem_unneeded here useless
  have after := relaxes.dropped node affected
  rw [here, Option.map_some] at after
  refine stale node ⟨_, after, ?_⟩
  -- no calculation is going on, so the cache cannot have been kept
  have relaxed := intact_relaxed rules intact
  have idle : present.cache.invalidate ≠ .computing := fun busy => by
    have going := (relaxed.stacked.computing node).mp ⟨_, after, busy⟩
    rw [relaxed.idle] at going
    contradiction
  cases cached : present.cache <;> simp_all [Cache.invalidate]

omit intact in
/-- A contribution node that is left although it is of no use has no edges along which it read. -/
theorem producers_swept {node : NodeId} {modifier : ModifierId}
    (left : (graph.swept rules).addressOf? node = some (.contribution modifier))
    (useless : ¬ graph.Needed node) : (graph.swept rules).producers node = [] := by
  obtain ⟨edges, addresses, _⟩ := (graph.relaxed rules).left_removePipelines
    ((graph.relaxed rules).removablePipelines rules)
  have before : (graph.thinned rules).addressOf? node = some (.contribution modifier) := by
    rw [← addressOf?_of_shape (relaxes_relaxed rules).shape, ← addresses]
    exact left
  obtain ⟨present, here, _⟩ := Option.map_eq_some_iff.mp before
  rw [producers, show (graph.swept rules).edges = (graph.relaxed rules).edges from edges]
  exact producers_relaxAll (mem_unneeded here useless) before

/-- A contribution node that is of no use has neither a value nor edges along which it read. -/
theorem emptied_swept {node : NodeId} {modifier : ModifierId}
    (found : graph.addressOf? node = some (.contribution modifier)) (useless : ¬ graph.Serves node) :
    (graph.swept {}).Stale node ∧ (graph.swept {}).producers node = [] := by
  have stays : node ∉ graph.sweptNodes {} := by
    rw [mem_sweptNodes_iff intact.formed, found]
    rintro ⟨_, _, _, _, same⟩
    cases same
  have left : (graph.swept {}).addressOf? node = some (.contribution modifier) := by
    rw [addressOf?_swept {} intact, if_neg stays, found]
  have unneeded : ¬ graph.Needed node := fun needed => useless ((needed_iff graph node).mp needed)
  exact ⟨stale_swept {} intact left unneeded, producers_swept {} left unneeded⟩

/-- What is left after a sweep by rules that keep nothing. -/
theorem collects_swept : graph.Collects (graph.swept {}) where
  stages := by
    intro node stat stage path
    rw [addressOf?_swept {} intact]
    split
    · next leaves =>
      have useless := ((mem_sweptNodes_iff intact.formed node).mp leaves).1
      exact ⟨by simp, fun stays => absurd stays.2 useless⟩
    · next stays =>
      refine ⟨fun found => ⟨found, ?_⟩, fun found => found.1⟩
      by_contra useless
      exact stays ((mem_sweptNodes_iff intact.formed node).mpr ⟨useless, stat, stage, path, found⟩)
  contributions := by
    intro node modifier
    rw [addressOf?_swept {} intact]
    split
    · next leaves =>
      obtain ⟨_, stat, stage, path, found⟩ := (mem_sweptNodes_iff intact.formed node).mp leaves
      simp [found]
    · exact Iff.rfl
  emptied := fun _ _ => emptied_swept intact
  rosters := by
    intro slot roster
    rw [roster?_swept {} intact]
    split
    · next leaves =>
      obtain ⟨empty, found, deserted, silent⟩ := (mem_sweptSlots_iff intact.formed slot).mp leaves
      rw [found]
      refine ⟨by simp, ?_⟩
      rintro ⟨same, either⟩
      cases same
      exact (either.elim (· deserted) (· silent)).elim
    · next stays =>
      refine ⟨fun found => ⟨found, ?_⟩, fun found => found.1⟩
      by_contra empty
      rw [not_or, ne_eq, ne_eq, not_not, not_not] at empty
      exact stays ((mem_sweptSlots_iff intact.formed slot).mpr ⟨roster, found, empty⟩)
  pipelines := by
    intro stat
    have swept := intact_swept {} intact
    have here := graph.get?_swept {} stat
    have removable := mem_removablePipelines_iff intact stat
    constructor
    · intro stays
      obtain ⟨pipeline, found⟩ := Table.contains_iff.mp stays
      rw [found] at here
      split at here
      · cases here
      · next kept =>
        have before : graph.pipelines.contains stat = true := by
          rw [← contains_relaxed {} intact]
          exact Table.contains_iff.mpr ⟨pipeline, here.symm⟩
        refine ⟨before, ?_⟩
        by_cases registered : stat ∈ graph.registered
        · exact .inr (.inr registered)
        · have listing := lists_of_not_hollow swept fun hollow => kept (removable.mpr
            ⟨before, fun other same => hollow other (found.trans (here.trans same)), registered⟩)
          exact listing.imp_right .inl
    · rintro ⟨before, ⟨node, stage, path, found⟩ | ⟨form, path, roster, found⟩ | registered⟩
      · obtain ⟨pipeline, found, _⟩ := swept.formed.named node stat stage path found
        exact Table.contains_iff.mpr ⟨pipeline, found⟩
      · obtain ⟨pipeline, _, found, _⟩ := (roster?_eq_some_iff _ _ _).mp found
        exact Table.contains_iff.mpr ⟨pipeline, found⟩
      · rw [if_neg fun leaves => (removable.mp leaves).2.2 registered] at here
        rw [← contains_relaxed {} intact, Table.contains, ← here] at before
        exact before

/-! ### The report -/

omit intact in
theorem mem_slotIds_iff (slot : SlotId) :
    slot ∈ graph.slotIds ↔ ∃ roster, graph.roster? slot = some roster := by
  simp only [slotIds, List.mem_flatMap, List.mem_map, Table.mem_keys_iff, Option.isSome_iff_exists,
    roster?_eq_some_iff]
  constructor
  · rintro ⟨⟨stat, pipeline⟩, listed, ⟨form, path⟩, ⟨filled, inside⟩, rfl⟩
    exact ⟨_, pipeline, filled, (Table.get?_eq_some_iff _ _ _).mpr listed, inside, rfl⟩
  · rintro ⟨_, pipeline, filled, here, inside, _⟩
    exact ⟨(slot.stat, pipeline), (Table.get?_eq_some_iff _ _ _).mp here, (slot.form, slot.path),
      ⟨filled, inside⟩, rfl⟩

omit intact in
/-- Rosters of different pipelines, or under different keys of one, are different. -/
theorem nodup_rosters {α : Type} (pipelines : List α) (stat : α → StatId)
    (keys : α → List (Form × PathId)) (apart : (pipelines.map stat).Nodup)
    (distinct : ∀ pipeline ∈ pipelines, (keys pipeline).Nodup) :
    (pipelines.flatMap fun pipeline =>
      (keys pipeline).map fun key => (⟨stat pipeline, key.1, key.2⟩ : SlotId)).Nodup := by
  refine List.nodup_flatMap.mpr ⟨fun pipeline member => ?_, ?_⟩
  · refine (distinct pipeline member).map ?_
    rintro ⟨form, path⟩ ⟨_, _⟩ same
    cases same
    rfl
  · refine (List.pairwise_map.mp apart).imp ?_
    intro first second differ slot here there
    obtain ⟨_, _, rfl⟩ := List.mem_map.mp here
    obtain ⟨_, _, same⟩ := List.mem_map.mp there
    exact differ (congrArg SlotId.stat same).symm

omit intact in
/-- A sweep removes no roster twice. -/
theorem nodup_sweptSlots (formed : graph.WellFormed vocabulary) (rules : Retention) :
    (graph.sweptSlots rules).Nodup := by
  have apart : (graph.pipelines.values.map (·.stat.id)).Nodup :=
    formed.stats_eq_keys ▸ graph.pipelines.nodup_keys
  have once := nodup_rosters
    (graph.pipelines.values.filter fun pipeline => rules.considersStat pipeline.stat) (·.stat.id)
    (fun pipeline => (pipeline.slots.entries.filter fun entry =>
      entry.2.roster.members.isEmpty && entry.2.roster.subscribers.isEmpty &&
        rules.removesRoster pipeline.stat entry.1.1 entry.1.2).map Prod.fst)
    (apart.sublist (List.filter_sublist.map _))
    fun pipeline _ => pipeline.slots.distinct.sublist (List.filter_sublist.map _)
  simp only [List.map_map] at once
  exact once

/-- The report of a sweep counts what is not left after it. -/
theorem losses_swept : graph.losses (graph.swept {}) =
    { nodes := (graph.sweptNodes {}).length, rosters := (graph.sweptSlots {}).length
      pipelines := ((graph.relaxed {}).removablePipelines {}).length } := by
  have nodes : (graph.sweptNodes {}).length =
      graph.nodes.keys.countP fun node => ((graph.swept {}).addressOf? node).isNone := by
    refine length_eq_countP (nodup_sweptNodes intact.formed {}) graph.nodes.nodup_keys (fun node => ?_)
      (fun node leaves => ?_) (addressOf?_swept {} intact)
    · rw [Table.mem_keys_iff, addressOf?, Option.isSome_map]
    · obtain ⟨_, stat, stage, path, found⟩ := (mem_sweptNodes_iff intact.formed node).mp leaves
      rw [found]
      rfl
  have rosters : (graph.sweptSlots {}).length =
      graph.slotIds.countP fun slot => ((graph.swept {}).roster? slot).isNone := by
    refine length_eq_countP (nodup_sweptSlots intact.formed {})
      (nodup_rosters _ _ _ graph.pipelines.distinct fun entry _ => entry.2.slots.nodup_keys)
      (fun slot => ?_) (fun slot leaves => ?_) (roster?_swept {} intact)
    · rw [Option.isSome_iff_exists]
      exact mem_slotIds_iff slot
    · obtain ⟨roster, found, _⟩ := (mem_sweptSlots_iff intact.formed slot).mp leaves
      rw [found]
      rfl
  have pipelines : ((graph.relaxed {}).removablePipelines {}).length =
      graph.pipelines.keys.countP fun stat => ((graph.swept {}).pipelines.get? stat).isNone := by
    have same (stat : StatId) : ((graph.relaxed {}).pipelines.get? stat).isSome =
        (graph.pipelines.get? stat).isSome := contains_relaxed {} intact stat
    refine length_eq_countP (nodup_removablePipelines {}) graph.pipelines.nodup_keys (fun stat => ?_)
      (fun stat leaves => ?_) (graph.get?_swept {})
    · rw [Table.mem_keys_iff, same]
    · rw [same]
      exact ((mem_removablePipelines_iff intact stat).mp leaves).1
  rw [nodes, rosters, pipelines]
  simp only [losses, addressOf?, Option.isNone_map]

end Sweep

end Graph

open CharacterSheet.Graph

/-- Whatever happened before, a sweep by rules that keep nothing, unless a batch is open, leaves
exactly what is of use, and its report counts exactly what it took away. -/
theorem sweep_exact (settings : Settings) (retention : Retention) (operations : List Operation) :
    let graph := (Sheet.run { settings, retention } operations).graph
    graph.pending.depth = 0 →
      graph.Collects (graph.sweep {}).2 ∧
        (graph.sweep {}).1 = .ok (graph.losses (graph.sweep {}).2) := by
  intro graph idle
  have intact : graph.Intact .everything := Sheet.intact_everything settings retention operations
  clear_value graph
  have collects := collects_swept intact
  rw [sweep_eq, if_neg (by rw [idle]; exact Nat.lt_irrefl 0), ← losses_swept intact]
  dsimp only
  split
  · exact ⟨collects, rfl⟩
  · exact ⟨collects.record _, by rw [losses_record]⟩

/-- One value was read once, another one is watched, and a roster was watched for a while. -/
def leftovers : List Operation :=
  [.addAll [.baseAdd ⟨1⟩ (.named "Iron") 10, .baseAdd ⟨2⟩ (.named "Wood") 5],
    .value (.named "Iron") .total .main, .subscribe (.named "Wood") .total .main [],
    .subscribeRoster (.named "Gold") .baseAdd .main, .unsubscribe ⟨2⟩]

/-- The stages of the value that was read go, and so does the roster with its pipeline. -/
theorem leftovers_swept :
    let graph := (Sheet.run { settings := { sweepAfterBatch := false } } leftovers).graph
    graph.pending.depth = 0 ∧ graph.Collects (graph.sweep {}).2 ∧
      graph.losses (graph.sweep {}).2 = { nodes := 10, rosters := 1, pipelines := 1 } := by
  have facts : (Sheet.run { settings := { sweepAfterBatch := false } } leftovers).batchDepth = 0 ∧
      ((Sheet.run { settings := { sweepAfterBatch := false } } leftovers).graph.losses
        ((Sheet.run { settings := { sweepAfterBatch := false } } leftovers).graph.sweep {}).2) =
          { nodes := 10, rosters := 1, pipelines := 1 } := by
    decide +kernel
  exact ⟨facts.1, (sweep_exact { sweepAfterBatch := false } {} leftovers facts.1).1, facts.2⟩

end CharacterSheet
