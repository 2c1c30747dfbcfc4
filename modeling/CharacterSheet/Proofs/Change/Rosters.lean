import CharacterSheet.Proofs.Change.Reordering

/-!
Contract: how a change of one roster turns a graph.

Owns:
- the change of a roster with the invalidation that goes with it;
- what such a change leaves as it was: nodes, edges, and the plans of all but the stage that
  collects the roster and the sum over the paths;
- the proof that it is a turn.

The sum over the paths is invalidated if a path comes or goes. If a path only moves, it is
not, and does not have to be.
-/

namespace CharacterSheet

theorem Table.filter_insert {κ α : Type} [DecidableEq κ] (table : Table κ α) {key : κ} {value : α}
    {keep : κ × α → Bool} (dropped : keep (key, value) = false)
    (replaced : ∀ old, table.get? key = some old → keep (key, old) = false) :
    (table.insert key value).entries.filter keep = table.entries.filter keep := by
  have general (entries : List (κ × α)) (replaced : ∀ entry ∈ entries, entry.1 = key →
      keep entry = false) : (putIn key value entries).filter keep = entries.filter keep := by
    induction entries with
    | nil => simp [putIn, dropped]
    | cons entry rest inductionHypothesis =>
        have later := inductionHypothesis fun other member =>
          replaced other (List.mem_cons_of_mem _ member)
        by_cases same : entry.1 = key
        · simp [putIn, same, dropped, replaced entry List.mem_cons_self same]
        · simp [putIn, same, List.filter_cons, later]
  apply general
  rintro ⟨other, old⟩ member rfl
  exact replaced old ((table.get?_eq_some_iff _ old).mpr member)

theorem Pipeline.occupied_eq (pipeline : Pipeline) :
    pipeline.occupied = (pipeline.slots.entries.filter fun entry =>
      !entry.2.roster.members.isEmpty).map (·.2.path) := by
  simp [occupied, Table.values, List.filter_map, Function.comp_def]

/-- A pipeline with a roster put in its place. -/
def Pipeline.fill (pipeline : Pipeline) (form : Form) (path : PathId) (filled : Slot)
    (memberships : Nat) : Pipeline :=
  { pipeline with slots := pipeline.slots.insert (form, path) filled, memberships }

/-- Filling a roster changes the occupied paths only where its own path stands. -/
theorem Pipeline.WellFormed.filter_occupied {vocabulary : Vocabulary}
    {modifiers : Table ModifierId Modifier} {stat : StatId} {pipeline : Pipeline}
    (formed : pipeline.WellFormed vocabulary modifiers stat) (form : Form) {path : PathId}
    {filled : Slot} (memberships : Nat) (fits : filled.path.id = path) (keep : PathId → Bool)
    (dropped : keep path = false) :
    (pipeline.fill form path filled memberships).occupied.filter (keep ·.id) =
      pipeline.occupied.filter (keep ·.id) := by
  rw [occupied_eq, occupied_eq, List.filter_map, List.filter_map, List.filter_filter,
    List.filter_filter]
  congr 1
  apply pipeline.slots.filter_insert
  · simp [fits, dropped]
  · intro old found
    simp [(formed.slots form path old found).path_id, dropped]

theorem Pipeline.WellFormed.hasMembersOn_iff {vocabulary : Vocabulary}
    {modifiers : Table ModifierId Modifier} {stat : StatId} {pipeline : Pipeline}
    (formed : pipeline.WellFormed vocabulary modifiers stat) (path : PathId) :
    pipeline.hasMembersOn path = true ↔ path ∈ pipeline.occupied.map PathOf.id := by
  simp only [hasMembersOn, List.any_eq_true, Pipeline.occupied_eq, List.mem_map, List.mem_filter,
    Bool.and_eq_true, decide_eq_true_eq]
  constructor
  · rintro ⟨entry, member, same, occupied⟩
    have slot := formed.slots entry.1.1 entry.1.2 entry.2
      ((pipeline.slots.get?_eq_some_iff _ _).mpr member)
    exact ⟨entry.2.path, ⟨entry, ⟨member, occupied⟩, rfl⟩, slot.path_id.trans same⟩
  · rintro ⟨_, ⟨entry, ⟨member, occupied⟩, rfl⟩, same⟩
    have slot := formed.slots entry.1.1 entry.1.2 entry.2
      ((pipeline.slots.get?_eq_some_iff _ _).mpr member)
    exact ⟨entry, member, slot.path_id.symm.trans same, occupied⟩

namespace Graph

variable {vocabulary : Vocabulary} {graph : Graph} {slot : SlotId} {filled : Slot}
  {memberships : Nat} {pipeline : Pipeline}

/-- Put a roster in its place. -/
def enterRoster (graph : Graph) (slot : SlotId) (filled : Slot) (memberships : Nat) : Graph :=
  graph.modifyPipeline slot.stat (·.fill slot.form slot.path filled memberships)

theorem pipelines_enterRoster (graph : Graph) (slot : SlotId) (filled : Slot) (memberships : Nat)
    (stat : StatId) : (graph.enterRoster slot filled memberships).pipelines.get? stat =
      if stat = slot.stat then
        (graph.pipelines.get? stat).map (·.fill slot.form slot.path filled memberships)
      else graph.pipelines.get? stat :=
  graph.pipelines.get?_modify _ _ _

/-- A node of a stage is the one that its pipeline lists. -/
theorem WellFormed.node?_of_address (formed : graph.WellFormed vocabulary) {node : NodeId}
    {stat : StatId} {stage : Stage} {path : Path}
    (found : graph.addressOf? node = some (.pipeline stat stage path)) :
    graph.node? stat stage path.id = some node ∧ path.id.at stage = path.id := by
  obtain ⟨pipeline, here, listed⟩ := formed.named _ _ _ _ found
  obtain ⟨_, _, _, place⟩ := formed.listed _ _ _ _ _ here listed
  refine ⟨?_, place⟩
  rw [node?, here, place]
  exact listed

theorem WellFormed.address_of_node? (formed : graph.WellFormed vocabulary) {node : NodeId}
    {stat : StatId} {stage : Stage} {path : PathId}
    (found : graph.node? stat stage path = some node) :
    ∃ full : Path, graph.addressOf? node = some (.pipeline stat stage full) ∧
      full.id = path.at stage := by
  rw [node?, Option.bind_eq_some_iff] at found
  obtain ⟨pipeline, here, listed⟩ := found
  obtain ⟨full, address, same, _⟩ := formed.listed _ _ _ _ _ here listed
  exact ⟨full, address, same⟩

theorem node?_enterRoster (graph : Graph) (slot : SlotId) (filled : Slot) (memberships : Nat) :
    (graph.enterRoster slot filled memberships).node? = graph.node? := by
  funext stat stage path
  rw [node?, node?, pipelines_enterRoster]
  split
  · cases graph.pipelines.get? stat <;> rfl
  · rfl

theorem WellFormed.enterRoster (formed : graph.WellFormed vocabulary) (memberships : Nat)
    (fits : filled.WellFormed vocabulary graph.modifiers slot.stat slot.form slot.path) :
    (graph.enterRoster slot filled memberships).WellFormed vocabulary where
  numbered := formed.numbered
  listed := by
    intro stat pipeline stage path node found listed
    rw [pipelines_enterRoster] at found
    split at found
    · rw [Option.map_eq_some_iff] at found
      obtain ⟨old, here, rfl⟩ := found
      exact formed.listed _ _ _ _ _ here listed
    · exact formed.listed _ _ _ _ _ found listed
  named := by
    intro node stat stage path address
    obtain ⟨pipeline, here, listed⟩ := formed.named _ _ _ _ address
    rw [pipelines_enterRoster, here]
    split
    · exact ⟨_, rfl, listed⟩
    · exact ⟨_, rfl, listed⟩
  addressed := formed.addressed
  contributing := formed.contributing
  contributed := formed.contributed
  present := formed.present
  pipelines := by
    intro stat pipeline found
    rw [pipelines_enterRoster] at found
    split at found
    · next same =>
      subst same
      rw [Option.map_eq_some_iff] at found
      obtain ⟨old, here, rfl⟩ := found
      have before := formed.pipelines _ old here
      refine ⟨before.keyed, before.resolved, before.within, ?_⟩
      intro form path other there
      simp only [Pipeline.fill, Table.get?_insert] at there
      split at there
      · next same =>
        cases same
        cases there
        exact fits
      · exact before.slots form path other there
    · exact formed.pipelines _ _ found
  behaviors := formed.behaviors
  links := formed.links

theorem members_enterRoster (here : graph.pipelines.get? slot.stat = some pipeline) (stat : StatId)
    (form : Form) (path : PathId) :
    (graph.enterRoster slot filled memberships).members stat form path =
      if stat = slot.stat ∧ form = slot.form ∧ path = slot.path then filled.roster.members
      else graph.members stat form path := by
  unfold members
  rw [pipelines_enterRoster]
  by_cases same : stat = slot.stat
  · subst same
    simp only [↓reduceIte, here, Option.map_some, true_and, Pipeline.members, Pipeline.fill,
      Table.get?_insert, Prod.mk.injEq]
    by_cases own : form = slot.form ∧ path = slot.path
    · simp only [if_pos own]
    · simp only [if_neg own]
  · simp [same]

theorem paths_enterRoster (graph : Graph) (slot : SlotId) (filled : Slot) (memberships : Nat)
    {stat : StatId} (other : stat ≠ slot.stat) :
    (graph.enterRoster slot filled memberships).paths stat = graph.paths stat := by
  rw [paths_eq, paths_eq, pipelines_enterRoster, if_neg other]
  rfl

theorem paths_enterRoster_eq (here : graph.pipelines.get? slot.stat = some pipeline) :
    (graph.enterRoster slot filled memberships).paths slot.stat =
      ((pipeline.fill slot.form slot.path filled memberships).occupied ++
        (graph.links.sourcesInto slot.stat).map fun source => PathOf.convertedFrom source).foldl
          insertPath [.main] := by
  rw [paths_eq, pipelines_enterRoster, if_pos rfl, here]
  rfl

/-- The nodes whose plans may change with a roster: the one that collects it, and the sum over
the paths if these change. -/
def RosterDirty (graph : Graph) (slot : SlotId) (filled : Slot) (memberships : Nat)
    (node : NodeId) : Prop :=
  graph.node? slot.stat slot.form.stage slot.path = some node ∨
    graph.node? slot.stat .uncappedSubtotal .main = some node ∧
      (graph.enterRoster slot filled memberships).paths slot.stat ≠ graph.paths slot.stat

theorem alters_enterRoster (formed : graph.WellFormed vocabulary)
    (here : graph.pipelines.get? slot.stat = some pipeline) :
    graph.Alters (graph.enterRoster slot filled memberships) Clean
      (graph.RosterDirty slot filled memberships) := by
  refine Alters.of_content rfl (fun _ => rfl) ?_ (fun _ _ found => found) ?_
  · intro query node found
    cases query with
    | node stat stage path =>
        simp only [located, node?_enterRoster] at found ⊢
        exact found
    | contribution modifier => exact found
  · intro node address clean found
    cases address with
    | contribution modifier => exact ⟨rfl, rfl⟩
    | pipeline stat stage path =>
        refine ⟨?_, rfl⟩
        obtain ⟨located, place⟩ := formed.node?_of_address found
        apply planOf_congr _ place fun other there => (formed.pipelines stat other there).keyed
        constructor
        · rw [pipelines_enterRoster]
          split
          · cases graph.pipelines.get? stat <;> rfl
          · rfl
        · intro form stageOf
          rw [members_enterRoster here, if_neg]
          rintro ⟨rfl, rfl, same⟩
          rw [Stage.form?_eq_some_iff] at stageOf
          subst stageOf
          exact clean (Or.inl (same ▸ located))
        · intro _ member _
          rfl
        · intro _ source _
          exact ⟨rfl, Or.inl rfl⟩
        · intro _ _
          exact ⟨rfl, rfl⟩
        · rintro rfl
          by_cases same : stat = slot.stat
          · subst same
            by_contra changed
            apply clean
            refine Or.inr ⟨?_, changed⟩
            have main : path.id = .main := place.symm
            rw [← main]
            exact located
          · exact graph.paths_enterRoster slot filled memberships same

theorem rosterAudience_enterRoster (here : graph.pipelines.get? slot.stat = some pipeline)
    (heard : filled.roster.subscribers = graph.rosterAudience slot) (other : SlotId) :
    (graph.enterRoster slot filled memberships).rosterAudience other =
      graph.rosterAudience other := by
  by_cases same : other = slot
  · subst same
    rw [← heard]
    simp only [rosterAudience, roster?, pipelines_enterRoster, ↓reduceIte, here, Option.map_some,
      Option.bind_some, Pipeline.fill, Table.get?_insert_self]
  · have kept : (graph.enterRoster slot filled memberships).roster? other = graph.roster? other := by
      unfold roster?
      rw [pipelines_enterRoster]
      split
      · next equal =>
        have elsewhere : (other.form, other.path) ≠ (slot.form, slot.path) := by
          intro both
          cases other
          cases slot
          simp_all
        cases graph.pipelines.get? other.stat with
        | none => rfl
        | some old => simp [Pipeline.fill, Table.get?_insert, elsewhere]
      · rfl
    simp only [rosterAudience, kept]

theorem audience_enterRoster (here : graph.pipelines.get? slot.stat = some pipeline)
    (heard : filled.roster.subscribers = graph.rosterAudience slot) :
    graph.Audience (graph.enterRoster slot filled memberships) where
  staged := fun _ present _ found => ⟨present.cache, found⟩
  watched := fun _ present found _ => ⟨present.cache, found⟩
  rosters := rosterAudience_enterRoster here heard
  subscriptions := rfl
  lastSubscription := rfl
  announcements := rfl
  depth := rfl
  pending := fun _ member _ => member
  once := fun distinct => distinct

theorem submitSlot_rest (pending : Pending) (slot : SlotId) (change : Delta ModifierId) :
    (pending.submitSlot slot change).nodes = pending.nodes ∧
      (pending.submitSlot slot change).depth = pending.depth := by
  unfold Pending.submitSlot
  split <;> exact ⟨rfl, rfl⟩

theorem audience_submitSlot (graph : Graph) (slot : SlotId) (change : Delta ModifierId) :
    graph.Audience (graph.modifyPending (·.submitSlot slot change)) where
  staged := fun _ present _ found => ⟨present.cache, found⟩
  watched := fun _ present found _ => ⟨present.cache, found⟩
  rosters := fun _ => rfl
  subscriptions := rfl
  lastSubscription := rfl
  announcements := rfl
  depth := (submitSlot_rest _ _ _).2
  pending := by
    intro node member _
    simp only [modifyPending, (submitSlot_rest _ _ _).1]
    exact member
  once := by
    intro distinct
    simp only [modifyPending, (submitSlot_rest _ _ _).1]
    exact distinct

/-! ### The sum over the paths -/

/-- The transforms in force for the sum over the paths, as a plan. -/
def summedPlan (stat : StatId) (path : PathId) (sum : Option Value) : Plan (Option Value) :=
  Plan.degrade (.pipeline stat .uncappedSubtotal path)
    (.consult stat .uncappedSubtotal path (Transform.planAll sum))

theorem planOf_uncapped {stat : StatId} {path : Path}
    (found : graph.pipelines.get? stat = some pipeline) :
    graph.planOf (.pipeline stat .uncappedSubtotal path) =
      Plan.summing pipeline.stat .pathTotal (graph.paths pipeline.stat.id)
        (summedPlan stat path.id) := by
  rw [planOf_pipeline found]
  exact Plan.bind_assoc _ _ _

/-- A roster change that neither opens nor closes a branch leaves the stat the same paths. -/
theorem same_paths_enterRoster (formed : graph.WellFormed vocabulary)
    (here : graph.pipelines.get? slot.stat = some pipeline)
    (fits : filled.WellFormed vocabulary graph.modifiers slot.stat slot.form slot.path)
    (before : pipeline.hasMembersOn slot.path = true)
    (after : (pipeline.fill slot.form slot.path filled memberships).hasMembersOn slot.path = true)
    (path : PathId) :
    path ∈ ((graph.enterRoster slot filled memberships).paths slot.stat).map PathOf.id ↔
      path ∈ (graph.paths slot.stat).map PathOf.id := by
  have kept := formed.pipelines _ pipeline here
  have keptLater := (formed.enterRoster memberships fits).pipelines slot.stat
    (pipeline.fill slot.form slot.path filled memberships) (by
      rw [pipelines_enterRoster, if_pos rfl, here]
      rfl)
  rw [kept.hasMembersOn_iff] at before
  rw [keptLater.hasMembersOn_iff] at after
  rw [paths_enterRoster_eq here, paths_eq, here, id_mem_foldl_insertPath, id_mem_foldl_insertPath,
    List.map_append, List.map_append, List.mem_append, List.mem_append]
  have same : path ∈ (pipeline.fill slot.form slot.path filled memberships).occupied.map PathOf.id ↔
      path ∈ pipeline.occupied.map PathOf.id := by
    by_cases own : path = slot.path
    · subst own
      exact iff_of_true after before
    · have others := kept.filter_occupied slot.form memberships fits.path_id
        (decide <| · ≠ slot.path) (by simp)
      have inside (list : List Path) : path ∈ list.map PathOf.id ↔
          path ∈ (list.filter fun other => decide (other.id ≠ slot.path)).map PathOf.id := by
        simp only [List.mem_map, List.mem_filter, decide_eq_true_eq]
        constructor
        · rintro ⟨other, member, rfl⟩
          exact ⟨other, ⟨member, own⟩, rfl⟩
        · rintro ⟨other, ⟨member, _⟩, same⟩
          exact ⟨other, member, same⟩
      rw [inside, others, ← inside]
  rw [same]
  rfl

/-- Such a change reorders the paths, as seen from a sum that knows them all and that the change
does not reach: the total of the path that moves is absent. -/
theorem reorders_enterRoster (flat : vocabulary.Flat) (formed : graph.WellFormed vocabulary)
    (coherent : graph.Coherent Clean) (here : graph.pipelines.get? slot.stat = some pipeline)
    (fits : filled.WellFormed vocabulary graph.modifiers slot.stat slot.form slot.path)
    (branch : slot.path ≠ .main) (before : pipeline.hasMembersOn slot.path = true)
    (after : (pipeline.fill slot.form slot.path filled memberships).hasMembersOn slot.path = true)
    {sum : NodeId} (known : ∀ path ∈ graph.paths slot.stat,
      graph.KnownAt pipeline.stat .pathTotal (graph.Feeds · sum) path)
    (unreached : ∀ node, graph.node? slot.stat slot.form.stage slot.path = some node →
      ¬ graph.Reaches node sum) :
    graph.Reorders pipeline.stat .pathTotal (graph.paths slot.stat)
      ((graph.enterRoster slot filled memberships).paths slot.stat) where
  same := same_paths_enterRoster formed here fits before after
  order := by
    have kept := formed.pipelines _ pipeline here
    have located (path : Path) : graph.located (.node pipeline.stat .pathTotal path) =
        graph.node? slot.stat .pathTotal path.id := by
      rw [Graph.located, if_pos kept.resolved, kept.keyed]
    let present (path : PathId) : Bool :=
      (((graph.node? slot.stat .pathTotal path).bind graph.known).getD none).isSome
    have absent : present slot.path = false := by
      have listed : slot.path ∈ (graph.paths slot.stat).map PathOf.id := by
        rw [paths_eq, here, id_mem_foldl_insertPath, List.map_append, List.mem_append]
        exact Or.inr (Or.inl ((kept.hasMembersOn_iff slot.path).mp before))
      obtain ⟨path, member, same⟩ := List.mem_map.mp listed
      obtain ⟨total, value, found, feeds, knows⟩ := known path member
      rw [located, same] at found
      have none := absent_of_unreached flat formed coherent here branch fits.place found knows
        fun node collects reaches => unreached node collects (reaches.tail feeds)
      simp [present, found, knows, none]
    have selects : (fun path => (graph.cachedAt pipeline.stat .pathTotal path).isSome) =
        fun path : Path => present path.id := by
      funext path
      simp only [cachedAt, located, present]
    rw [selects, paths_enterRoster_eq here, paths_eq, here, filter_foldl_insertPath,
      filter_foldl_insertPath, List.filter_append, List.filter_append,
      kept.filter_occupied slot.form memberships fits.path_id present absent]
    rfl

/-! ### The change of a roster -/

/-- The stage that collects a roster and, if the branches of the stat change, the sum over its
paths. -/
def rosterStarts (graph : Graph) (slot : SlotId) (widens : Bool) : List NodeId :=
  (graph.node? slot.stat slot.form.stage slot.path).toList ++
    if widens then (graph.node? slot.stat .uncappedSubtotal .main).toList else []

/-- Put a roster in its place and invalidate what it starts. -/
def changeRoster (graph : Graph) (slot : SlotId) (filled : Slot) (memberships : Nat)
    (change : Delta ModifierId) (widens : Bool) : Graph :=
  ((graph.enterRoster slot filled memberships).modifyPending (·.submitSlot slot change)
    ).invalidateAll (graph.rosterStarts slot widens)

/-- The sum over the paths, if these change although no branch does. -/
def Unsummed (graph : Graph) (slot : SlotId) (filled : Slot) (memberships : Nat) (widens : Bool)
    (node : NodeId) : Prop :=
  widens = false ∧ graph.node? slot.stat .uncappedSubtotal .main = some node ∧
    (graph.enterRoster slot filled memberships).paths slot.stat ≠ graph.paths slot.stat

theorem shape_changeRoster (graph : Graph) (slot : SlotId) (filled : Slot) (memberships : Nat)
    (change : Delta ModifierId) (widens : Bool) :
    (graph.changeRoster slot filled memberships change widens).shape =
      (graph.enterRoster slot filled memberships).shape := by
  rw [changeRoster, (fades_invalidateAll _ _).shape, shape_modifyPending]

theorem alters_changeRoster (formed : graph.WellFormed vocabulary)
    (here : graph.pipelines.get? slot.stat = some pipeline) (change : Delta ModifierId)
    (widens : Bool) :
    graph.Alters (graph.changeRoster slot filled memberships change widens)
      (fun node => node ∈ graph.dependents (graph.rosterStarts slot widens))
      (graph.Unsummed slot filled memberships widens) := by
  have entered : graph.Alters (graph.enterRoster slot filled memberships) Clean
      (graph.RosterDirty slot filled memberships) := alters_enterRoster formed here
  have submitted : graph.Alters ((graph.enterRoster slot filled memberships).modifyPending
      (·.submitSlot slot change)) Clean (graph.RosterDirty slot filled memberships) :=
    { entered with
      view := by
        intro node address spared clean found
        rw [planOf_of_shape (shape_modifyPending _ _), transformsOf_of_shape (shape_modifyPending _ _)]
        exact entered.view node address spared clean found }
  apply submitted.invalidate
  rintro node _ _ (collects | ⟨sums, changed⟩)
  · left
    simp [rosterStarts, collects]
  · cases widens with
    | true =>
        left
        simp [rosterStarts, sums]
    | false => exact Or.inr ⟨rfl, sums, changed⟩

theorem audience_changeRoster (here : graph.pipelines.get? slot.stat = some pipeline)
    (heard : filled.roster.subscribers = graph.rosterAudience slot) (change : Delta ModifierId)
    (widens : Bool) :
    graph.Audience (graph.changeRoster slot filled memberships change widens) :=
  ((audience_enterRoster here heard).trans (audience_submitSlot _ slot change)).trans
    (.of_grows (.of_fades (fades_invalidateAll _ _)))

theorem resting_changeRoster (resting : graph.Resting vocabulary)
    (fits : filled.WellFormed vocabulary graph.modifiers slot.stat slot.form slot.path)
    (change : Delta ModifierId) (widens : Bool) :
    (graph.changeRoster slot filled memberships change widens).Resting vocabulary where
  formed := (resting.formed.enterRoster memberships fits).of_shape
    (graph.shape_changeRoster slot filled memberships change widens)
  stacked := by
    have entered : ((graph.enterRoster slot filled memberships).modifyPending
        (·.submitSlot slot change)).Stacked :=
      ⟨resting.stacked.computing, resting.stacked.distinct, resting.stacked.outdated⟩
    exact entered.of_fades (fades_invalidateAll _ _)
  idle := (fades_invalidateAll _ _).evaluating.trans resting.idle

/-- The plan of an unsummed node still adds up the same totals, in the order of the new paths. -/
theorem plan_unsummed (formed : graph.WellFormed vocabulary)
    (here : graph.pipelines.get? slot.stat = some pipeline) (filled : Slot) (memberships : Nat)
    (change : Delta ModifierId) (widens : Bool) {node : NodeId}
    (sums : graph.node? slot.stat .uncappedSubtotal .main = some node) :
    ∃ full : Path, graph.addressOf? node = some (.pipeline slot.stat .uncappedSubtotal full) ∧
      graph.planOf (.pipeline slot.stat .uncappedSubtotal full) =
        Plan.summing pipeline.stat .pathTotal (graph.paths slot.stat)
          (summedPlan slot.stat full.id) ∧
      (graph.changeRoster slot filled memberships change widens).planOf
          (.pipeline slot.stat .uncappedSubtotal full) =
        Plan.summing pipeline.stat .pathTotal
          ((graph.enterRoster slot filled memberships).paths slot.stat)
          (summedPlan slot.stat full.id) := by
  obtain ⟨full, address, _⟩ := formed.address_of_node? sums
  have kept := formed.pipelines _ pipeline here
  have later : (graph.enterRoster slot filled memberships).pipelines.get? slot.stat =
      some (pipeline.fill slot.form slot.path filled memberships) := by
    rw [pipelines_enterRoster, if_pos rfl, here]
    rfl
  refine ⟨full, address, ?_, ?_⟩
  · rw [planOf_uncapped here, kept.keyed]
  · rw [planOf_of_shape (graph.shape_changeRoster _ _ _ _ _), planOf_uncapped later]
    show Plan.summing pipeline.stat _ (paths _ pipeline.stat.id) _ = _
    rw [kept.keyed]

theorem summedPlan_never_insists (stat : StatId) (path : PathId) (value : Option Value)
    (query : Query) : ¬ (summedPlan stat path value).Insists query := by
  intro insists
  cases insists

theorem summedPlan_resembles (stat : StatId) (path : PathId) {first second : Option Value}
    (alike : AlikePresent first second) :
    Plan.Resembles AlikePresent (summedPlan stat path first) (summedPlan stat path second) :=
  .degrade (.consult fun transforms => Transform.planAll_resembles alike transforms) _

/-- A roster on the main path does not change the paths. -/
theorem paths_enterRoster_main (formed : graph.WellFormed vocabulary)
    (here : graph.pipelines.get? slot.stat = some pipeline) (fits : filled.path.id = slot.path)
    (main : slot.path = .main) :
    (graph.enterRoster slot filled memberships).paths slot.stat = graph.paths slot.stat := by
  have listed : slot.path ∈ [(PathOf.main : Path)].map PathOf.id := by simp [main]
  rw [paths_eq, paths_eq, pipelines_enterRoster, if_pos rfl, here, foldl_insertPath_listed listed]
  simp only [Option.map_some, Option.elim_some, List.filter_append]
  rw [(formed.pipelines _ pipeline here).filter_occupied slot.form memberships fits
    (decide <| · ≠ slot.path) (by simp), ← List.filter_append, ← foldl_insertPath_listed listed]
  rfl

/-- What a sum over the paths asks for does not depend on the rosters. -/
theorem asks_changeRoster {change : Delta ModifierId} {widens : Bool} (resting : (graph.changeRoster slot filled memberships change widens).Resting
      vocabulary) {node : NodeId} {full : Path}
    (address : graph.addressOf? node = some (.pipeline slot.stat .uncappedSubtotal full)) :
    ((graph.changeRoster slot filled memberships change widens).planOf
      (.pipeline slot.stat .uncappedSubtotal full)).Asks
        (graph.scopeOf vocabulary (.pipeline slot.stat .uncappedSubtotal full)) := by
  have shape := graph.shape_changeRoster slot filled memberships change widens
  have found : (graph.changeRoster slot filled memberships change widens).addressOf? node =
      some (.pipeline slot.stat .uncappedSubtotal full) := by
    rw [addressOf?_of_shape shape]
    exact address
  apply (planOf_asks resting.formed found).mono
  · intro query asked
    cases query with
    | node stat stage path =>
        refine ⟨asked.1.imp_right ?_, asked.2⟩
        rintro ⟨other, there, same⟩
        have pipelines : (graph.changeRoster slot filled memberships change widens).pipelines =
            (graph.enterRoster slot filled memberships).pipelines := congrArg Shape.pipelines shape
        rw [pipelines, pipelines_enterRoster] at there
        split at there
        · rw [Option.map_eq_some_iff] at there
          obtain ⟨old, before, rfl⟩ := there
          exact ⟨old, before, same⟩
        · exact ⟨other, there, same⟩
    | contribution modifier =>
        obtain ⟨form, stageOf, _⟩ := asked
        cases stageOf
  · exact fun _ _ _ here => here
  · exact fun _ within => within

section Turning

variable {change : Delta ModifierId} {widens : Bool} (sound : graph.Sound vocabulary)
  (here : graph.pipelines.get? slot.stat = some pipeline)
  (fits : filled.WellFormed vocabulary graph.modifiers slot.stat slot.form slot.path)
  (branch : widens = true ∨ slot.path = .main ∨ pipeline.hasMembersOn slot.path = true ∧
    (pipeline.fill slot.form slot.path filled memberships).hasMembersOn slot.path = true)
include sound here fits branch

/-- A sum is left alone only if the branch of the roster is there before and after. -/
theorem occupied_unsummed {node : NodeId}
    (unsummed : graph.Unsummed slot filled memberships widens node) :
    slot.path ≠ .main ∧ pipeline.hasMembersOn slot.path = true ∧
      (pipeline.fill slot.form slot.path filled memberships).hasMembersOn slot.path = true := by
  obtain ⟨narrow, _, changed⟩ := unsummed
  have apart : slot.path ≠ .main := fun main =>
    changed (paths_enterRoster_main sound.formed here fits.path_id main)
  rcases branch with widened | main | both
  · rw [narrow] at widened
    contradiction
  · exact absurd main apart
  · exact ⟨apart, both⟩

/-- Once a sum that is left alone knows its totals, the new paths are the old ones reordered. -/
theorem reorders_unsummed (faithful : vocabulary.Faithful) (flat : vocabulary.Flat) {node : NodeId}
    (unsummed : graph.Unsummed slot filled memberships widens node)
    (spared : node ∉ graph.dependents (graph.rosterStarts slot widens))
    (known : ∀ path ∈ graph.paths slot.stat,
      graph.KnownAt pipeline.stat .pathTotal (graph.Feeds · node) path) :
    graph.Reorders pipeline.stat .pathTotal (graph.paths slot.stat)
      ((graph.enterRoster slot filled memberships).paths slot.stat) := by
  obtain ⟨apart, before, after⟩ := occupied_unsummed sound here fits branch unsummed
  apply reorders_enterRoster flat sound.formed (sound.clean faithful flat) here fits apart before
    after known
  -- the stage that collects the roster is invalidated, so it does not reach the sum
  intro start collects reaches
  apply spared
  refine (graph.mem_dependents_iff _ node).mpr ⟨start, by simp [rosterStarts, collects], ?_,
    reaches⟩
  obtain ⟨full, address, _⟩ := sound.formed.address_of_node? collects
  exact contains_of_addressed address

/-- A sum that is left alone still follows from the same totals. -/
theorem justified_unsummed (faithful : vocabulary.Faithful) (flat : vocabulary.Flat) {node : NodeId}
    {value : Option Value} (unsummed : graph.Unsummed slot filled memberships widens node)
    (later : (graph.changeRoster slot filled memberships change widens).known node = some value) :
    (graph.changeRoster slot filled memberships change widens).Justified node value := by
  have alters : graph.Alters (graph.changeRoster slot filled memberships change widens) _ _ :=
    alters_changeRoster sound.formed here change widens
  have resting : (graph.changeRoster slot filled memberships change widens).Resting vocabulary :=
    resting_changeRoster sound.toResting fits change widens
  have spared : node ∉ graph.dependents (graph.rosterStarts slot widens) := by
    intro reached
    rw [alters.dropped node reached] at later
    contradiction
  obtain ⟨full, address, plan, planLater⟩ := plan_unsummed sound.formed here filled memberships
    change widens unsummed.2.1
  rw [alters.known node spared] at later
  obtain ⟨own, reads, place, yields, exact'⟩ :=
    (sound.clean faithful flat).justified node value later id
  rw [address] at place
  cases place
  rw [plan] at yields
  obtain ⟨_, first, last, before, _, rfl⟩ := Plan.Yields.of_bind yields
  have known := before.of_gather.2.1
  have moved := reorders_unsummed sound here fits branch faithful flat unsummed spared
    fun path member => by
      obtain ⟨total, cached, found, inside, knows⟩ := known path member
      exact ⟨total, cached, found, (exact' total).mp (List.mem_append_left _ inside), knows⟩
  obtain ⟨reread, again, same⟩ := moved.yields yields
  rw [← planLater] at again
  have fed {producer : NodeId} (member : producer ∈ reread) :
      producer ∉ graph.dependents (graph.rosterStarts slot widens) :=
    alters.spared spared ((exact' producer).mp ((same producer).mp member))
  refine ⟨_, reread, alters.addressed node _ spared address, ?_, ?_⟩
  · apply again.transfer sound.formed (asks_changeRoster resting address)
    · exact fun query producer member found => alters.located query producer (fed member) found
    · intro producer cached member held
      rw [alters.known producer (fed member)]
      exact held
    · exact transformsOf_of_shape (graph.shape_changeRoster slot filled memberships change widens) ▸ rfl
  · intro producer
    rw [same, exact', alters.feeds producer node spared]

/-- A sum that is left alone is held back by what held it back. -/
theorem held_unsummed {node : NodeId} {stuck : NodeId → Prop}
    (unsummed : graph.Unsummed slot filled memberships widens node)
    (spared : node ∉ graph.dependents (graph.rosterStarts slot widens))
    (held : graph.Held stuck node) :
    (graph.changeRoster slot filled memberships change widens).Held
      (fun node => stuck node ∧ node ∉ graph.dependents (graph.rosterStarts slot widens)) node := by
  have alters : graph.Alters (graph.changeRoster slot filled memberships change widens) _ _ :=
    alters_changeRoster sound.formed here change widens
  have resting : (graph.changeRoster slot filled memberships change widens).Resting vocabulary :=
    resting_changeRoster sound.toResting fits change widens
  obtain ⟨full, address, plan, planLater⟩ := plan_unsummed sound.formed here filled memberships
    change widens unsummed.2.1
  obtain ⟨own, place, held⟩ := held
  rw [address] at place
  cases place
  rw [plan] at held
  obtain ⟨_, before, after⟩ := occupied_unsummed sound here fits branch unsummed
  have same := same_paths_enterRoster sound.formed here fits before after
  have again := held_summing (sound.formed.pipelines _ pipeline here).resolved
    (fun value query => summedPlan_never_insists _ _ value query)
    (fun _ _ alike doomed => doomed.resemble (summedPlan_resembles _ _ alike)) same held
  rw [← planLater] at again
  refine ⟨_, alters.addressed node _ spared address, ?_⟩
  rcases again with doomed | ⟨query, producer, insists, located, feeds, bars⟩
  · left
    apply Plan.Doomed.mono _ (fun producer => (alters.feeds producer node spared).mpr)
      fun _ bars => bars
    apply doomed.transfer sound.formed (asks_changeRoster resting address)
    · exact fun query producer feeds found =>
        alters.located query producer (alters.spared spared feeds) found
    · intro producer cached feeds held
      rw [alters.known producer (alters.spared spared feeds)]
      exact held
    · exact fun producer feeds bars => ⟨bars, alters.spared spared feeds⟩
    · exact transformsOf_of_shape (graph.shape_changeRoster slot filled memberships change widens) ▸ rfl
  · right
    have unreached := alters.spared spared feeds
    exact ⟨query, producer, insists, alters.located query producer unreached located,
      (alters.feeds producer node spared).mpr feeds, bars, unreached⟩

/-- The change of a roster is a turn. The sum over the paths has to be invalidated unless the
roster is on the main path or its branch is there before and after. -/
theorem turns_changeRoster (heard : filled.roster.subscribers = graph.rosterAudience slot) :
    Turns vocabulary graph (graph.changeRoster slot filled memberships change widens) := by
  apply Turns.of_alters sound (resting_changeRoster sound.toResting fits change widens)
    (audience_changeRoster here heard change widens)
    fun _ => alters_changeRoster sound.formed here change widens
  · intro node _ reached
    exact (pending_invalidateAll _ _ node).mpr (Or.inr reached)
  · intro faithful flat node value unsummed later
    exact justified_unsummed sound here fits branch faithful flat unsummed later
  · intro _ node stuck unsummed spared stalled inside
    obtain ⟨_, own | held⟩ := stalled node inside
    · exact own.elim
    · exact held_unsummed sound here fits branch unsummed spared held

end Turning

end Graph
end CharacterSheet
