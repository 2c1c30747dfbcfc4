import CharacterSheet.Proofs.Change.Resemblance
import CharacterSheet.Proofs.Change.Turning

/-!
Contract: the order of the paths of a stat does not matter where it may change.

Owns:
- lists of paths without repetition, and what stays of them when one path moves;
- plans that read one stage on a list of paths: what they yield, and when they are doomed;
- neither changes when a path without a value moves, and the latter not when any path moves.

Roster changes can move a path, since paths come in the order of their first roster with a
member. Nothing reads that order from a cache: where the subtotal is not recalculated, the
total of the moved path is absent.
-/

namespace CharacterSheet

/-! ### Lists of paths -/

theorem any_id_iff {paths : List Path} {path : PathId} :
    (paths.any fun other => decide (other.id = path)) = true ↔ path ∈ paths.map PathOf.id := by
  simp

theorem id_mem_foldl_insertPath {items paths : List Path} {path : PathId} :
    path ∈ (items.foldl insertPath paths).map PathOf.id ↔
      path ∈ paths.map PathOf.id ∨ path ∈ items.map PathOf.id := by
  induction items generalizing paths with
  | nil => simp
  | cons head rest inductionHypothesis =>
      rw [List.foldl_cons, inductionHypothesis, List.map_cons, List.mem_cons, ← or_assoc]
      have once : path ∈ (insertPath paths head).map PathOf.id ↔
          path ∈ paths.map PathOf.id ∨ path = head.id := by
        unfold insertPath
        split
        · next listed =>
          rw [any_id_iff] at listed
          constructor
          · exact Or.inl
          · rintro (before | rfl)
            · exact before
            · exact listed
        · simp
      rw [once]

/-- Selecting paths by their identities commutes with joining them. -/
theorem filter_foldl_insertPath (keep : PathId → Bool) (items paths : List Path) :
    (items.foldl insertPath paths).filter (keep ·.id) =
      (items.filter (keep ·.id)).foldl insertPath (paths.filter (keep ·.id)) := by
  induction items generalizing paths with
  | nil => rfl
  | cons head rest inductionHypothesis =>
      rw [List.foldl_cons, inductionHypothesis]
      by_cases kept : keep head.id = true
      · have chosen : (head :: rest).filter (keep ·.id) = head :: rest.filter (keep ·.id) :=
          List.filter_cons_of_pos kept
        rw [chosen, List.foldl_cons]
        congr 1
        have same : (paths.any fun path => decide (path.id = head.id)) =
            (paths.filter (keep ·.id)).any fun path => decide (path.id = head.id) := by
          rw [Bool.eq_iff_iff, any_id_iff, any_id_iff]
          simp only [List.mem_map, List.mem_filter]
          constructor
          · rintro ⟨path, member, equal⟩
            exact ⟨path, ⟨member, by rw [equal]; exact kept⟩, equal⟩
          · rintro ⟨path, ⟨member, _⟩, equal⟩
            exact ⟨path, member, equal⟩
        unfold insertPath
        rw [← same]
        split
        · rfl
        · rw [List.filter_append]
          simp [kept]
      · have skipped : (head :: rest).filter (keep ·.id) = rest.filter (keep ·.id) :=
          List.filter_cons_of_neg kept
        rw [skipped]
        congr 1
        unfold insertPath
        split
        · rfl
        · rw [List.filter_append]
          simp [kept]

/-- A path that is listed already is not joined again. -/
theorem foldl_insertPath_listed {path : PathId} {items paths : List Path}
    (listed : path ∈ paths.map PathOf.id) :
    items.foldl insertPath paths = (items.filter (decide <| ·.id ≠ path)).foldl insertPath paths := by
  induction items generalizing paths with
  | nil => rfl
  | cons head rest inductionHypothesis =>
      by_cases same : head.id = path
      · have skipped : insertPath paths head = paths := by
          unfold insertPath
          rw [if_pos (any_id_iff.mpr (same ▸ listed))]
        rw [List.filter_cons_of_neg (by simpa using same), List.foldl_cons, skipped,
          inductionHypothesis listed]
      · rw [List.filter_cons_of_pos (by simpa using same), List.foldl_cons, List.foldl_cons]
        apply inductionHypothesis
        show path ∈ ([head].foldl insertPath paths).map PathOf.id
        exact id_mem_foldl_insertPath.mpr (Or.inl listed)

/-- The paths of the rosters with members. -/
def Pipeline.occupied (pipeline : Pipeline) : List Path :=
  (pipeline.slots.values.filter fun slot => !slot.roster.members.isEmpty).map (·.path)

theorem Graph.paths_eq (graph : Graph) (stat : StatId) :
    graph.paths stat =
      (((graph.pipelines.get? stat).elim [] (·.occupied)) ++
        (graph.links.sourcesInto stat).map fun source => PathOf.convertedFrom source).foldl insertPath [.main] := by
  unfold paths
  rw [List.foldl_append, List.foldl_map]
  cases graph.pipelines.get? stat with
  | none => rfl
  | some pipeline =>
      simp only [Pipeline.ownPaths, Pipeline.occupied, Option.elim_some, List.foldl_map]

theorem sumPresent_filter {α : Type} [Add α] (values : List (Option α)) :
    sumPresent (values.filter Option.isSome) = sumPresent values := by
  unfold sumPresent foldPresent
  generalize (none : Option α) = joined
  induction values generalizing joined with
  | nil => rfl
  | cons head rest inductionHypothesis =>
      cases head with
      | none =>
          rw [List.filter_cons_of_neg (by simp), inductionHypothesis, List.foldl_cons]
          cases joined <;> rfl
      | some value =>
          rw [List.filter_cons_of_pos rfl, List.foldl_cons, List.foldl_cons]
          exact inductionHypothesis _

/-! ### Reading one stage on several paths -/

namespace Plan

variable {α β : Type} {graph : Graph} {fed barred : NodeId → Prop} {stat : Stat} {stage : Stage}

theorem Yields.of_bind {plan : Plan α} {next : α → Plan β} {value : β} {reads : List NodeId}
    (yields : (plan.bind next).Yields graph value reads) :
    ∃ result first later, plan.Yields graph result first ∧
      (next result).Yields graph value later ∧ reads = first ++ later := by
  induction plan generalizing reads with
  | finish outcome =>
      cases outcome with
      | ok result => exact ⟨result, [], reads, .finish, yields, rfl⟩
      | error fault => cases yields
  | ask query resume inductionHypothesis =>
      cases yields with
      | read found known rest =>
          obtain ⟨result, first, later, before, after, rfl⟩ := inductionHypothesis _ rest
          exact ⟨result, _ :: first, later, .read found known before, after, rfl⟩
  | consult stat stage path resume inductionHypothesis =>
      cases yields with
      | consult rest =>
          obtain ⟨result, first, later, before, after, same⟩ := inductionHypothesis _ rest
          exact ⟨result, first, later, .consult before, after, same⟩
  | note record rest inductionHypothesis =>
      cases yields with
      | note rest =>
          obtain ⟨result, first, later, before, after, same⟩ := inductionHypothesis rest
          exact ⟨result, first, later, .note before, after, same⟩

theorem Yields.bind {plan : Plan α} {next : α → Plan β} {result : α} {value : β}
    {first later : List NodeId} (before : plan.Yields graph result first)
    (after : (next result).Yields graph value later) :
    (plan.bind next).Yields graph value (first ++ later) := by
  induction before with
  | finish => exact after
  | note _ inductionHypothesis => exact .note (inductionHypothesis after)
  | consult _ inductionHypothesis => exact .consult (inductionHypothesis after)
  | read found known _ inductionHypothesis => exact .read found known (inductionHypothesis after)

theorem Yields.of_read {path : Path} {next : Option Value → Plan β} {value : β}
    {reads : List NodeId} (yields : ((Plan.read stat stage path).bind next).Yields graph value reads) :
    ∃ node cached later, graph.located (.node stat stage path) = some node ∧
      graph.known node = some cached ∧ (next cached).Yields graph value later ∧
        reads = node :: later := by
  cases yields with
  | read found known rest => exact ⟨_, _, _, found, known, rest, rfl⟩

end Plan

namespace Graph

variable {graph : Graph} {stat : Stat} {stage : Stage}

/-- The cached value of a stage; absent if it has none. -/
def cachedAt (graph : Graph) (stat : Stat) (stage : Stage) (path : Path) : Option Value :=
  ((graph.located (.node stat stage path)).bind graph.known).getD none

/-- A stage that has a node with a cached value. -/
def KnownAt (graph : Graph) (stat : Stat) (stage : Stage) (reached : NodeId → Prop) (path : Path) :
    Prop :=
  ∃ node cached, graph.located (.node stat stage path) = some node ∧ reached node ∧
    graph.known node = some cached

theorem located_id (graph : Graph) {path other : Path} (same : path.id = other.id) :
    graph.located (.node stat stage path) = graph.located (.node stat stage other) := by
  simp only [located, same]

theorem KnownAt.of_id {reached : NodeId → Prop} {path other : Path}
    (known : graph.KnownAt stat stage reached path) (same : other.id = path.id) :
    graph.KnownAt stat stage reached other := by
  obtain ⟨node, cached, found, within, known⟩ := known
  exact ⟨node, cached, by rw [graph.located_id same]; exact found, within, known⟩

theorem cachedAt_id (graph : Graph) {path other : Path} (same : path.id = other.id) :
    graph.cachedAt stat stage path = graph.cachedAt stat stage other := by
  simp only [cachedAt, graph.located_id same]

end Graph

namespace Plan

open CharacterSheet.Graph

variable {graph : Graph} {fed barred : NodeId → Prop} {stat : Stat} {stage : Stage}

theorem yields_gather {paths : List Path}
    (known : ∀ path ∈ paths, graph.KnownAt stat stage (fun _ => True) path) :
    ∃ reads, (gather (read stat stage) paths).Yields graph
      (paths.map (graph.cachedAt stat stage)) reads ∧
        ∀ node, node ∈ reads ↔ ∃ path ∈ paths, graph.located (.node stat stage path) = some node := by
  induction paths with
  | nil => exact ⟨[], .finish, by simp⟩
  | cons head rest inductionHypothesis =>
      obtain ⟨node, cached, found, _, here⟩ := known head List.mem_cons_self
      obtain ⟨reads, yields, exact'⟩ := inductionHypothesis fun path member =>
        known path (List.mem_cons_of_mem _ member)
      have value : graph.cachedAt stat stage head = cached := by
        simp [cachedAt, found, here]
      refine ⟨node :: reads, ?_, ?_⟩
      · rw [List.map_cons, value]
        refine .read found here ?_
        have whole : ((gather (read stat stage) rest).bind fun others =>
            finish (.ok (cached :: others))).Yields graph
              (cached :: rest.map (graph.cachedAt stat stage)) (reads ++ []) :=
          yields.bind .finish
        rw [List.append_nil] at whole
        exact whole
      · intro other
        simp only [List.mem_cons, exact', or_and_right, exists_or, exists_eq_left, found,
          Option.some.injEq, @eq_comm _ node other]

theorem Yields.of_gather {paths : List Path} {values : List (Option Value)} {reads : List NodeId}
    (yields : (gather (Plan.read stat stage) paths).Yields graph values reads) :
    values = paths.map (graph.cachedAt stat stage) ∧
      (∀ path ∈ paths, graph.KnownAt stat stage (· ∈ reads) path) ∧
        ∀ node ∈ reads, ∃ path ∈ paths, graph.located (.node stat stage path) = some node := by
  induction paths generalizing values reads with
  | nil =>
      cases yields
      simp
  | cons head rest inductionHypothesis =>
      obtain ⟨node, cached, later, found, known, tail, rfl⟩ := Yields.of_read yields
      obtain ⟨others, first, last, before, after, rfl⟩ := Yields.of_bind tail
      cases after
      obtain ⟨rfl, each, back⟩ := inductionHypothesis before
      have value : graph.cachedAt stat stage head = cached := by
        simp [cachedAt, found, known]
      refine ⟨by rw [List.map_cons, value], ?_, ?_⟩
      · rintro path (_ | ⟨_, member⟩)
        · exact ⟨node, cached, found, List.mem_cons_self, known⟩
        · obtain ⟨other, value, there, inside, held⟩ := each path member
          exact ⟨other, value, there, by simp [inside], held⟩
      · intro other member
        simp only [List.append_nil, List.mem_cons] at member
        rcases member with rfl | member
        · exact ⟨head, List.mem_cons_self, found⟩
        · obtain ⟨path, listed, there⟩ := back other member
          exact ⟨path, List.mem_cons_of_mem _ listed, there⟩

/-- To gather what follows a first result and go on is to gather and go on with both. -/
theorem bind_gather {β : Type} (value : Option Value) (paths : List Path)
    (next : List (Option Value) → Plan β) :
    ((gather (Plan.read stat stage) paths).bind fun others =>
      .finish (.ok (value :: others))).bind next =
        (gather (Plan.read stat stage) paths).bind fun others => next (value :: others) :=
  Plan.bind_assoc (gather (Plan.read stat stage) paths)
    (fun others => .finish (.ok (value :: others))) next

theorem Doomed.of_gather {β : Type} {paths : List Path} {next : List (Option Value) → Plan β}
    (resolved : stat.isResolved = true)
    (doomed : ((gather (Plan.read stat stage) paths).bind next).Doomed graph fed barred) :
    (∃ path ∈ paths, ∃ node, graph.located (.node stat stage path) = some node ∧ fed node ∧
      barred node) ∨
        (∀ path ∈ paths, graph.KnownAt stat stage fed path) ∧
          (next (paths.map (graph.cachedAt stat stage))).Doomed graph fed barred := by
  induction paths generalizing next with
  | nil => exact Or.inr ⟨by simp, doomed⟩
  | cons head rest inductionHypothesis =>
      cases doomed with
      | refused unresolved =>
          rw [resolved] at unresolved
          contradiction
      | barred found feeds bars => exact Or.inl ⟨head, List.mem_cons_self, _, found, feeds, bars⟩
      | @read _ _ node cached found feeds known later =>
          have value : graph.cachedAt stat stage head = cached := by
            simp [cachedAt, found, known]
          have doomedRest : ((gather (Plan.read stat stage) rest).bind
              fun others => next (cached :: others)).Doomed graph fed barred := by
            rw [← bind_gather]
            exact later
          rcases inductionHypothesis doomedRest with ⟨path, member, stuck⟩ | ⟨each, after⟩
          · exact Or.inl ⟨path, List.mem_cons_of_mem _ member, stuck⟩
          · right
            rw [List.map_cons, value]
            refine ⟨?_, after⟩
            rintro path (_ | ⟨_, member⟩)
            · exact ⟨node, cached, found, feeds, known⟩
            · exact each path member

theorem doomed_gather {β : Type} {paths : List Path} {next : List (Option Value) → Plan β}
    (known : ∀ path ∈ paths, graph.KnownAt stat stage fed path)
    (doomed : (next (paths.map (graph.cachedAt stat stage))).Doomed graph fed barred) :
    ((gather (Plan.read stat stage) paths).bind next).Doomed graph fed barred := by
  induction paths generalizing next with
  | nil => exact doomed
  | cons head rest inductionHypothesis =>
      obtain ⟨node, cached, found, feeds, here⟩ := known head List.mem_cons_self
      have value : graph.cachedAt stat stage head = cached := by
        simp [cachedAt, found, here]
      rw [List.map_cons, value] at doomed
      have later : ((gather (Plan.read stat stage) rest).bind
          fun others => next (cached :: others)).Doomed graph fed barred :=
        inductionHypothesis (fun path member => known path (List.mem_cons_of_mem _ member)) doomed
      refine .read found feeds here ?_
      rw [← bind_gather] at later
      exact later

theorem insists_gather {β : Type} {paths : List Path} {path : Path}
    {next : List (Option Value) → Plan β} (member : path ∈ paths) :
    ((gather (Plan.read stat stage) paths).bind next).Insists (.node stat stage path) := by
  induction paths generalizing next with
  | nil => contradiction
  | cons head rest inductionHypothesis =>
      rcases List.mem_cons.mp member with rfl | later
      · exact .here
      · refine .later ?_
        intro value
        have inside : ((gather (Plan.read stat stage) rest).bind
            fun others => next (value :: others)).Insists (.node stat stage path) :=
          inductionHypothesis later
        rw [← bind_gather] at inside
        exact inside

theorem Insists.of_gather {β : Type} {paths : List Path} {query : Query}
    {next : List (Option Value) → Plan β} (never : ∀ values, ¬ (next values).Insists query)
    (insists : ((gather (Plan.read stat stage) paths).bind next).Insists query) :
    ∃ path ∈ paths, query = .node stat stage path := by
  induction paths generalizing next with
  | nil => exact absurd insists (never [])
  | cons head rest inductionHypothesis =>
      cases insists with
      | here => exact ⟨head, List.mem_cons_self, rfl⟩
      | later each =>
          have inside : ((gather (Plan.read stat stage) rest).bind
              fun others => next (none :: others)).Insists query := by
            rw [← bind_gather]
            exact each none
          obtain ⟨path, member, same⟩ := inductionHypothesis (fun values => never _) inside
          exact ⟨path, List.mem_cons_of_mem _ member, same⟩

end Plan

/-! ### Moving a path -/

/-- Add up a stage over several paths. -/
def Plan.summing {β : Type} (stat : Stat) (stage : Stage) (paths : List Path)
    (next : Option Value → Plan β) : Plan β :=
  (Plan.gather (Plan.read stat stage) paths).bind fun totals => next (sumPresent totals)

namespace Graph

variable {graph : Graph} {fed barred : NodeId → Prop} {stat : Stat} {stage : Stage}
  {paths others : List Path}

/-- Two lists have the same paths, up to metadata and the places of absent values. -/
structure Reorders (graph : Graph) (stat : Stat) (stage : Stage) (paths others : List Path) :
    Prop where
  same : ∀ path, path ∈ others.map PathOf.id ↔ path ∈ paths.map PathOf.id
  order : others.filter (fun path => (graph.cachedAt stat stage path).isSome) =
    paths.filter fun path => (graph.cachedAt stat stage path).isSome

theorem Reorders.sum (reorders : graph.Reorders stat stage paths others) :
    sumPresent (others.map (graph.cachedAt stat stage)) =
      sumPresent (paths.map (graph.cachedAt stat stage)) := by
  rw [← sumPresent_filter, ← sumPresent_filter (paths.map _), List.filter_map, List.filter_map]
  exact congrArg (fun chosen => sumPresent (List.map _ chosen)) reorders.order

theorem Reorders.counterpart (reorders : graph.Reorders stat stage paths others) {path : Path}
    (member : path ∈ paths) : ∃ other ∈ others, other.id = path.id := by
  obtain ⟨other, listed, same⟩ := List.mem_map.mp ((reorders.same path.id).mpr
    (List.mem_map_of_mem member))
  exact ⟨other, listed, same⟩

theorem Reorders.origin (reorders : graph.Reorders stat stage paths others) {other : Path}
    (member : other ∈ others) : ∃ path ∈ paths, other.id = path.id := by
  obtain ⟨path, listed, same⟩ := List.mem_map.mp ((reorders.same other.id).mp
    (List.mem_map_of_mem member))
  exact ⟨path, listed, same.symm⟩

/-- A sum over paths yields the same from the same nodes after a path without a value moved. -/
theorem Reorders.yields {β : Type} {next : Option Value → Plan β} {value : β}
    {reads : List NodeId} (reorders : graph.Reorders stat stage paths others)
    (yields : (Plan.summing stat stage paths next).Yields graph value reads) :
    ∃ reread, (Plan.summing stat stage others next).Yields graph value reread ∧
      ∀ node, node ∈ reread ↔ node ∈ reads := by
  obtain ⟨values, first, later, before, after, rfl⟩ := Plan.Yields.of_bind yields
  obtain ⟨rfl, each, back⟩ := before.of_gather
  have known (other : Path) (member : other ∈ others) :
      graph.KnownAt stat stage (· ∈ first) other := by
    obtain ⟨path, listed, same⟩ := reorders.origin member
    exact (each path listed).of_id same
  obtain ⟨reread, gathered, exact'⟩ := Plan.yields_gather (fun other member => by
    obtain ⟨node, cached, found, _, held⟩ := known other member
    exact ⟨node, cached, found, trivial, held⟩)
  rw [← reorders.sum] at after
  refine ⟨reread ++ later, gathered.bind after, ?_⟩
  intro node
  have same : node ∈ reread ↔ node ∈ first := by
    rw [exact']
    constructor
    · rintro ⟨other, member, found⟩
      obtain ⟨own, _, there, inside, _⟩ := known other member
      rw [found] at there
      cases there
      exact inside
    · intro member
      obtain ⟨path, listed, found⟩ := back node member
      obtain ⟨other, inside, same⟩ := reorders.counterpart listed
      exact ⟨other, inside, by rw [graph.located_id same]; exact found⟩
  simp only [List.mem_append, same]

/-- A sum over paths that is held back stays held back when its paths are reordered, if what
follows depends only on whether the sum is present. -/
theorem held_summing {β : Type} {next : Option Value → Plan β}
    (resolved : stat.isResolved = true) (never : ∀ value query, ¬ (next value).Insists query)
    (sees : ∀ first second, AlikePresent first second → (next first).Doomed graph fed barred →
      (next second).Doomed graph fed barred)
    (same : ∀ path, path ∈ others.map PathOf.id ↔ path ∈ paths.map PathOf.id)
    (held : (Plan.summing stat stage paths next).Doomed graph fed barred ∨
      ∃ query producer, (Plan.summing stat stage paths next).Insists query ∧
        graph.located query = some producer ∧ fed producer ∧ barred producer) :
    (Plan.summing stat stage others next).Doomed graph fed barred ∨
      ∃ query producer, (Plan.summing stat stage others next).Insists query ∧
        graph.located query = some producer ∧ fed producer ∧ barred producer := by
  have blocked {path : Path} {node : NodeId} (member : path ∈ paths)
      (found : graph.located (.node stat stage path) = some node) (feeds : fed node)
      (bars : barred node) : ∃ query producer, (Plan.summing stat stage others next).Insists query ∧
        graph.located query = some producer ∧ fed producer ∧ barred producer := by
    obtain ⟨other, listed, equal⟩ := List.mem_map.mp ((same path.id).mpr
      (List.mem_map_of_mem member))
    exact ⟨_, node, Plan.insists_gather listed, by rw [graph.located_id equal]; exact found,
      feeds, bars⟩
  have counted : AlikePresent (sumPresent (paths.map (graph.cachedAt stat stage)))
      (sumPresent (others.map (graph.cachedAt stat stage))) := by
    simp only [AlikePresent, isSome_sumPresent, List.any_map]
    apply Bool.eq_iff_iff.mpr
    simp only [List.any_eq_true, Function.comp_apply]
    constructor
    · rintro ⟨path, member, present⟩
      obtain ⟨other, listed, equal⟩ := List.mem_map.mp ((same path.id).mpr
        (List.mem_map_of_mem member))
      exact ⟨other, listed, by rw [graph.cachedAt_id equal]; exact present⟩
    · rintro ⟨other, member, present⟩
      obtain ⟨path, listed, equal⟩ := List.mem_map.mp ((same other.id).mp
        (List.mem_map_of_mem member))
      exact ⟨path, listed, by rw [graph.cachedAt_id equal]; exact present⟩
  rcases held with doomed | ⟨query, producer, insists, found, feeds, bars⟩
  · rcases doomed.of_gather resolved with ⟨path, member, node, found, feeds, bars⟩ | ⟨known, after⟩
    · exact Or.inr (blocked member found feeds bars)
    · left
      apply Plan.doomed_gather
      · intro other member
        obtain ⟨path, listed, equal⟩ := List.mem_map.mp ((same other.id).mp
          (List.mem_map_of_mem member))
        exact (known path listed).of_id equal.symm
      · exact sees _ _ counted after
  · obtain ⟨path, member, rfl⟩ := insists.of_gather fun values => never _ query
    exact Or.inr (blocked member found feeds bars)

/-! ### The total of a moved path -/

section Moved

variable {vocabulary : Vocabulary}

theorem transformsFor_pathTotal (flat : vocabulary.Flat) (formed : graph.WellFormed vocabulary)
    (stat : StatId) (path : PathId) : graph.transformsFor stat .pathTotal path = [] := by
  rw [transformsFor_eq]
  apply List.flatMap_eq_nil_iff.mpr
  intro entry member
  rw [List.map_eq_nil_iff, List.filter_eq_nil_iff]
  intro behavior inForce
  have within := formed.behaviors entry.1 entry.2
    ((graph.behaviors.get?_eq_some_iff _ _).mpr member) behavior inForce
  simp [Behavior.appliesTo, flat behavior within.behavior]

/-- What a pipeline node knows its stage yields, if no transform is in force for it. -/
theorem stage_yields (formed : graph.WellFormed vocabulary) (coherent : graph.Coherent Clean)
    {stat : StatId} {stage : Stage} {path : PathId} {pipeline : Pipeline} {node : NodeId}
    {value : Option Value} (here : graph.pipelines.get? stat = some pipeline)
    (found : graph.node? stat stage path = some node) (fits : path.at stage = path)
    (known : graph.known node = some value) :
    ∃ full : Path, full.id = path ∧ ∃ result reads,
      (graph.stagePlan pipeline.stat stage full).Yields graph result reads ∧
        (∀ producer ∈ reads, graph.Feeds producer node) ∧
          (graph.transformsFor stat stage path = [] → value = result) := by
  rw [node?, here, fits] at found
  obtain ⟨full, address, same, _⟩ := formed.listed _ _ _ _ _ here found
  obtain ⟨own, reads, place, yields, exact'⟩ := coherent.justified node value known id
  rw [address] at place
  cases place
  rw [planOf_pipeline here] at yields
  obtain ⟨result, first, later, before, after, rfl⟩ := yields.of_bind
  refine ⟨full, same, result, first, before, ?_, ?_⟩
  · intro producer member
    exact (exact' producer).mp (List.mem_append_left _ member)
  · intro none
    cases after with
    | consult rest =>
        rw [same, none] at rest
        cases rest
        rfl

/-- The total of a path is absent, unless what its rosters collect reaches it. -/
theorem absent_of_unreached (flat : vocabulary.Flat) (formed : graph.WellFormed vocabulary)
    (coherent : graph.Coherent Clean) {stat : StatId} {form : Form} {path : PathId}
    {pipeline : Pipeline} {total : NodeId} {value : Option Value}
    (here : graph.pipelines.get? stat = some pipeline) (branch : path ≠ .main)
    (fits : path.at form.stage = path) (found : graph.node? stat .pathTotal path = some total)
    (known : graph.known total = some value)
    (unreached : ∀ node, graph.node? stat form.stage path = some node → ¬ graph.Reaches node total) :
    value = none := by
  have kept := formed.pipelines stat pipeline here
  have at' {stage : Stage} {full : Path} (same : full.id = path) :
      graph.located (.node pipeline.stat stage full) = graph.node? stat stage path := by
    rw [located, if_pos kept.resolved, kept.keyed, same]
  obtain ⟨full, same, result, reads, yields, feeds, plain⟩ :=
    stage_yields formed coherent here found rfl known
  have equal := plain (transformsFor_pathTotal flat formed stat path)
  subst equal
  obtain ⟨base, cached, later, foundBase, knownBase, rest, rfl⟩ := Plan.Yields.of_read yields
  rw [at' same] at foundBase
  have feedsBase := feeds base List.mem_cons_self
  cases cached with
  | none =>
      cases rest
      rfl
  | some amount =>
      exfalso
      obtain ⟨increase, _, _, foundIncrease, _, restIncrease, rfl⟩ := Plan.Yields.of_read rest
      obtain ⟨more, _, _, foundMore, _, _, rfl⟩ := Plan.Yields.of_read restIncrease
      rw [at' same] at foundIncrease foundMore
      obtain ⟨fullBase, sameBase, _, readsBase, yieldsBase, feedsInto, _⟩ :=
        stage_yields formed coherent here foundBase rfl knownBase
      obtain ⟨set, _, lastBase, foundSet, _, restBase, rfl⟩ := Plan.Yields.of_read yieldsBase
      obtain ⟨add, _, _, foundAdd, _, _, rfl⟩ := Plan.Yields.of_read restBase
      rw [at' sameBase] at foundSet foundAdd
      cases form with
      | baseSet =>
          exact unreached set foundSet
            ((Relation.ReflTransGen.single (feedsInto set (by simp))).tail feedsBase)
      | baseAdd =>
          exact unreached add foundAdd
            ((Relation.ReflTransGen.single (feedsInto add (by simp))).tail feedsBase)
      | increase => exact unreached increase foundIncrease (.single (feeds increase (by simp)))
      | more => exact unreached more foundMore (.single (feeds more (by simp)))
      | totalOverride => exact branch fits.symm

end Moved

end Graph
end CharacterSheet
