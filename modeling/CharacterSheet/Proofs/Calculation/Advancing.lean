import CharacterSheet.Proofs.Calculation.Locating

/-!
Contract: every calculation advances a well-formed graph.

Owns:
- what beginning and ending a calculation does to the stack and to the caches;
- the induction over calculations and runs of plans.
-/

namespace CharacterSheet
namespace Graph

variable {vocabulary : Vocabulary} {graph : Graph}

/-! ### Beginning and ending a calculation -/

theorem get?_setCache (graph : Graph) (node other : NodeId) (cache : Cache) :
    (graph.setCache node cache).nodes.get? other =
      if other = node then (graph.nodes.get? other).map ({ · with cache })
      else graph.nodes.get? other :=
  graph.nodes.get?_modify node other _

theorem grows_setCache (graph : Graph) (node : NodeId) (cache : Cache) :
    graph.Grows (graph.setCache node cache) :=
  { Grows.refl graph with
    nodes := by
      intro other present found
      rw [get?_setCache]
      split
      · exact ⟨cache, by rw [found]; rfl⟩
      · exact ⟨present.cache, found⟩
    unwatched := by
      intro other present found missing
      rw [get?_setCache] at found
      split at found <;> simp [missing] at found }

theorem get?_enter (graph : Graph) (node other : NodeId) :
    (graph.enter node).nodes.get? other =
      if other = node then (graph.nodes.get? other).map ({ · with cache := .computing })
      else graph.nodes.get? other :=
  graph.get?_setCache node other .computing

theorem addressOf?_enter {node : NodeId} {present : Node}
    (found : graph.nodes.get? node = some present) :
    (graph.enter node).addressOf? node = some present.address := by
  rw [addressOf?, get?_enter, if_pos rfl, found]
  rfl

theorem grows_enter (graph : Graph) (node : NodeId) : graph.Grows (graph.enter node) :=
  { graph.grows_setCache node .computing with }

theorem not_mem_evaluating (stacked : graph.Stacked) {node : NodeId} {present : Node}
    (found : graph.nodes.get? node = some present) (stale : present.cache = .stale) :
    node ∉ graph.evaluating := by
  intro running
  obtain ⟨other, same, computing⟩ := (stacked.computing node).mpr running
  rw [found] at same
  cases same
  rw [stale] at computing
  contradiction

theorem Stacked.enter (stacked : graph.Stacked) {node : NodeId} {present : Node}
    (found : graph.nodes.get? node = some present) (stale : present.cache = .stale) :
    (graph.enter node).Stacked where
  computing := by
    intro other
    show _ ↔ other ∈ node :: graph.evaluating
    rw [List.mem_cons, ← stacked.computing, get?_enter]
    by_cases same : other = node
    · subst same
      simp [found]
    · simp [same]
  distinct := List.nodup_cons.mpr ⟨not_mem_evaluating stacked found stale, stacked.distinct⟩
  outdated := fun other member => List.mem_cons_of_mem _ (stacked.outdated other member)

/-- What becomes of the cache of a node when its calculation ends. -/
def cacheAfter (graph : Graph) (node : NodeId) : Reply → Cache
  | .ok value => if node ∉ graph.outdated then .ready value else .stale
  | .error _ => .stale

theorem leave_eq (graph : Graph) (node : NodeId) (reads : List NodeId) (reply : Reply) :
    graph.leave node reads reply =
      { (graph.setCache node (graph.cacheAfter node reply)) with
        evaluating := graph.evaluating.tail
        outdated := graph.outdated.filter (· ≠ node)
        edges := (graph.rewire node reads).edges } := by
  cases reply with
  | ok value =>
      by_cases outdated : node ∈ graph.outdated <;> simp [leave, cacheAfter, outdated] <;> rfl
  | error fault => rfl

theorem get?_leave (graph : Graph) (node other : NodeId) (reads : List NodeId) (reply : Reply) :
    (graph.leave node reads reply).nodes.get? other =
      if other = node then
        (graph.nodes.get? other).map ({ · with cache := graph.cacheAfter node reply })
      else graph.nodes.get? other := by
  rw [leave_eq]
  exact graph.get?_setCache node other _

theorem grows_leave (graph : Graph) (node : NodeId) (reads : List NodeId) (reply : Reply) :
    graph.Grows (graph.leave node reads reply) := by
  rw [leave_eq]
  exact { graph.grows_setCache node _ with }

theorem Stacked.leave (stacked : graph.Stacked) {node : NodeId} {rest : List NodeId}
    (top : graph.evaluating = node :: rest) (reads : List NodeId) (reply : Reply) :
    (graph.leave node reads reply).Stacked := by
  have distinct := stacked.distinct
  rw [top] at distinct
  obtain ⟨absent, distinct⟩ := List.nodup_cons.mp distinct
  have ended : (graph.leave node reads reply).evaluating = rest := by
    rw [leave_eq]
    simp [top]
  constructor
  · intro other
    rw [ended, get?_leave]
    by_cases same : other = node
    · subst same
      have ends : graph.cacheAfter other reply ≠ .computing := by
        cases reply with
        | ok value => by_cases outdated : other ∈ graph.outdated <;> simp [cacheAfter, outdated]
        | error fault => simp [cacheAfter]
      simp only [↓reduceIte, Option.map_eq_some_iff]
      constructor
      · rintro ⟨present, ⟨_, _, rfl⟩, computing⟩
        exact absurd computing ends
      · intro running
        exact absurd running absent
    · rw [if_neg same, stacked.computing, top, List.mem_cons]
      simp [same]
  · rw [ended]
    exact distinct
  · intro other member
    rw [leave_eq] at member
    simp only [List.mem_filter, decide_eq_true_eq] at member
    have running := stacked.outdated other member.1
    rw [top] at running
    rw [ended]
    exact (List.mem_cons.mp running).resolve_left member.2

end Graph

open CharacterSheet.Graph

section Induction

variable {vocabulary : Vocabulary}

/-- What is in the scope of a node may be named. -/
theorem Plan.Asks.stated {α : Type} {graph : Graph} (formed : graph.WellFormed vocabulary)
    {address : Address} {plan : Plan α} (asks : plan.Asks (graph.scopeOf vocabulary address)) :
    plan.Asks (statedScope vocabulary) :=
  asks.mono (fun _ asked => stated_of_scopeOf formed asked) (fun _ _ _ _ => trivial)
    fun _ within => within

/-- The transforms in force are within the vocabulary. -/
theorem Graph.WellFormed.transforms {graph : Graph} (formed : graph.WellFormed vocabulary)
    {stat : StatId} {stage : Stage} {path : PathId} {transform : Transform}
    (member : transform ∈ graph.transformsFor stat stage path) :
    ∃ behavior : Behavior, behavior.Within vocabulary ∧ behavior.transform = transform := by
  obtain ⟨behavior, listed, rfl⟩ := List.mem_map.mp member
  obtain ⟨behaviors, inForce, inside⟩ := List.mem_flatten.mp (List.mem_filter.mp listed).1
  obtain ⟨owner, found⟩ := (Table.mem_values_iff _ _).mp inForce
  exact ⟨behavior, formed.behaviors owner behaviors found behavior inside, rfl⟩

theorem Graph.WellFormed.transforms_within {graph : Graph} (formed : graph.WellFormed vocabulary)
    {stat : StatId} {stage : Stage} {path : PathId} :
    ∀ transform ∈ graph.transformsFor stat stage path, transform.Within vocabulary := by
  intro transform member
  obtain ⟨behavior, within, rfl⟩ := formed.transforms member
  exact within.transform

mutual

/-- A calculation advances a well-formed graph. -/
theorem Evaluates.advances {node : NodeId} {graph after : Graph} {reply : Reply} :
    Evaluates node graph reply after → graph.WellFormed vocabulary → graph.Stacked →
      Advances vocabulary graph after
  | .absent _, formed, stacked => .refl formed stacked
  | .cached _ _, formed, stacked => .refl formed stacked
  | .circular _ _, formed, stacked => .refl formed stacked
  | @Evaluates.calculated _ _ present _ frame found stale runs, formed, stacked => by
      have entered := formed.enter node
      have address := addressOf?_enter found
      have inner := runs.advances entered (stacked.enter found stale)
        ((planOf_asks entered address).stated entered)
      have top : frame.graph.evaluating = node :: graph.evaluating := inner.evaluating
      exact
        { formed := inner.formed.leave _ _ _
          stacked := inner.stacked.leave top _ _
          grows := ((graph.grows_enter node).trans inner.grows).trans (grows_leave _ _ _ _)
          evaluating := by
            rw [leave_eq]
            simp [top]
          noted := by
            intro other running noted
            have kept := inner.noted other (List.mem_cons_of_mem _ running) noted
            have distinct : other ≠ node := by
              rintro rfl
              exact not_mem_evaluating stacked found stale running
            rw [leave_eq]
            simpa [distinct] using kept }

/-- The run of a plan advances a well-formed graph. -/
theorem Runs.advances {plan : Plan (Option Value)} {frame after : Frame} {reply : Reply} :
    Runs plan frame reply after → frame.graph.WellFormed vocabulary → frame.graph.Stacked →
      plan.Asks (statedScope vocabulary) → Advances vocabulary frame.graph after.graph
  | .finish, formed, stacked, _ => .refl formed stacked
  | .note rest, formed, stacked, asks => by
      have noted := Advances.record formed stacked (Record.inward_of_note asks.1)
      exact noted.trans (rest.advances noted.formed noted.stacked asks.2)
  | .consult rest, formed, stacked, asks => by
      exact rest.advances formed stacked (asks.2 _ formed.transforms_within)
  | .answered refused rest, formed, stacked, asks => by
      have located := advances_locate formed stacked asks.1
      rw [refused] at located
      exact located.trans (rest.advances located.formed located.stacked (asks.2 _))
  | .read found evaluates rest, formed, stacked, asks => by
      have located := advances_locate formed stacked asks.1
      rw [found] at located
      have evaluated := evaluates.advances located.formed located.stacked
      exact (located.trans evaluated).trans
        (rest.advances evaluated.formed evaluated.stacked (asks.2 _))

end

end Induction

end CharacterSheet
