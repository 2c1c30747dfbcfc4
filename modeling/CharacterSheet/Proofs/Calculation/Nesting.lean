import CharacterSheet.Proofs.History.Annals

/-!
Contract: how deep calculations nest, and that they come to an end.

Owns:
- calculations have one outcome, so that more levels than are needed make no difference;
- the names that nodes of a graph can ever have, and which of them are those of the nodes on the
  stack at each step of a calculation;
- every read from outside of any calculation ends, whatever the graph, with one level for each name
  and one for the read that closes a circle or finds a value.

Reads make nodes and pipelines and put behaviors in force while a calculation goes on. All that they
can make was mentioned before the calculation began, and a graph stays well-formed within what is
mentioned; so the names are counted once, on the graph at the beginning.
-/

namespace CharacterSheet

open CharacterSheet.Graph

/-! ### One outcome -/

mutual

/-- A calculation has one outcome. -/
theorem Evaluates.unique {node : NodeId} {graph after other : Graph} {reply answer : Reply} :
    Evaluates node graph reply after → Evaluates node graph answer other →
      (reply, after) = (answer, other)
  | .absent missing, second => by
      cases second <;> simp_all
  | .cached found ready, second => by
      cases second <;> simp_all
  | .circular found computing, second => by
      cases second <;> simp_all
  | .calculated found stale runs, second => by
      cases second with
      | calculated again _ ran =>
          cases found.symm.trans again
          cases runs.unique ran
          rfl
      | _ => simp_all

/-- The run of a plan has one outcome. -/
theorem Runs.unique {plan : Plan (Option Value)} {frame after other : Frame} {reply answer : Reply} :
    Runs plan frame reply after → Runs plan frame answer other → (reply, after) = (answer, other)
  | .finish, .finish => rfl
  | .note rest, .note further => rest.unique further
  | .consult rest, .consult further => rest.unique further
  | .answered refused rest, second => by
      cases second with
      | answered again further =>
          cases refused.symm.trans again
          exact rest.unique further
      | read located _ _ => simp_all
  | .read located evaluates rest, second => by
      cases second with
      | answered refused _ => simp_all
      | read again evaluated further =>
          cases located.symm.trans again
          cases evaluates.unique evaluated
          exact rest.unique further

end

/-! ### What is seen on the way -/

section Sights

variable {vocabulary : Vocabulary} {evaluator : Evaluator} {look : Onlooker}

/-- What is seen while a node is calculated is well-formed, with the stack as it should be and the
modifiers that were present. -/
def Minds (vocabulary : Vocabulary) (look : Onlooker) : Prop :=
  ∀ node graph, graph.WellFormed vocabulary → graph.Stacked → ∀ seen ∈ look node graph,
    seen.WellFormed vocabulary ∧ seen.Stacked ∧ seen.modifiers = graph.modifiers

theorem minds_run (minds : Minds vocabulary look)
    (sound : ∀ node graph reply after, evaluator node graph = some (reply, after) →
      Evaluates node graph reply after)
    {plan : Plan (Option Value)} {frame : Frame} (asks : plan.Asks (statedScope vocabulary))
    (formed : frame.graph.WellFormed vocabulary) (stacked : frame.graph.Stacked) :
    ∀ seen ∈ plan.sights evaluator look frame,
      seen.WellFormed vocabulary ∧ seen.Stacked ∧ seen.modifiers = frame.graph.modifiers := by
  induction plan generalizing frame with
  | finish outcome =>
      intro seen member
      rw [List.mem_singleton.mp member]
      exact ⟨formed, stacked, rfl⟩
  | ask query resume inductionHypothesis =>
      have advances := advances_locate formed stacked asks.1
      -- what follows is seen on a graph that has advanced
      have later {next : Frame} {reply : Reply} (further : Advances vocabulary frame.graph next.graph)
          (seen : Graph) (member : seen ∈ (resume reply).sights evaluator look next) :
          seen.WellFormed vocabulary ∧ seen.Stacked ∧ seen.modifiers = frame.graph.modifiers := by
        obtain ⟨last, stack, same⟩ :=
          inductionHypothesis reply (asks.2 reply) further.formed further.stacked seen member
        exact ⟨last, stack, same.trans further.grows.modifiers⟩
      intro seen member
      rw [Plan.sights, sightsOf, Frame.answer_eq] at member
      rcases located : frame.graph.locate query with ⟨reply | node, grown⟩ <;>
        rw [located] at advances member
      · rcases List.mem_cons.mp member with rfl | member
        · exact ⟨formed, stacked, rfl⟩
        · exact later advances seen member
      · dsimp only at advances member
        rcases List.mem_cons.mp member with rfl | member
        · exact ⟨formed, stacked, rfl⟩
        rcases List.mem_append.mp member with inner | member
        · obtain ⟨last, stack, same⟩ := minds node grown advances.formed advances.stacked seen inner
          exact ⟨last, stack, same.trans advances.grows.modifiers⟩
        · rcases answered : evaluator node grown with _ | ⟨reply, read⟩ <;> rw [answered] at member
          · contradiction
          · have reads := (sound _ _ _ _ answered).advances advances.formed advances.stacked
            exact later (advances.trans reads) seen member
  | consult stat stage path resume inductionHypothesis =>
      intro seen member
      rcases List.mem_cons.mp member with rfl | member
      · exact ⟨formed, stacked, rfl⟩
      · exact inductionHypothesis _ (asks.2 _ formed.transforms_within) formed stacked seen member
  | note record rest inductionHypothesis =>
      have noted := Advances.record formed stacked (Record.inward_of_note asks.1)
      intro seen member
      rcases List.mem_cons.mp member with rfl | member
      · exact ⟨formed, stacked, rfl⟩
      · exact @inductionHypothesis { frame with graph := frame.graph.record record } asks.2
          noted.formed noted.stacked seen member

theorem minds_sights (levels : Nat) : Minds vocabulary (sights levels) := by
  induction levels with
  | zero => exact fun _ _ _ _ _ member => absurd member List.not_mem_nil
  | succ levels inductionHypothesis =>
      intro node graph formed stacked seen member
      rw [sights, sightsBy] at member
      rcases found : graph.nodes.get? node with _ | present <;> rw [found] at member
      · contradiction
      dsimp only at member
      rcases cached : present.cache with _ | _ | value <;> rw [cached] at member
      · have entered := formed.enter node
        exact minds_run inductionHypothesis (fun _ _ _ _ => evaluate_sound)
          ((planOf_asks entered (addressOf?_enter found)).stated entered) entered
          (stacked.enter found cached) seen member
      · contradiction
      · contradiction

end Sights

/-! ### The names that a calculation can meet -/

namespace Graph

/-- The names that nodes can have as long as modifiers neither come nor go: each stage of each stat
on each path that the nodes, pipelines, modifiers, behaviors and links of a graph mention anywhere,
where stages of a whole stat are on the main path only, and each modifier. -/
def nameable (graph : Graph) : List NodeName := keys graph.mentions graph.modifiers

/-- The nodes that are being calculated have different names, all of them among some names. -/
structure NestsWithin (graph : Graph) (names : List NodeName) : Prop where
  named : graph.running.length = graph.evaluating.length
  distinct : graph.running.Nodup
  inside : graph.running ⊆ names

theorem NestsWithin.length_le {graph : Graph} {names : List NodeName}
    (nests : graph.NestsWithin names) : graph.evaluating.length ≤ names.length :=
  nests.named ▸ nests.distinct.length_le_of_subset nests.inside

section Resting

variable {vocabulary : Vocabulary} {graph : Graph} (resting : graph.Resting vocabulary)
include resting

/-- At each step of a calculation the nodes on the stack have different names, all of which were
possible before it began. -/
theorem nestsWithin_sights (node : NodeId) (levels : Nat) :
    ∀ seen ∈ sights levels node graph, seen.NestsWithin graph.nameable := by
  intro seen member
  obtain ⟨formed, stacked, modifiers⟩ :=
    minds_sights levels node graph resting.formed.mentioned resting.stacked seen member
  exact ⟨stacked.length_running, formed.nodup_running stacked, by
    rw [nameable, ← modifiers]
    exact formed.running_subset⟩

/-- With one level for each possible name, and one more, a calculation ends. -/
theorem evaluate_nameable (node : NodeId) (more : Nat) :
    evaluate (graph.nameable.length + 1 + more) node graph = some (graph.valueOf node) := by
  have ends : (evaluate (graph.nameable.length + 1 + more) node graph).isSome := by
    apply evaluate_isSome resting.formed.mentioned resting.stacked
    rw [← nameable]
    omega
  obtain ⟨⟨reply, after⟩, evaluated⟩ := Option.isSome_iff_exists.mp ends
  rw [evaluated, (evaluate_sound evaluated).unique (evaluates_valueOf resting node)]

end Resting

end Graph

/-- Whatever the graph, circular or not, whenever a node may be read from outside of any calculation,
after any operations and in the course of any of them: the calculation of any node comes to an end.
It nests at most as deep as there are names for nodes in what was mentioned before it began, although
it makes nodes and pipelines and puts behaviors in force: at each of its steps the nodes that are being
calculated have different such names. More levels than these make no difference. -/
theorem calculations_end (settings : Settings) (retention : Retention) (operations : List Operation)
    (graph : Graph)
    (moment : graph = (Sheet.run { settings, retention } operations).graph ∨
      ∃ node, .read node graph ∈ Sheet.chronicle { settings, retention } operations)
    (node : NodeId) :
    (∀ more, evaluate (graph.nameable.length + 1 + more) node graph = some (graph.valueOf node)) ∧
      ∀ levels, ∀ seen ∈ sights levels node graph,
        seen.NestsWithin graph.nameable ∧ seen.evaluating.length ≤ graph.nameable.length := by
  have resting : graph.Resting .everything := by
    rcases moment with rfl | ⟨_, member⟩
    · exact Sheet.resting_run settings retention operations
    · exact Sheet.resting_read member
  refine ⟨evaluate_nameable resting node, fun levels seen member => ?_⟩
  have nests := nestsWithin_sights resting node levels seen member
  exact ⟨nests, nests.length_le⟩

/-- Two stats each of which is increased by the total of the other. -/
def feedback : List Operation :=
  [.add { id := ⟨1⟩, stats := [.named "Might"], form := .baseAdd, value := .total (.named "Skill") },
    .add { id := ⟨2⟩, stats := [.named "Skill"], form := .baseAdd, value := .total (.named "Might") }]

/-- The calculation of the first contribution makes the stages of both stats, and fails on a circle. -/
theorem feedback_ends :
    let graph := (Sheet.run {} feedback).graph
    graph.nodes.size = 2 ∧ (graph.valueOf ⟨0⟩).2.nodes.size = 18 ∧
      (graph.valueOf ⟨0⟩).1.toBool = false ∧ graph.nameable.length = 22 ∧
        evaluate 23 ⟨0⟩ graph = some (graph.valueOf ⟨0⟩) ∧
          ∀ levels, ∀ seen ∈ sights levels ⟨0⟩ graph,
            seen.NestsWithin graph.nameable ∧ seen.evaluating.length ≤ 22 := by
  intro graph
  have facts : graph.nodes.size = 2 ∧ (graph.valueOf ⟨0⟩).2.nodes.size = 18 ∧
      (graph.valueOf ⟨0⟩).1.toBool = false ∧ graph.nameable.length = 22 := by decide +kernel
  obtain ⟨before, after, reply, names⟩ := facts
  have ends := calculations_end {} {} feedback graph (.inl rfl) ⟨0⟩
  rw [names] at ends
  have ended := ends.1 0
  simp only [Nat.reduceAdd] at ended
  exact ⟨before, after, reply, names, ended, ends.2⟩

end CharacterSheet
