import CharacterSheet.Proofs.Change.Exploring

/-!
Contract: what reads write into the journal.

Owns:
- steps that put no behavior in force, which lose no cached value and submit no change;
- the growth of the journal, which shows when behaviors come into force;
- every calculation and every exploration lets the journal grow in this way.
-/

namespace CharacterSheet

/-- Whether a record says that behaviors came into force. -/
def Record.isRegistration : Record → Bool
  | behaviorsRegistered _ _ => true
  | _ => false

/-- Whether a record says that an announcement begins. -/
def Record.isFlush : Record → Bool
  | flushing _ _ => true
  | _ => false

theorem Record.isFlush_of_inward {entry : Record} (inward : entry.isAnnouncement = false) :
    entry.isFlush = false := by
  cases entry <;> first | rfl | contradiction

namespace Graph

variable {vocabulary : Vocabulary} {graph middle other : Graph} {result further : Prop}

/-- Cached values stay, no change is submitted, and the same behaviors are in force. -/
structure Untouched (graph other : Graph) : Prop extends graph.Steady other where
  behaviors : other.behaviors = graph.behaviors
  pending : other.pending = graph.pending

theorem Untouched.refl (graph : Graph) : graph.Untouched graph :=
  ⟨.refl graph, rfl, rfl⟩

theorem Untouched.trans (first : graph.Untouched middle) (second : middle.Untouched other) :
    graph.Untouched other :=
  ⟨first.toSteady.trans second.toSteady, second.behaviors.trans first.behaviors,
    second.pending.trans first.pending⟩

/-- The journal has grown in the course of at most one announcement. Either it says that
behaviors came into force, or nothing was lost and there is a further result. -/
def Logs (graph other : Graph) (result : Prop) : Prop :=
  ∃ added, other.journal = graph.journal ++ added ∧ (∀ entry ∈ added, entry.isFlush = false) ∧
    ((∃ entry ∈ added, entry.isRegistration) ∨ graph.Untouched other ∧ result)

theorem Logs.of_untouched (same : other.journal = graph.journal)
    (untouched : graph.Untouched other) (holds : result) : graph.Logs other result :=
  ⟨[], by rw [same, List.append_nil], fun _ none => absurd none List.not_mem_nil, Or.inr ⟨untouched, holds⟩⟩

theorem Logs.refl (graph : Graph) (holds : result) : graph.Logs graph result :=
  .of_untouched rfl (.refl graph) holds

theorem Logs.trans (first : graph.Logs middle result) (second : middle.Logs other further) :
    graph.Logs other (result ∧ further) := by
  obtain ⟨before, same, quiet, either⟩ := first
  obtain ⟨after, later, still, or⟩ := second
  refine ⟨before ++ after, by rw [later, same, List.append_assoc], fun entry member =>
    (List.mem_append.mp member).elim (quiet entry) (still entry), ?_⟩
  rcases either with ⟨entry, member, registers⟩ | ⟨untouched, holds⟩
  · exact Or.inl ⟨entry, List.mem_append_left after member, registers⟩
  · rcases or with ⟨entry, member, registers⟩ | ⟨further, also⟩
    · exact Or.inl ⟨entry, List.mem_append_right before member, registers⟩
    · exact Or.inr ⟨untouched.trans further, holds, also⟩

theorem Logs.mono (logs : graph.Logs other result)
    (implies : graph.Untouched other → result → further) : graph.Logs other further := by
  obtain ⟨added, same, quiet, either⟩ := logs
  exact ⟨added, same, quiet, either.imp_right fun ⟨untouched, holds⟩ =>
    ⟨untouched, implies untouched holds⟩⟩

theorem logs_record (graph : Graph) {entry : Record} (quiet : entry.isFlush = false) :
    graph.Logs (graph.record entry) True :=
  ⟨[entry], rfl, fun _ member => List.mem_singleton.mp member ▸ quiet, Or.inr ⟨⟨⟨fun _ _ known => known, fun _ _ found => found,
    fun _ address _ => by cases address <;> rfl, rfl⟩, rfl, rfl⟩, trivial⟩⟩

/-! ### Making a node -/

theorem logs_ensurePipeline (graph : Graph) (stat : Stat) :
    graph.Logs (graph.ensurePipeline stat) True := by
  rw [ensurePipeline_eq]
  split
  · exact .refl graph trivial
  · have opens : graph.Logs (graph.openPipeline stat) True :=
      .of_untouched rfl ⟨⟨fun _ _ known => known, fun _ _ found => found,
        fun _ address _ => by cases address <;> rfl, rfl⟩, rfl, rfl⟩ trivial
    split
    · exact opens
    · have announces : (graph.openPipeline stat).Logs
          ((graph.openPipeline stat).enforce stat.id stat.behaviors) True :=
        ⟨[.behaviorsRegistered stat.id stat.behaviors.length],
          by rw [enforce, invalidateTargets_eq, (fades_invalidateAll _ _).journal]; rfl,
          fun _ member => List.mem_singleton.mp member ▸ rfl,
          Or.inl ⟨_, List.mem_singleton_self _, rfl⟩⟩
      exact (opens.trans announces).mono fun _ _ => trivial

theorem logs_addStage (formed : graph.WellFormed vocabulary) {stat : StatId} {stage : Stage}
    {path : Path} (grows : graph.Grows (graph.addStage stat stage path).2) :
    graph.Logs (graph.addStage stat stage path).2 True := by
  refine .of_untouched rfl ⟨⟨?_, fun _ _ found => grows.addressed found, ?_, rfl⟩, rfl, rfl⟩
    trivial
  · intro node value known
    rw [known_addStage formed]
    exact known
  · intro _ address _
    cases address <;> rfl

theorem logs_obtain (formed : graph.WellFormed vocabulary) (stacked : graph.Stacked) {stat : Stat}
    {stage : Stage} {path : Path} (resolved : stat.isResolved)
    (within : stat.HeadWithin vocabulary) (route : path.Within vocabulary) :
    graph.Logs (graph.obtain stat stage path).2 True := by
  have ready := advances_ensurePipeline formed stacked resolved within
  obtain ⟨pipeline, opened⟩ := graph.pipeline_ensurePipeline stat
  have goal : Advances vocabulary (graph.ensurePipeline stat) (graph.obtain stat stage path).2 ∧
      graph.Logs (graph.obtain stat stage path).2 True := by
    apply obtain_induction (motive := fun grown =>
      Advances vocabulary (graph.ensurePipeline stat) grown ∧ graph.Logs grown True)
    · exact ⟨.refl ready.formed ready.stacked, graph.logs_ensurePipeline stat⟩
    · rintro grown other place ⟨advances, logs⟩ either fits missing
      obtain ⟨_, here, _⟩ := advances.grows.pipelines _ _ opened
      have step : Advances vocabulary grown (grown.addStage stat.id other place).2 :=
        (Advances.refl advances.formed advances.stacked).addStage here
          (within_of_route route either) fits missing
      exact ⟨advances.trans step,
        (logs.trans (logs_addStage advances.formed step.grows)).mono fun _ _ => trivial⟩
  exact goal.2

theorem logs_locate (formed : graph.WellFormed vocabulary) (stacked : graph.Stacked)
    {query : Query} (asked : (statedScope vocabulary).query query) :
    graph.Logs (graph.locate query).2 True := by
  cases query with
  | node stat stage path =>
      rw [locate_node]
      split
      · next resolved => exact logs_obtain formed stacked resolved asked.1 asked.2
      · exact .refl graph trivial
  | contribution modifier =>
      rw [locate_contribution]
      split <;> exact .refl graph trivial

/-! ### Calculations -/

theorem logs_enter {node : NodeId} {present : Node} (found : graph.nodes.get? node = some present)
    (stale : present.cache = .stale) : graph.Logs (graph.enter node) True := by
  have shape := shape_enter graph node
  refine .of_untouched rfl ⟨⟨?_, ?_, ?_, rfl⟩, rfl, rfl⟩ trivial
  · intro other value before
    rw [known_enter found stale]
    exact before
  · intro other address before
    rw [addressOf?_of_shape shape]
    exact before
  · intro _ address _
    rw [transformsOf_of_shape shape]

/-- A calculation that was not disturbed loses nothing, and keeps its result. -/
theorem logs_leave {after : Graph} {node : NodeId} {present : Node}
    (found : graph.nodes.get? node = some present) (stale : present.cache = .stale)
    (current : node ∉ graph.outdated) (kept : after.nodes.contains node = true)
    (logs : graph.Logs after True) (reads : List NodeId) (reply : Reply) :
    graph.Logs (after.leave node reads reply)
      (∀ value, reply = .ok value → (after.leave node reads reply).known node = some value) := by
  obtain ⟨added, same, quiet, either⟩ := logs
  refine ⟨added, ?_, quiet, either.imp_right ?_⟩
  · rw [leave_eq]
    exact same
  · rintro ⟨untouched, -⟩
    have shape := shape_leave after node reads reply
    have stays : node ∉ after.outdated := untouched.outdated ▸ current
    refine ⟨⟨⟨?_, ?_, ?_, ?_⟩, ?_, ?_⟩, ?_⟩
    · intro other value known
      rw [known_leave]
      · exact untouched.known other value known
      · rintro rfl
        rw [unknown_of_stale found stale] at known
        contradiction
    · intro other address before
      rw [addressOf?_of_shape shape]
      exact untouched.addressed other address before
    · intro other address before
      rw [transformsOf_of_shape shape]
      exact untouched.transforms other address before
    · rw [leave_eq, ← untouched.outdated]
      exact List.filter_eq_self.mpr fun other member => by
        simpa using fun same : other = node => stays (same ▸ member)
    · rw [show (after.leave node reads reply).behaviors = after.behaviors from
        congrArg Shape.behaviors shape]
      exact untouched.behaviors
    · rw [leave_eq]
      exact untouched.pending
    · rintro value rfl
      obtain ⟨last, there⟩ := Option.isSome_iff_exists.mp kept
      rw [known, get?_leave, if_pos rfl, there, cacheAfter, if_pos stays]
      rfl

end Graph

open CharacterSheet.Graph

section Induction

variable {vocabulary : Vocabulary}

mutual

/-- Unless a calculation puts behaviors in force, nothing is lost in its course and its value is
cached in the end. -/
theorem Evaluates.logs {node : NodeId} {graph after : Graph} {reply : Reply} :
    Evaluates node graph reply after → graph.WellFormed vocabulary → graph.Stacked →
      (∃ address, graph.addressOf? node = some address) →
        graph.Logs after (∀ value, reply = .ok value → after.known node = some value)
  | .absent missing, _, _, existing => by
      obtain ⟨address, found⟩ := existing
      rw [addressOf?, missing] at found
      contradiction
  | .cached found ready, _, _, _ => by
      refine .refl graph ?_
      rintro value ⟨⟩
      rw [known, found, Option.bind_some, ready]
      rfl
  | .circular _ _, _, _, _ => .refl graph fun _ faulty => by contradiction
  | @Evaluates.calculated _ _ present _ frame found stale runs, formed, stacked, _ => by
      have entered := formed.enter node
      have address := addressOf?_enter found
      have asks := (planOf_asks entered address).stated entered
      have inner := runs.logs entered (stacked.enter found stale) asks
      have grown := (runs.advances entered (stacked.enter found stale) asks).grows
      refine logs_leave found stale ?_ (contains_of_addressed (grown.addressed address))
        (((logs_enter found stale).trans inner).mono fun _ _ => trivial) _ _
      intro outdated
      exact not_mem_evaluating stacked found stale (stacked.outdated node outdated)

theorem Runs.logs {plan : Plan (Option Value)} {frame after : Frame} {reply : Reply} :
    Runs plan frame reply after → frame.graph.WellFormed vocabulary → frame.graph.Stacked →
      plan.Asks (statedScope vocabulary) → frame.graph.Logs after.graph True
  | .finish, _, _, _ => .refl _ trivial
  | .note rest, formed, stacked, asks => by
      have noted := Advances.record formed stacked (Record.inward_of_note asks.1)
      exact ((logs_record _ (Record.isFlush_of_inward (Record.inward_of_note asks.1))).trans
        (rest.logs noted.formed noted.stacked asks.2)).mono fun _ _ => trivial
  | .consult rest, formed, stacked, asks => by
      exact rest.logs formed stacked (asks.2 _ formed.transforms_within)
  | .answered refused rest, formed, stacked, asks => by
      have located := advances_locate formed stacked asks.1
      have logs := logs_locate formed stacked asks.1
      rw [refused] at located logs
      exact (logs.trans (rest.logs located.formed located.stacked (asks.2 _))).mono
        fun _ _ => trivial
  | .read found evaluates rest, formed, stacked, asks => by
      have located := advances_locate formed stacked asks.1
      have logs := logs_locate formed stacked asks.1
      have place := located_locate formed stacked asks.1 found
      rw [found] at located logs
      have evaluated := evaluates.advances located.formed located.stacked
      have calculated := evaluates.logs located.formed located.stacked
        (located.formed.located_addressed place)
      exact ((logs.trans calculated).trans
        (rest.logs evaluated.formed evaluated.stacked (asks.2 _))).mono fun _ _ => trivial

end

/-- Unless reads from outside put behaviors in force, nothing is lost. -/
theorem Graph.Explores.logs {graph other : Graph} (explores : Explores vocabulary graph other)
    (resting : graph.Resting vocabulary) : graph.Logs other True := by
  induction explores with
  | refl => exact .refl graph trivial
  | note _ inward inductionHypothesis =>
      exact (inductionHypothesis.trans
        (logs_record _ (Record.isFlush_of_inward inward))).mono fun _ _ => trivial
  | locate earlier asked inductionHypothesis =>
      have rested := earlier.resting resting
      exact (inductionHypothesis.trans
        (logs_locate rested.formed rested.stacked asked)).mono fun _ _ => trivial
  | evaluate earlier addressed evaluates inductionHypothesis =>
      have rested := earlier.resting resting
      exact (inductionHypothesis.trans
        (evaluates.logs rested.formed rested.stacked addressed)).mono fun _ _ => trivial

end Induction
end CharacterSheet
