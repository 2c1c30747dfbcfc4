import CharacterSheet.Proofs.Change.Exploring

/-!
Contract: what every step of a calculation keeps, reads and announcements keep.

Owns:
- enduring properties of graphs, which outlast each step of a calculation;
- they outlast calculations, whatever is performed from outside, and the announcement of all
  changes.

Nothing is assumed of the graph: an enduring property needs no other property to last.
-/

namespace CharacterSheet

/-- A property of graphs that outlasts each step of a calculation. -/
structure Enduring (holds : Graph → Prop) : Prop where
  record : ∀ graph entry, holds graph → holds (graph.record entry)
  locate : ∀ graph query, holds graph → holds (graph.locate query).2
  enter : ∀ graph node, holds graph → holds (graph.enter node)
  leave : ∀ graph node reads reply, holds graph → holds (graph.leave node reads reply)

namespace Enduring

variable {holds : Graph → Prop} (enduring : Enduring holds)

include enduring

mutual

/-- Calculations are made of such steps, however deep they go. -/
theorem evaluates {node : NodeId} {graph after : Graph} {reply : Reply} :
    Evaluates node graph reply after → holds graph → holds after
  | .absent _, before => before
  | .cached _ _, before => before
  | .circular _ _, before => before
  | .calculated _ _ inner, before =>
      enduring.leave _ _ _ _ (runs inner (enduring.enter _ _ before))

theorem runs {plan : Plan (Option Value)} {frame after : Frame} {reply : Reply} :
    Runs plan frame reply after → holds frame.graph → holds after.graph
  | .finish, before => before
  | .note rest, before => runs rest (enduring.record _ _ before)
  | .consult rest, before => runs rest before
  | @Runs.answered query _ frame _ _ _ _ refused rest, before => by
      have located := enduring.locate frame.graph query before
      rw [refused] at located
      exact runs rest located
  | @Runs.read query _ frame _ _ _ _ _ _ found read rest, before => by
      have located := enduring.locate frame.graph query before
      rw [found] at located
      exact runs rest (evaluates read located)

end

theorem explores {vocabulary : Vocabulary} {graph other : Graph}
    (explores : Graph.Explores vocabulary graph other) (before : holds graph) : holds other := by
  induction explores with
  | refl => exact before
  | note _ _ inductionHypothesis => exact enduring.record _ _ inductionHypothesis
  | locate _ _ inductionHypothesis => exact enduring.locate _ _ inductionHypothesis
  | evaluate _ _ evaluates inductionHypothesis =>
      exact enduring.evaluates evaluates inductionHypothesis

theorem valueOf (node : NodeId) {graph : Graph} (before : holds graph) :
    holds (graph.valueOf node).2 := by
  unfold Graph.valueOf
  split
  · next outcome evaluated => exact enduring.evaluates (evaluate_sound evaluated) before
  · cases evaluated : Graph.evaluate graph.levels node graph with
    | none => exact before
    | some outcome => exact enduring.evaluates (evaluate_sound evaluated) before

theorem run {α : Type} {plan : Plan α} {frame after : Frame} {outcome : Except Fault α}
    (ran : plan.run Graph.outside frame = some (outcome, after)) (before : holds frame.graph) :
    holds after.graph := by
  induction plan generalizing frame with
  | finish ended =>
      cases ran
      exact before
  | ask query resume inductionHypothesis =>
      have located := enduring.locate frame.graph query before
      rw [Plan.run, Graph.outside, show (Frame.interpreter _).answer = Frame.answer _ from rfl,
        Frame.answer_eq] at ran
      rcases found : frame.graph.locate query with ⟨given | node, grown⟩
      · rw [found] at located ran
        exact inductionHypothesis given ran located
      · rw [found] at located ran
        exact inductionHypothesis _ ran (enduring.valueOf node located)
  | consult stat stage path resume inductionHypothesis =>
      exact inductionHypothesis _ ran before
  | note entry rest inductionHypothesis =>
      exact inductionHypothesis ran (enduring.record _ entry before)

theorem perform {α : Type} (plan : Plan α) {graph : Graph} (before : holds graph) :
    holds (graph.perform plan).2 := by
  have outcome := Option.some_get (Plan.run_isSome Graph.outside_answers plan { graph })
  exact enduring.run outcome.symm before

theorem readAll (readings : List Reading) {graph : Graph} (before : holds graph) :
    holds (graph.readAll readings).2 := by
  induction readings generalizing graph with
  | nil => exact before
  | cons reading rest inductionHypothesis => exact inductionHypothesis (enduring.perform _ before)

theorem settle (node : NodeId) {graph : Graph} (before : holds graph) :
    holds (graph.settle node) := by
  have calculated := enduring.valueOf node before
  unfold Graph.settle
  split
  · next value settled outcome =>
    rw [outcome] at calculated
    exact calculated
  · next fault settled outcome =>
    rw [outcome] at calculated
    split
    · exact enduring.record _ _ calculated
    · exact calculated

/-! ### Announcements -/

theorem tellAll (name : NodeName) (subscribers : List Subscriber) {graph : Graph}
    (before : holds graph) : holds (subscribers.foldl (Graph.tell name) graph) := by
  induction subscribers generalizing graph with
  | nil => exact before
  | cons subscriber rest inductionHypothesis =>
      exact inductionHypothesis (enduring.record _ _ (enduring.readAll subscriber.reads before))

theorem announceNode (node : NodeId) {graph : Graph} (before : holds graph) :
    holds (graph.announceNode node) := by
  have settled := enduring.settle node before
  unfold Graph.announceNode
  dsimp only
  split
  · exact settled
  · exact enduring.tellAll _ _ settled

theorem announceRoster (change : SlotId × Delta ModifierId) {graph : Graph} (before : holds graph) :
    holds (graph.announceRoster change) := by
  unfold Graph.announceRoster
  split
  · exact before
  · next roster _ =>
    generalize roster.subscribers = subscribers
    have told : ∀ told, holds told → holds (subscribers.foldl
        (fun told id => told.record
          (.rosterChanged id change.1.stat change.1.form change.1.path change.2)) told) := by
      induction subscribers with
      | nil => exact fun _ before => before
      | cons id rest inductionHypothesis =>
          exact fun told before => inductionHypothesis _ (enduring.record told _ before)
    exact told graph before

/-- The announcement of all changes that wait keeps what calculations keep. -/
theorem flush (cleared : ∀ graph, holds graph → holds (graph.modifyPending Pending.cleared))
    (announceRosters : Bool) {graph : Graph} (before : holds graph) :
    holds (graph.flush announceRosters) := by
  have rosters (changes : List (SlotId × Delta ModifierId)) {told : Graph} (before : holds told) :
      holds (changes.foldl Graph.announceRoster told) := by
    induction changes generalizing told with
    | nil => exact before
    | cons change rest inductionHypothesis =>
        exact inductionHypothesis (enduring.announceRoster change before)
  have stages (nodes : List NodeId) {told : Graph} (before : holds told) :
      holds (nodes.foldl Graph.announceNode told) := by
    induction nodes generalizing told with
    | nil => exact before
    | cons node rest inductionHypothesis =>
        exact inductionHypothesis (enduring.announceNode node before)
  have ordered (nodes : List NodeId) {told : Graph} (before : holds told) :
      holds (told.announcementOrder nodes).2 := by
    unfold Graph.announcementOrder
    split
    · exact before
    · split
      · exact before
      · exact enduring.record _ _ before
  unfold Graph.flush
  dsimp only
  split
  · exact cleared graph before
  · have begun := enduring.record _ (.flushing graph.pending.nodes.length
      graph.pending.changedSlots.length) (cleared graph before)
    split
    · exact stages _ (ordered _ (rosters _ begun))
    · exact stages _ (ordered _ begun)

end Enduring
end CharacterSheet
