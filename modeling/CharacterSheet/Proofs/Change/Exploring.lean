import CharacterSheet.Breakdown
import CharacterSheet.Graph.Announce
import CharacterSheet.Proofs.Change.Turning
import CharacterSheet.Proofs.Change.Wiring

/-!
Contract: what reads from outside do to a graph.

Owns:
- explorations: requests that find or make their nodes, calculations and notes, one after
  the other;
- explorations advance a graph and keep it sound and wired;
- whatever is performed from outside is an exploration, and so is the reading of a subscriber.
-/

namespace CharacterSheet

/-- What a subscriber reads is within a vocabulary. -/
structure Reading.Within (vocabulary : Vocabulary) (reading : Reading) : Prop where
  stat : reading.stat.HeadWithin vocabulary
  path : reading.path.Within vocabulary

namespace Graph

variable {vocabulary : Vocabulary} {graph middle other : Graph}

/-- What reads do to a graph, one step after the other. -/
inductive Explores (vocabulary : Vocabulary) (graph : Graph) : Graph → Prop
  | refl : Explores vocabulary graph graph
  | note {middle entry} : Explores vocabulary graph middle → entry.isAnnouncement = false →
      Explores vocabulary graph (middle.record entry)
  | locate {middle query} : Explores vocabulary graph middle →
      (statedScope vocabulary).query query → Explores vocabulary graph (middle.locate query).2
  | evaluate {middle node reply after} : Explores vocabulary graph middle →
      (∃ address, middle.addressOf? node = some address) → Evaluates node middle reply after →
      Explores vocabulary graph after

namespace Explores

theorem trans (first : Explores vocabulary graph middle)
    (second : Explores vocabulary middle other) : Explores vocabulary graph other := by
  induction second with
  | refl => exact first
  | note _ inward inductionHypothesis => exact .note inductionHypothesis inward
  | locate _ asked inductionHypothesis => exact .locate inductionHypothesis asked
  | evaluate _ addressed evaluates inductionHypothesis =>
      exact .evaluate inductionHypothesis addressed evaluates

theorem advances (explores : Explores vocabulary graph other)
    (resting : graph.Resting vocabulary) : Advances vocabulary graph other := by
  induction explores with
  | refl => exact .refl resting.formed resting.stacked
  | note _ inward inductionHypothesis =>
      exact inductionHypothesis.trans
        (.record inductionHypothesis.formed inductionHypothesis.stacked inward)
  | locate _ asked inductionHypothesis =>
      exact inductionHypothesis.trans
        (advances_locate inductionHypothesis.formed inductionHypothesis.stacked asked)
  | evaluate _ _ evaluates inductionHypothesis =>
      exact inductionHypothesis.trans
        (evaluates.advances inductionHypothesis.formed inductionHypothesis.stacked)

theorem resting (explores : Explores vocabulary graph other)
    (resting : graph.Resting vocabulary) : other.Resting vocabulary :=
  resting.advance (explores.advances resting)

/-- What calculations uphold is upheld by explorations. -/
theorem upheld {trusted : Address → Prop} {holds : Graph → Prop}
    (explores : Explores vocabulary graph other) (upheld : Upheld vocabulary trusted holds)
    (resting : graph.Resting vocabulary) (before : holds graph) : holds other := by
  induction explores with
  | refl => exact before
  | note earlier inward inductionHypothesis =>
      have rested := earlier.resting resting
      exact upheld.step rested.formed (steps_record rested.formed rested.stacked inward)
        inductionHypothesis
  | locate earlier asked inductionHypothesis =>
      have rested := earlier.resting resting
      exact upheld.step rested.formed (steps_locate rested.formed rested.stacked asked)
        inductionHypothesis
  | evaluate earlier addressed evaluates inductionHypothesis =>
      have rested := earlier.resting resting
      exact (evaluates.upholds upheld rested.formed rested.stacked inductionHypothesis addressed).1

theorem sound (explores : Explores vocabulary graph other) (sound : graph.Sound vocabulary) :
    other.Sound vocabulary :=
  ⟨explores.resting sound.toResting, fun faithful =>
    explores.upheld (upheld_coherent faithful.propagating) sound.toResting (sound.coherent faithful)⟩

theorem wired (explores : Explores vocabulary graph other) (resting : graph.Resting vocabulary)
    (wired : graph.Wired) : other.Wired := by
  induction explores with
  | refl => exact wired
  | @note middle entry earlier inward inductionHypothesis =>
      have rested := earlier.resting resting
      exact inductionHypothesis.grow
        (Advances.record rested.formed rested.stacked inward).grows rfl
  | locate earlier asked inductionHypothesis =>
      have rested := earlier.resting resting
      exact inductionHypothesis.grow
        (advances_locate rested.formed rested.stacked asked).grows (edges_locate _ _)
  | evaluate earlier _ evaluates inductionHypothesis =>
      have rested := earlier.resting resting
      exact evaluates.wired rested.formed rested.stacked inductionHypothesis

end Explores

/-! ### Reads from outside -/

section Outside

variable {α : Type}

/-- The calculation of a node from outside. -/
theorem explores_valueOf (resting : graph.Resting vocabulary) {node : NodeId}
    (addressed : ∃ address, graph.addressOf? node = some address) :
    Explores vocabulary graph (graph.valueOf node).2 :=
  .evaluate .refl addressed (evaluates_valueOf resting node)

theorem explores_run {plan : Plan α} {frame after : Frame} {outcome : Except Fault α}
    (asks : plan.Asks (statedScope vocabulary)) (resting : graph.Resting vocabulary)
    (explores : Explores vocabulary graph frame.graph)
    (ran : plan.run outside frame = some (outcome, after)) :
    Explores vocabulary graph after.graph := by
  induction plan generalizing frame with
  | finish result =>
      cases ran
      exact explores
  | ask query resume inductionHypothesis =>
      have located : Explores vocabulary graph (frame.graph.locate query).2 :=
        .locate explores asks.1
      have before := explores.resting resting
      rw [Plan.run, outside, show (Frame.interpreter _).answer = Frame.answer _ from rfl,
        Frame.answer_eq] at ran
      rcases found : frame.graph.locate query with ⟨answer | node, grown⟩
      · rw [found] at located ran
        exact inductionHypothesis answer (asks.2 answer) located ran
      · rw [found] at located ran
        have rested := located.resting resting
        have place := located_locate before.formed before.stacked asks.1 found
        have reads := explores_valueOf rested (rested.formed.located_addressed place)
        exact inductionHypothesis _ (asks.2 _) (located.trans reads) ran
  | consult stat stage path resume inductionHypothesis =>
      have formed := (explores.resting resting).formed
      exact inductionHypothesis _ (asks.2 _ formed.transforms_within) explores ran
  | note entry rest inductionHypothesis =>
      exact inductionHypothesis asks.2 (.note explores (Record.inward_of_note asks.1)) ran

/-- What is performed from outside explores the graph. -/
theorem explores_perform (resting : graph.Resting vocabulary) {plan : Plan α}
    (asks : plan.Asks (statedScope vocabulary)) :
    Explores vocabulary graph (graph.perform plan).2 := by
  have outcome := Option.some_get (Plan.run_isSome outside_answers plan { graph })
  exact explores_run asks resting .refl outcome.symm

theorem explores_readFor (resting : graph.Resting vocabulary) {reading : Reading}
    (within : reading.Within vocabulary) : Explores vocabulary graph (graph.readFor reading).2 :=
  explores_perform resting (Plan.asks_read ⟨within.stat, within.path⟩)

/-- All that a subscriber reads. -/
theorem explores_readAll (resting : graph.Resting vocabulary) {readings : List Reading}
    (within : ∀ reading ∈ readings, reading.Within vocabulary) :
    Explores vocabulary graph (graph.readAll readings).2 := by
  induction readings generalizing graph with
  | nil => exact .refl
  | cons reading rest inductionHypothesis =>
      have first := explores_readFor resting (within reading List.mem_cons_self)
      exact first.trans (inductionHypothesis (first.resting resting)
        fun other member => within other (List.mem_cons_of_mem reading member))

/-- To settle a node is to calculate it and to note a fault. -/
theorem explores_settle (resting : graph.Resting vocabulary) {node : NodeId}
    (addressed : ∃ address, graph.addressOf? node = some address) :
    Explores vocabulary graph (graph.settle node) := by
  have calculated := explores_valueOf resting addressed
  unfold settle
  split
  · next value settled outcome =>
    rw [outcome] at calculated
    exact calculated
  · next fault settled outcome =>
    rw [outcome] at calculated
    split
    · exact .note calculated rfl
    · exact calculated

theorem explores_obtain (graph : Graph) {stat : Stat} (resolved : stat.isResolved) (stage : Stage)
    {path : Path} (within : stat.HeadWithin vocabulary) (route : path.Within vocabulary) :
    Explores vocabulary graph (graph.obtain stat stage path).2 := by
  have located : Explores vocabulary graph (graph.locate (.node stat stage path)).2 :=
    .locate .refl ⟨within, route⟩
  rw [locate_node, if_pos resolved] at located
  exact located

/-! ### Breakdowns -/

theorem onlyReads_pathPlan {asked : Query → Prop} {stat : Stat} {path : Path}
    (reads : ∀ stage, asked (.node stat stage path))
    (members : ∀ form, ∀ member ∈ graph.members stat.id form path.id, asked (.contribution member)) :
    (graph.pathPlan stat path).OnlyReads asked := by
  apply Plan.onlyReads_bind (Plan.onlyReads_read (reads .base))
  intro base
  apply Plan.onlyReads_bind (Plan.onlyReads_read (reads .increase))
  intro increase
  apply Plan.onlyReads_bind (Plan.onlyReads_read (reads .more))
  intro more
  apply Plan.onlyReads_bind (Plan.onlyReads_read (reads .pathTotal))
  intro total
  apply Plan.onlyReads_bind
  · apply Plan.onlyReads_gather
    intro form _
    apply Plan.onlyReads_gather
    intro member enrolled
    exact Plan.onlyReads_bind (Plan.onlyReads_contribution (members form member enrolled)) fun _ =>
      Plan.onlyReads_pure _
  · intro listed
    exact Plan.onlyReads_pure _

/-- A breakdown reads the stages of one stat on its own paths, and the contributions to its rosters. -/
theorem onlyReads_breakdownPlan {asked : Query → Prop} {stat : Stat}
    (main : ∀ stage, asked (.node stat stage .main))
    (reads : ∀ path ∈ graph.paths stat.id, ∀ stage, asked (.node stat stage path))
    (members : ∀ form path, ∀ member ∈ graph.members stat.id form path,
      asked (.contribution member)) : (graph.breakdownPlan stat).OnlyReads asked := by
  apply Plan.onlyReads_bind (Plan.onlyReads_read (main .total))
  intro total
  apply Plan.onlyReads_bind (Plan.onlyReads_read (main .totalOverride))
  intro override
  apply Plan.onlyReads_bind (Plan.onlyReads_read (main .subtotal))
  intro subtotal
  apply Plan.onlyReads_bind
  · apply Plan.onlyReads_gather
    intro path listed
    exact onlyReads_pathPlan (reads path listed) fun form => members form path.id
  · intro parts
    exact Plan.onlyReads_pure _

theorem breakdownPlan_asks (formed : graph.WellFormed vocabulary) {stat : Stat}
    (within : stat.HeadWithin vocabulary) :
    (graph.breakdownPlan stat).Asks (statedScope vocabulary) := by
  have reads : (graph.breakdownPlan stat).OnlyReads (statedScope vocabulary).query :=
    onlyReads_breakdownPlan (fun _ => ⟨within, .main⟩)
      (fun _ listed _ => ⟨within, formed.paths_within listed⟩) fun _ _ _ _ => trivial
  exact reads.asks fun _ => id

/-- A breakdown fails with the first fault that a read answers. -/
theorem breakdownPlan_propagates {heeded : Transform → Prop} {permitted : Fault → Prop}
    (graph : Graph) (stat : Stat) : (graph.breakdownPlan stat).Propagates heeded permitted := by
  have reads : (graph.breakdownPlan stat).OnlyReads fun _ => True :=
    onlyReads_breakdownPlan (fun _ => trivial) (fun _ _ _ => trivial) fun _ _ _ _ => trivial
  exact reads.propagates

end Outside
end Graph
end CharacterSheet
