import CharacterSheet.Proofs.Calculation.Stalling

/-!
Contract: vocabularies within which no calculation puts behaviors in force.

Owns:
- hushed vocabularies, in which a stat that is read inside of a calculation carries no behaviors;
- within them, calculations put nothing in force, so only what is asked for from outside does;
- a node answers what it bears, and bears what it has answered;
- mindful changes, after which each stage bears what it bore or waits to be announced: turns, and
  whatever is read from outside.
-/

namespace CharacterSheet

/-- Vocabularies in which a stat that is read inside of a calculation carries no behaviors. -/
def Vocabulary.Hushed (vocabulary : Vocabulary) : Prop :=
  ∀ stat : Stat, stat.Within vocabulary → stat.behaviors = []

theorem Record.silent_of_note {entry : Record} (note : entry.isNote = true) :
    entry.isRegistration = false := by
  cases entry <;> first | rfl | contradiction

namespace Graph

variable {vocabulary : Vocabulary} {graph middle other : Graph}

/-! ### Calculations without new behaviors -/

theorem registrations_record (graph : Graph) {entry : Record}
    (silent : entry.isRegistration = false) :
    (graph.record entry).registrations = graph.registrations := by
  simp [registrations, record, silent]

/-- A request of a plan is for a stat that is on the sheet or that carries no behaviors. -/
theorem registrations_locate (hushed : vocabulary.Hushed) {address : Address} {query : Query}
    (asked : (graph.scopeOf vocabulary address).query query) :
    (graph.locate query).2.registrations = graph.registrations := by
  cases query with
  | node stat stage path =>
      rw [locate_node]
      split
      · rw [registrations, journal_obtain, ensurePipeline_eq]
        split
        · rfl
        · next absent =>
          have silent : stat.behaviors = [] := by
            rcases asked.1 with within | ⟨pipeline, here, _⟩
            · exact hushed stat within
            · rw [Table.contains, here] at absent
              exact absurd rfl absent
          rw [silent]
          rfl
      · rfl
  | contribution modifier =>
      rw [locate_contribution]
      split <;> rfl

end Graph

open CharacterSheet.Graph

section Induction

variable {vocabulary : Vocabulary}

mutual

/-- No calculation puts behaviors in force. -/
theorem Evaluates.registrations (hushed : vocabulary.Hushed) {node : NodeId} {graph after : Graph}
    {reply : Reply} :
    Evaluates node graph reply after → graph.WellFormed vocabulary → graph.Stacked →
      after.registrations = graph.registrations
  | .absent _, _, _ => rfl
  | .cached _ _, _, _ => rfl
  | .circular _ _, _, _ => rfl
  | @Evaluates.calculated _ _ present _ frame found stale runs, formed, stacked => by
      have entered := formed.enter node
      have address := addressOf?_enter found
      have inner := runs.registrations hushed entered (stacked.enter found stale)
        (planOf_asks entered address)
      rw [leave_eq]
      exact inner

theorem Runs.registrations (hushed : vocabulary.Hushed) {plan : Plan (Option Value)}
    {frame after : Frame} {reply : Reply} {address : Address} :
    Runs plan frame reply after → frame.graph.WellFormed vocabulary → frame.graph.Stacked →
      plan.Asks (frame.graph.scopeOf vocabulary address) →
        after.graph.registrations = frame.graph.registrations
  | .finish, _, _, _ => rfl
  | @Runs.note entry _ frame _ _ rest, formed, stacked, asks => by
      have noted := Advances.record formed stacked (Record.inward_of_note asks.1)
      rw [rest.registrations hushed noted.formed noted.stacked (Asks.grow noted.grows asks.2)]
      exact registrations_record frame.graph (Record.silent_of_note asks.1)
  | .consult rest, formed, stacked, asks => by
      exact rest.registrations hushed formed stacked (asks.2 _ formed.transforms_within)
  | .answered refused rest, formed, stacked, asks => by
      have same := (refused_locate refused).1
      rw [rest.registrations hushed (same ▸ formed) (same ▸ stacked) (same ▸ asks.2 _), same]
  | @Runs.read query resume frame located grown answer graph _ after here evaluates rest, formed,
      stacked, asks => by
      have stated := stated_of_scopeOf formed asks.1
      have making := advances_locate formed stacked stated
      have located := registrations_locate hushed asks.1
      rw [here] at making located
      have evaluated := evaluates.advances making.formed making.stacked
      have inner := evaluates.registrations hushed making.formed making.stacked
      have restAsks := Asks.grow (making.trans evaluated).grows (asks.2 answer)
      rw [rest.registrations hushed evaluated.formed evaluated.stacked restAsks]
      exact inner.trans located

end

end Induction

namespace Graph

variable {vocabulary : Vocabulary} {graph middle other : Graph} {node : NodeId}
  {outcome : Option (Option Value)}

/-! ### Answers -/

theorem Bears.addressed (bears : graph.Bears node outcome) :
    ∃ address, graph.addressOf? node = some address := by
  cases outcome with
  | some value =>
      obtain ⟨present, found, -⟩ := known_eq_some_iff.mp bears
      exact ⟨present.address, addressOf?_of_get? found⟩
  | none =>
      obtain ⟨stuck, stalled, here⟩ := bears
      obtain ⟨address, found, -⟩ := (stalled node here).2.resolve_left id
      exact ⟨address, found⟩

section Answers

variable (propagating : vocabulary.Propagating) (hushed : vocabulary.Hushed)
  (resting : graph.Resting vocabulary)
include propagating hushed resting

/-- A node answers what it bears. -/
theorem Bears.answers (bears : graph.Bears node outcome) :
    borne (graph.valueOf node).1 = outcome :=
  have evaluates := evaluates_valueOf resting node
  bears.answer propagating resting evaluates bears.addressed
    (evaluates.registrations hushed resting.formed resting.stacked).le

/-- After its calculation, a node bears what it answered. -/
theorem bears_valueOf (addressed : ∃ address, graph.addressOf? node = some address) :
    (graph.valueOf node).2.Bears node (borne (graph.valueOf node).1) :=
  have evaluates := evaluates_valueOf resting node
  bears_of_evaluates propagating resting evaluates addressed
    (evaluates.registrations hushed resting.formed resting.stacked).le

end Answers

/-! ### Mindful changes -/

/-- Each stage stays, and goes on bearing what it bore unless a change of it waits to be announced.
What waits goes on waiting. -/
structure Minds (graph other : Graph) : Prop where
  staged : ∀ node, graph.Staged node → other.Staged node
  bears : ∀ node outcome, graph.Staged node → graph.Bears node outcome →
    other.Bears node outcome ∨ node ∈ other.pending.nodes
  waits : ∀ node ∈ graph.pending.nodes, graph.Staged node → node ∈ other.pending.nodes

namespace Minds

theorem refl (graph : Graph) : graph.Minds graph :=
  ⟨fun _ => id, fun _ _ _ => Or.inl, fun _ waits _ => waits⟩

theorem trans (first : graph.Minds middle) (second : middle.Minds other) : graph.Minds other where
  staged := fun node staged => second.staged node (first.staged node staged)
  bears := fun node outcome staged bears => by
    have kept := first.staged node staged
    rcases first.bears node outcome staged bears with still | waits
    · exact second.bears node outcome kept still
    · exact Or.inr (second.waits node waits kept)
  waits := fun node waits staged =>
    second.waits node (first.waits node waits staged) (first.staged node staged)

theorem of_turn (faithful : vocabulary.Faithful) (turns : Turns vocabulary graph other) :
    graph.Minds other :=
  ⟨fun _ => turns.audience.stays, turns.bears faithful, turns.audience.pending⟩

/-- A change that affects no node. -/
theorem of_alters (formed : graph.WellFormed vocabulary) (alters : graph.Alters other Clean Clean)
    (waits : ∀ node ∈ graph.pending.nodes, node ∈ other.pending.nodes) : graph.Minds other where
  staged := by
    rintro node ⟨stat, stage, path, found⟩
    exact ⟨stat, stage, path, alters.addressed node _ id found⟩
  bears := fun _ _ _ bears => Or.inl (bears.alter formed alters id)
  waits := fun node waiting _ => waits node waiting

theorem of_shape (formed : graph.WellFormed vocabulary) (shape : other.shape = graph.shape)
    (edges : other.edges = graph.edges) (known : other.known = graph.known)
    (waits : ∀ node ∈ graph.pending.nodes, node ∈ other.pending.nodes) : graph.Minds other :=
  .of_alters formed (.of_shape shape edges known) waits

theorem record (formed : graph.WellFormed vocabulary) (entry : Record) :
    graph.Minds (graph.record entry) :=
  .of_shape formed rfl rfl rfl fun _ => id

end Minds

/-- Whatever is read from outside is read mindfully. -/
theorem Explores.minds (faithful : vocabulary.Faithful) (hushed : vocabulary.Hushed)
    (sound : graph.Sound vocabulary) (explores : Explores vocabulary graph other) :
    graph.Minds other := by
  induction explores with
  | refl => exact .refl graph
  | note earlier _ inductionHypothesis =>
      exact inductionHypothesis.trans (.record (earlier.resting sound.toResting).formed _)
  | @locate middle query earlier asked inductionHypothesis =>
      refine inductionHypothesis.trans ?_
      cases query with
      | node stat stage path =>
          rw [locate_node]
          split
          · next resolved =>
            exact .of_turn faithful (turns_obtain (earlier.sound sound) resolved asked.1 asked.2)
          · exact .refl middle
      | contribution modifier =>
          rw [locate_contribution]
          split <;> exact .refl middle
  | @evaluate middle own reply after earlier addressed evaluates inductionHypothesis =>
      have rested := earlier.resting sound.toResting
      have grows := (evaluates.advances rested.formed rested.stacked).grows
      have calm := (evaluates.registrations hushed rested.formed rested.stacked).le
      refine inductionHypothesis.trans ⟨?_, ?_, fun reached waits _ => grows.pending reached waits⟩
      · rintro reached ⟨stat, stage, path, found⟩
        exact ⟨stat, stage, path, grows.addressed found⟩
      · exact fun _ _ _ bears =>
          Or.inl (bears.evaluate faithful.propagating rested evaluates addressed calm)

end Graph
end CharacterSheet
