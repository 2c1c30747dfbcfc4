import CharacterSheet.Proofs.Calculation.Stuck
import CharacterSheet.Proofs.Calculation.Evaluation
import CharacterSheet.Proofs.Calculation.Termination

/-!
Contract: what every change of a sheet keeps.

Owns:
- sound graphs: at rest and coherent;
- audiences: who watches what, and who has heard what;
- turns: a sound graph stays sound, its audience stays, and a stage that no longer bears what
  it bore waits to be announced.
-/

namespace CharacterSheet
namespace Graph

variable {vocabulary : Vocabulary} {graph middle other : Graph}

/-! ### Audiences -/

/-- Whether a node calculates a stage. -/
def Staged (graph : Graph) (node : NodeId) : Prop :=
  ∃ stat stage path, graph.addressOf? node = some (.pipeline stat stage path)

/-- The subscriptions to a roster; none if it is missing. -/
def rosterAudience (graph : Graph) (slot : SlotId) : List SubscriptionId :=
  match graph.roster? slot with
  | some roster => roster.subscribers
  | none => []

/-- All that is watched stays watched by the same subscribers, who have heard nothing, and
changed stages keep waiting to be announced. -/
structure Audience (graph other : Graph) : Prop where
  staged : ∀ node present, graph.Staged node → graph.nodes.get? node = some present →
    ∃ cache, other.nodes.get? node = some { present with cache }
  watched : ∀ node present, other.nodes.get? node = some present → present.subscribers ≠ [] →
    ∃ cache, graph.nodes.get? node = some { present with cache }
  rosters : ∀ slot, other.rosterAudience slot = graph.rosterAudience slot
  subscriptions : other.subscriptions = graph.subscriptions
  lastSubscription : other.lastSubscription = graph.lastSubscription
  announcements : other.announcements = graph.announcements
  depth : other.pending.depth = graph.pending.depth
  pending : ∀ node ∈ graph.pending.nodes, graph.Staged node → node ∈ other.pending.nodes
  once : graph.pending.nodes.Nodup → other.pending.nodes.Nodup

theorem Audience.stays (audience : graph.Audience other) {node : NodeId}
    (staged : graph.Staged node) : other.Staged node := by
  obtain ⟨stat, stage, path, found⟩ := staged
  have here := found
  rw [addressOf?, Option.map_eq_some_iff] at here
  obtain ⟨present, there, same⟩ := here
  obtain ⟨cache, later⟩ := audience.staged node present ⟨stat, stage, path, found⟩ there
  exact ⟨stat, stage, path, by rw [addressOf?, later]; exact congrArg some same⟩

theorem Audience.trans (first : graph.Audience middle) (second : middle.Audience other) :
    graph.Audience other where
  staged := by
    intro node present staged found
    obtain ⟨_, between⟩ := first.staged node present staged found
    obtain ⟨cache, later⟩ := second.staged node _ (first.stays staged) between
    exact ⟨cache, later⟩
  watched := by
    intro node present found watched
    obtain ⟨_, between⟩ := second.watched node present found watched
    obtain ⟨cache, earlier⟩ := first.watched node _ between watched
    exact ⟨cache, earlier⟩
  rosters := fun slot => by rw [second.rosters, first.rosters]
  subscriptions := by rw [second.subscriptions, first.subscriptions]
  lastSubscription := by rw [second.lastSubscription, first.lastSubscription]
  announcements := by rw [second.announcements, first.announcements]
  depth := by rw [second.depth, first.depth]
  pending := fun node member staged =>
    second.pending node (first.pending node member staged) (first.stays staged)
  once := fun distinct => second.once (first.once distinct)

theorem Extends.rosterAudience (larger : graph.Extends other) (slot : SlotId) :
    other.rosterAudience slot = graph.rosterAudience slot := by
  unfold Graph.rosterAudience roster?
  cases found : graph.pipelines.get? slot.stat with
  | some pipeline =>
      obtain ⟨nodes, later, _⟩ := larger.pipelines _ pipeline found
      rw [later]
      rfl
  | none =>
      cases later : other.pipelines.get? slot.stat with
      | none => rfl
      | some pipeline =>
          have empty := (larger.opened _ pipeline later found).1
          simp only [Option.bind_some, empty]
          rfl

theorem Audience.of_grows (grows : graph.Grows other) : graph.Audience other where
  staged := fun node present _ found => grows.nodes node present found
  watched := by
    intro node present found watched
    cases before : graph.nodes.get? node with
    | none => exact absurd (grows.unwatched node present found before) watched
    | some earlier =>
        obtain ⟨cache, later⟩ := grows.nodes node earlier before
        rw [found] at later
        cases later
        exact ⟨earlier.cache, rfl⟩
  rosters := grows.rosterAudience
  subscriptions := grows.subscriptions
  lastSubscription := grows.lastSubscription
  announcements := grows.announcements
  depth := grows.depth
  pending := fun node member _ => grows.pending node member
  once := grows.once

/-- Only stages are watched. -/
def Attended (graph : Graph) : Prop :=
  ∀ node present, graph.nodes.get? node = some present → present.subscribers ≠ [] →
    graph.Staged node

/-- Nobody watches the node of a contribution. -/
theorem Attended.unwatched (attended : graph.Attended) {node : NodeId} {modifier : ModifierId}
    {present : Node} (address : graph.addressOf? node = some (.contribution modifier))
    (found : graph.nodes.get? node = some present) : present.subscribers = [] := by
  by_contra watched
  obtain ⟨stat, stage, path, staged⟩ := attended node present found watched
  rw [address] at staged
  cases staged

theorem Audience.attended (audience : graph.Audience other) (attended : graph.Attended) :
    other.Attended := by
  intro node present found watched
  obtain ⟨cache, before⟩ := audience.watched node present found watched
  exact audience.stays (attended node _ before watched)

/-! ### Sound graphs and turns -/

end Graph

/-- Vocabularies within which no fault is swallowed and the base of a converted path hears of
every change of its link. -/
structure Vocabulary.Faithful (vocabulary : Vocabulary) : Prop where
  propagating : vocabulary.Propagating
  global : vocabulary.Global

namespace Graph

variable {vocabulary : Vocabulary} {graph middle other : Graph}
  {affected dirty : NodeId → Prop}

/-- A graph at rest; within a faithful vocabulary its values can be relied on, and they are
exact if the vocabulary is flat. -/
structure Sound (vocabulary : Vocabulary) (graph : Graph) : Prop extends
    graph.Resting vocabulary where
  coherent : vocabulary.Faithful → graph.Coherent fun _ => ¬ vocabulary.Flat

theorem Sound.clean (sound : graph.Sound vocabulary) (faithful : vocabulary.Faithful)
    (flat : vocabulary.Flat) : graph.Coherent Clean := by
  have exact := sound.coherent faithful
  exact ⟨exact.grounded, fun node value known _ =>
    exact.justified node value known (not_not.mpr flat)⟩

/-- A sound graph stays sound, and within a faithful vocabulary each stage goes on bearing what
it bore or waits to be announced. -/
structure Turns (vocabulary : Vocabulary) (graph other : Graph) : Prop where
  sound : other.Sound vocabulary
  audience : graph.Audience other
  bears : vocabulary.Faithful → ∀ node outcome, graph.Staged node → graph.Bears node outcome →
    other.Bears node outcome ∨ node ∈ other.pending.nodes

theorem Turns.trans (first : Turns vocabulary graph middle)
    (second : Turns vocabulary middle other) : Turns vocabulary graph other where
  sound := second.sound
  audience := first.audience.trans second.audience
  bears := by
    intro faithful node outcome staged bears
    have later := first.audience.stays staged
    rcases first.bears faithful node outcome staged bears with kept | pending
    · exact second.bears faithful node outcome later kept
    · exact Or.inr (second.audience.pending node pending later)

theorem Turns.refl (sound : graph.Sound vocabulary) : Turns vocabulary graph graph :=
  ⟨sound, .of_grows (.refl graph), fun _ _ _ _ => Or.inl⟩

/-- A loud change is a turn, if each dirty node that it does not affect is still justified or
still held back. -/
theorem Turns.of_alters (sound : graph.Sound vocabulary) (resting : other.Resting vocabulary)
    (audience : graph.Audience other)
    (alters : vocabulary.Faithful → graph.Alters other affected dirty)
    (loud : ∀ node, graph.Staged node → affected node → node ∈ other.pending.nodes)
    (justified : vocabulary.Faithful → vocabulary.Flat → ∀ node value, dirty node →
      other.known node = some value → other.Justified node value)
    (held : vocabulary.Faithful → ∀ node stuck, dirty node → ¬ affected node →
      graph.Stalled Clean stuck → stuck node →
        other.Held (fun node => stuck node ∧ ¬ affected node) node) :
    Turns vocabulary graph other where
  sound :=
    { resting with
      coherent := by
        intro faithful
        have kept : other.Coherent fun node => ¬ vocabulary.Flat ∨ dirty node :=
          (alters faithful).coherent sound.formed (sound.coherent faithful) fun _ => Or.inr
        refine ⟨kept.grounded, ?_⟩
        intro node value known exact
        by_cases dirtied : dirty node
        · exact justified faithful (not_not.mp exact) node value dirtied known
        · exact kept.justified node value known (not_or.mpr ⟨exact, dirtied⟩) }
  audience := audience
  bears := by
    intro faithful node outcome staged bears
    replace alters := alters faithful
    by_cases reached : affected node
    · exact Or.inr (loud node staged reached)
    · left
      cases outcome with
      | some value =>
          show other.known node = some value
          rw [alters.known node reached]
          exact bears
      | none =>
          obtain ⟨stuck, stalled, here⟩ := bears
          refine ⟨fun node => stuck node ∧ ¬ affected node, ?_, here, reached⟩
          have kept : other.Stalled dirty fun node => stuck node ∧ ¬ affected node :=
            stalled.alter sound.formed alters fun _ _ _ dirtied => dirtied.elim False.elim id
          rintro stalledNode ⟨inside, unaffected⟩
          obtain ⟨unknown, dirtied | heldBack⟩ := kept stalledNode ⟨inside, unaffected⟩
          · exact ⟨unknown,
              Or.inr (held faithful stalledNode stuck dirtied unaffected stalled inside)⟩
          · exact ⟨unknown, Or.inr heldBack⟩

/-- A loud change that leaves nothing dirty is a turn. -/
theorem Turns.of_clean (sound : graph.Sound vocabulary) (resting : other.Resting vocabulary)
    (audience : graph.Audience other)
    (alters : vocabulary.Faithful → graph.Alters other affected Clean)
    (loud : ∀ node, graph.Staged node → affected node → node ∈ other.pending.nodes) :
    Turns vocabulary graph other :=
  .of_alters sound resting audience alters loud (fun _ _ _ _ none => none.elim)
    fun _ _ _ none => none.elim

/-- Growth that affects nothing is a turn. -/
theorem Turns.of_advance (sound : graph.Sound vocabulary)
    (advances : Advances vocabulary graph other)
    (alters : graph.Alters other Clean Clean) : Turns vocabulary graph other :=
  .of_clean sound (sound.toResting.advance advances)
    (.of_grows advances.grows) (fun _ => alters) fun _ _ none => none.elim

/-! ### Finding or making a node -/

theorem turns_ensurePipeline (sound : graph.Sound vocabulary) {stat : Stat}
    (resolved : stat.isResolved) (within : stat.HeadWithin vocabulary) :
    Turns vocabulary graph (graph.ensurePipeline stat) := by
  rw [ensurePipeline_eq]
  split
  · exact .refl sound
  · next absent =>
    have missing : graph.pipelines.get? stat.id = none := by
      simpa [Table.contains] using absent
    have opens := advances_openPipeline sound.formed sound.stacked missing resolved within
    have opened := Turns.of_advance sound opens
      (alters_openPipeline sound.formed opens.grows)
    split
    · exact opened
    · next unforced =>
      have unforced' : (graph.openPipeline stat).behaviors.get? stat.id = none := by
        simp only [Bool.or_eq_true, not_or, Table.contains, Bool.not_eq_true,
          Option.isSome_eq_false_iff, Option.isNone_iff_eq_none] at unforced
        exact unforced.2
      have enforces : Advances vocabulary (graph.openPipeline stat)
          ((graph.openPipeline stat).enforce stat.id stat.behaviors) :=
        advances_enforce opens.formed opens.stacked within.behaviors
      apply opened.trans
      have inForce : (graph.openPipeline stat).Alters
          ((graph.openPipeline stat).putInForce stat.id stat.behaviors) Clean
            fun node => node ∈ stat.behaviors.flatMap (graph.openPipeline stat).behaviorTargets :=
        alters_putInForce opens.formed unforced'
      rw [enforce, invalidateTargets_eq] at enforces ⊢
      refine .of_clean opened.sound (opened.sound.toResting.advance enforces)
        (.of_grows enforces.grows) (fun _ => inForce.invalidate _ fun _ _ _ => Or.inl) ?_
      intro node _ reached
      exact (pending_invalidateAll _ _ node).mpr (Or.inr reached)

theorem turns_obtain (sound : graph.Sound vocabulary) {stat : Stat} {stage : Stage} {path : Path}
    (resolved : stat.isResolved) (within : stat.HeadWithin vocabulary)
    (route : path.Within vocabulary) :
    Turns vocabulary graph (graph.obtain stat stage path).2 := by
  have ready := turns_ensurePipeline sound resolved within
  obtain ⟨pipeline, opened⟩ := graph.pipeline_ensurePipeline stat
  have goal : Turns vocabulary graph (graph.obtain stat stage path).2 ∧
      Advances vocabulary (graph.ensurePipeline stat) (graph.obtain stat stage path).2 := by
    apply obtain_induction (motive := fun grown => Turns vocabulary graph grown ∧
      Advances vocabulary (graph.ensurePipeline stat) grown)
    · exact ⟨ready, .refl ready.sound.formed ready.sound.stacked⟩
    · rintro grown other place ⟨turns, advances⟩ either fits missing
      have added := advances.addStage opened (within_of_route route either) fits missing
      refine ⟨turns.trans ?_, added⟩
      obtain ⟨nodes, here, _⟩ := advances.grows.pipelines _ pipeline opened
      have unlisted : nodes.get? (other, place.id) = none := by
        rw [node?, here, fits] at missing
        exact missing
      have grows := advances_addStage turns.sound.formed turns.sound.stacked here unlisted fits
        (within_of_route route either)
      exact .of_advance turns.sound grows (alters_addStage turns.sound.formed grows.grows)
  exact goal.1

end Graph
end CharacterSheet
