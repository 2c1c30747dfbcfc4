import CharacterSheet.Proofs.Change.Adding
import CharacterSheet.Proofs.Change.Discarding

/-!
Contract: removing a modifier is a turn.

Owns:
- taking a modifier out of the roster of one stat, and out of the rosters of several;
- removing a modifier with the node that calculated its contribution.

While a modifier is being removed it is out of the table of modifiers already, but still in
some rosters. The rosters do not look at that table, so the proof leaves the modifier in the
table until it has left all rosters.
-/

namespace CharacterSheet

theorem Slot.WellFormed.remove {vocabulary : Vocabulary} {modifiers : Table ModifierId Modifier}
    {stat : StatId} {form : Form} {path : PathId} {slot : Slot} {member : ModifierId}
    {roster : Roster ModifierId} {change : Delta ModifierId}
    (formed : slot.WellFormed vocabulary modifiers stat form path)
    (removed : slot.roster.remove? member = some (roster, change)) :
    Slot.WellFormed vocabulary modifiers stat form path { slot with roster } ∧
      roster.subscribers = slot.roster.subscribers ∧ member ∈ slot.roster.members ∧
        roster.members = slot.roster.members.erase member := by
  have distinct := Roster.nodup_remove? formed.distinct removed
  unfold Roster.remove? at removed
  split at removed
  · next inside =>
    cases removed
    refine ⟨⟨formed.path_id, formed.place, formed.within, distinct, ?_⟩, rfl, inside, rfl⟩
    intro other here
    exact formed.enrolled other (List.mem_of_mem_erase here)
  · contradiction

namespace Graph

variable {vocabulary : Vocabulary} {graph : Graph} {modifier : Modifier} {stat : Stat}

/-! ### Leaving -/

/-- Unlink the ends of a stat that the last modifier ceases to contribute to. -/
def unlinkIf (graph : Graph) (last : Prop) [Decidable last] (stat : Stat) : Graph :=
  if last then
    match stat.ends?, graph.links.unregister? stat with
    | some (source, target), some links =>
        graph.relink links (.unlinked source.id target.id) source.id target.id
    | _, _ => graph
  else graph

/-- The change of a roster that a modifier leaves. -/
def dismiss (graph : Graph) (modifier : Modifier) (stat : StatId) (pipeline : Pipeline)
    (filled : Slot) (change : Delta ModifierId) : Graph :=
  graph.changeRoster ⟨stat, modifier.form, modifier.path.id⟩ filled (pipeline.memberships - 1) change
    (!modifier.path.isMain && !(pipeline.fill modifier.form modifier.path.id filled
      (pipeline.memberships - 1)).hasMembersOn modifier.path.id)

/-- A modifier leaves a roster by one change of the roster and, if it is the last of its stat,
one of the links. -/
theorem leaveRoster_eq {pipeline : Pipeline} {slot : Slot} {roster : Roster ModifierId}
    {change : Delta ModifierId} (here : graph.pipelines.get? stat.id = some pipeline)
    (filled : pipeline.slots.get? (modifier.form, modifier.path.id) = some slot)
    (removed : slot.roster.remove? modifier.id = some (roster, change)) :
    leaveRoster modifier graph stat =
      (graph.dismiss modifier stat.id pipeline { slot with roster } change).unlinkIf
        (pipeline.memberships - 1 = 0) pipeline.stat := by
  have entered : graph.enterRoster ⟨stat.id, modifier.form, modifier.path.id⟩ { slot with roster }
      (pipeline.memberships - 1) = graph.modifyPipeline stat.id fun _ =>
        pipeline.fill modifier.form modifier.path.id { slot with roster }
          (pipeline.memberships - 1) := by
    simp only [enterRoster, modifyPipeline, Table.modify_of_found here]
  rw [dismiss, changeRoster_eq, entered]
  simp only [leaveRoster, here, filled, removed]
  rfl

theorem turns_unlinkIf (sound : graph.Sound vocabulary) (last : Prop)
    [Decidable last] : Turns vocabulary graph (graph.unlinkIf last stat) := by
  unfold unlinkIf
  split
  · split
    · next source target links ends undone =>
      exact turns_relink sound (Links.relinks_unregister ends undone)
        (sound.formed.links.unregister undone) rfl
    · exact .refl sound
  · exact .refl sound

/-- What is left of a graph when modifiers leave rosters: nodes, edges and modifiers as before,
and fewer members. -/
structure Thins (graph other : Graph) : Prop where
  edges : other.edges = graph.edges
  addressed : other.addressOf? = graph.addressOf?
  node? : other.node? = graph.node?
  modifiers : other.modifiers = graph.modifiers
  contributions : other.contributions = graph.contributions
  members : ∀ own form path member, member ∈ other.members own form path →
    member ∈ graph.members own form path

theorem Thins.refl (graph : Graph) : graph.Thins graph :=
  ⟨rfl, rfl, rfl, rfl, rfl, fun _ _ _ _ inside => inside⟩

theorem Thins.trans {middle other : Graph} (first : graph.Thins middle)
    (second : middle.Thins other) : graph.Thins other where
  edges := second.edges.trans first.edges
  addressed := second.addressed.trans first.addressed
  node? := second.node?.trans first.node?
  modifiers := second.modifiers.trans first.modifiers
  contributions := second.contributions.trans first.contributions
  members := fun own form path member inside =>
    first.members own form path member (second.members own form path member inside)

theorem thins_changeRoster {slot : SlotId} {filled : Slot} {pipeline : Pipeline}
    (here : graph.pipelines.get? slot.stat = some pipeline) (memberships : Nat)
    (fewer : ∀ member ∈ filled.roster.members, member ∈ graph.members slot.stat slot.form slot.path)
    (change : Delta ModifierId) (widens : Bool) :
    graph.Thins (graph.changeRoster slot filled memberships change widens) := by
  have shape := graph.shape_changeRoster slot filled memberships change widens
  refine ⟨(fades_invalidateAll _ _).edges, (addressOf?_of_shape shape :), ?_,
    congrArg Shape.modifiers shape, congrArg Shape.contributions shape, ?_⟩
  · rw [node?_of_shape shape]
    exact graph.node?_enterRoster slot filled memberships
  · intro own form path member inside
    have same : (graph.changeRoster slot filled memberships change widens).members own form path =
        (graph.enterRoster slot filled memberships).members own form path := by
      unfold members
      rw [show (graph.changeRoster slot filled memberships change widens).pipelines =
        (graph.enterRoster slot filled memberships).pipelines from congrArg Shape.pipelines shape]
    rw [same, members_enterRoster here] at inside
    split at inside
    · next equal =>
      obtain ⟨rfl, rfl, rfl⟩ := equal
      exact fewer member inside
    · exact inside

theorem thins_unlinkIf (graph : Graph) (last : Prop) [Decidable last] (stat : Stat) :
    graph.Thins (graph.unlinkIf last stat) := by
  unfold unlinkIf
  split
  · split
    · next source target links _ _ =>
      have shape := graph.shape_relink links (.unlinked source.id target.id) source.id target.id
      refine ⟨?_, (addressOf?_of_shape shape :), (node?_of_shape shape :),
        congrArg Shape.modifiers shape, congrArg Shape.contributions shape, ?_⟩
      · rw [relink, linkChanged_eq]
        exact (fades_invalidateAll _ _).edges
      · intro own form path member inside
        unfold members at inside ⊢
        rw [show (graph.relink links _ source.id target.id).pipelines = graph.pipelines from
          congrArg Shape.pipelines shape] at inside
        exact inside
    · exact .refl graph
  · exact .refl graph

theorem members_unlinkIf (graph : Graph) (last : Prop) [Decidable last] (stat : Stat) (own : StatId)
    (form : Form) (path : PathId) :
    (graph.unlinkIf last stat).members own form path = graph.members own form path := by
  unfold unlinkIf
  split
  · split
    · next source target links _ _ =>
      unfold members
      rw [show (graph.relink links _ source.id target.id).pipelines = graph.pipelines from
        congrArg Shape.pipelines (graph.shape_relink links _ source.id target.id)]
    · rfl
  · rfl

/-- A graph after a modifier left some rosters: all other members are still there, and whatever
depended on a roster that it left waits to be announced. -/
structure Leaves (vocabulary : Vocabulary) (modifier : Modifier) (graph other : Graph) : Prop where
  turns : Turns vocabulary graph other
  thins : graph.Thins other
  others : ∀ own form path member, member ≠ modifier.id →
    member ∈ graph.members own form path → member ∈ other.members own form path
  loud : ∀ own start node, modifier.id ∈ graph.members own modifier.form modifier.path.id →
    modifier.id ∉ other.members own modifier.form modifier.path.id →
      graph.node? own modifier.form.stage modifier.path.id = some start → graph.Staged node →
        graph.Reaches start node → node ∈ other.pending.nodes

theorem Leaves.refl (sound : graph.Sound vocabulary) (modifier : Modifier) :
    Leaves vocabulary modifier graph graph :=
  ⟨.refl sound, .refl graph, fun _ _ _ _ _ inside => inside,
    fun _ _ _ inside outside => absurd inside outside⟩

theorem Leaves.trans {middle other : Graph} (first : Leaves vocabulary modifier graph middle)
    (second : Leaves vocabulary modifier middle other) : Leaves vocabulary modifier graph other where
  turns := first.turns.trans second.turns
  thins := first.thins.trans second.thins
  others := fun own form path member distinct inside =>
    second.others own form path member distinct (first.others own form path member distinct inside)
  loud := by
    intro own start node before after found staged reaches
    by_cases between : modifier.id ∈ middle.members own modifier.form modifier.path.id
    · apply second.loud own start node between after _ (first.turns.audience.stays staged)
      · rw [Reaches, show middle.Feeds = graph.Feeds from by
          unfold Feeds
          rw [first.thins.edges]]
        exact reaches
      · rw [first.thins.node?]
        exact found
    · exact second.turns.audience.pending node
        (first.loud own start node before between found staged reaches)
        (first.turns.audience.stays staged)

theorem members_of_filled {own : StatId} {pipeline : Pipeline} {form : Form} {path : PathId}
    {slot : Slot} (here : graph.pipelines.get? own = some pipeline)
    (filled : pipeline.slots.get? (form, path) = some slot) :
    graph.members own form path = slot.roster.members := by
  simp only [members, here, Pipeline.members, filled]

/-- To take a member out of a roster is a turn. -/
theorem turns_takeOut (sound : graph.Sound vocabulary)
    {pipeline : Pipeline} {slot : Slot} {roster : Roster ModifierId} {change : Delta ModifierId}
    (here : graph.pipelines.get? stat.id = some pipeline)
    (filled : pipeline.slots.get? (modifier.form, modifier.path.id) = some slot)
    (removed : slot.roster.remove? modifier.id = some (roster, change)) :
    Turns vocabulary graph
      (graph.dismiss modifier stat.id pipeline { slot with roster } change) := by
  have fits := (sound.formed.pipelines _ pipeline here).slots _ _ slot filled
  obtain ⟨filledFits, subscribers, inside, _⟩ := fits.remove removed
  have heard : roster.subscribers =
      graph.rosterAudience ⟨stat.id, modifier.form, modifier.path.id⟩ := by
    simp only [subscribers, rosterAudience, roster?, here, filled, Option.bind_some,
      Option.map_some]
  refine turns_changeRoster sound here filledFits ?_ heard
  by_cases main : modifier.path.isMain = true
  · right
    left
    rw [PathOf.isMain_iff] at main
    rw [main]
    rfl
  · by_cases after : (pipeline.fill modifier.form modifier.path.id
        { slot with roster } (pipeline.memberships - 1)).hasMembersOn modifier.path.id = true
    · right
      right
      exact ⟨Pipeline.hasMembersOn_of_mem filled inside, after⟩
    · left
      simp [main, after]

/-- A modifier that is to leave a roster is not there, or it leaves the roster. -/
theorem leaveRoster_cases (graph : Graph) (modifier : Modifier) (stat : Stat) :
    (leaveRoster modifier graph stat = graph ∧
        modifier.id ∉ graph.members stat.id modifier.form modifier.path.id) ∨
      ∃ pipeline slot roster change, graph.pipelines.get? stat.id = some pipeline ∧
        pipeline.slots.get? (modifier.form, modifier.path.id) = some slot ∧
          slot.roster.remove? modifier.id = some (roster, change) ∧
            leaveRoster modifier graph stat =
              (graph.dismiss modifier stat.id pipeline { slot with roster } change).unlinkIf
                (pipeline.memberships - 1 = 0) pipeline.stat := by
  cases here : graph.pipelines.get? stat.id with
  | none =>
      left
      exact ⟨by simp only [leaveRoster, here], by simp [members, here]⟩
  | some pipeline =>
      cases filled : pipeline.slots.get? (modifier.form, modifier.path.id) with
      | none =>
          left
          exact ⟨by simp only [leaveRoster, here, filled],
            by simp [members, here, Pipeline.members, filled]⟩
      | some slot =>
          cases removed : slot.roster.remove? modifier.id with
          | none =>
              left
              refine ⟨by simp only [leaveRoster, here, filled, removed], ?_⟩
              rw [members_of_filled here filled]
              simpa [Roster.remove?] using removed
          | some outcome =>
              right
              exact ⟨pipeline, slot, outcome.1, outcome.2, rfl, filled, removed,
                leaveRoster_eq here filled removed⟩

/-- A modifier that is not in a roster leaves nothing behind. -/
theorem leaveRoster_absent (formed : graph.WellFormed vocabulary)
    (absent : modifier.id ∉ graph.members stat.id modifier.form modifier.path.id) :
    leaveRoster modifier graph stat = graph := by
  rcases graph.leaveRoster_cases modifier stat with ⟨stays, _⟩ |
    ⟨pipeline, slot, roster, change, here, filled, removed, _⟩
  · exact stays
  · have fits := (formed.pipelines _ pipeline here).slots _ _ slot filled
    rw [members_of_filled here filled] at absent
    exact absurd (fits.remove removed).2.2.1 absent

/-- Taking a modifier out of the roster of one of its stats. -/
theorem leaves_leaveRoster (sound : graph.Sound vocabulary) (modifier : Modifier) (stat : Stat) :
    Leaves vocabulary modifier graph (leaveRoster modifier graph stat) ∧
      modifier.id ∉ (leaveRoster modifier graph stat).members stat.id modifier.form
        modifier.path.id := by
  rcases graph.leaveRoster_cases modifier stat with ⟨same, absent⟩ |
    ⟨pipeline, slot, roster, change, here, filled, removed, same⟩
  · rw [same]
    exact ⟨.refl sound modifier, absent⟩
  · have listed := members_of_filled here filled
    have fits := (sound.formed.pipelines _ pipeline here).slots _ _ slot filled
    obtain ⟨_, _, _, erased⟩ := fits.remove removed
    have changes := turns_takeOut sound here filled removed
    have unlinks : Turns vocabulary _ (unlinkIf _ (pipeline.memberships - 1 = 0)
        pipeline.stat) := turns_unlinkIf changes.sound _
    rw [same]
    refine ⟨⟨changes.trans unlinks, ?_, ?_, ?_⟩, ?_⟩
    · apply Thins.trans _ (thins_unlinkIf _ _ _)
      apply thins_changeRoster here
      intro member still
      rw [erased] at still
      exact listed ▸ List.mem_of_mem_erase still
    · intro own form path member distinct before
      rw [members_unlinkIf, dismiss, members_changeRoster here]
      split
      · next equal =>
        obtain ⟨rfl, rfl, rfl⟩ := equal
        rw [listed] at before
        rw [erased]
        exact (List.mem_erase_of_ne distinct).mpr before
      · exact before
    · intro own start node before after found staged reaches
      rw [members_unlinkIf, dismiss, members_changeRoster here] at after
      split at after
      · next equal =>
        obtain ⟨rfl, _, _⟩ := equal
        apply unlinks.audience.pending node _ (changes.audience.stays staged)
        apply (pending_invalidateAll _ _ node).mpr
        right
        refine (graph.mem_dependents_iff _ node).mpr ⟨start, ?_, ?_, reaches⟩
        · simp [rosterStarts, found]
        · obtain ⟨full, address, _⟩ := sound.formed.address_of_node? found
          exact contains_of_addressed address
      · exact absurd before after
    · rw [members_unlinkIf, dismiss, members_changeRoster here, if_pos ⟨rfl, rfl, rfl⟩]
      show modifier.id ∉ roster.members
      rw [erased]
      exact fits.distinct.not_mem_erase

/-- Taking a modifier out of the rosters of some of its stats. -/
theorem leaves_foldl (modifier : Modifier)
    (stats : List Stat) (sound : graph.Sound vocabulary) :
    Leaves vocabulary modifier graph (stats.foldl (leaveRoster modifier) graph) ∧
      ∀ stat ∈ stats, modifier.id ∉ (stats.foldl (leaveRoster modifier) graph).members stat.id
        modifier.form modifier.path.id := by
  induction stats generalizing graph with
  | nil => exact ⟨.refl sound modifier, by simp⟩
  | cons head rest inductionHypothesis =>
      obtain ⟨first, gone⟩ := leaves_leaveRoster sound modifier head
      obtain ⟨later, others⟩ := inductionHypothesis first.turns.sound
      refine ⟨first.trans later, ?_⟩
      intro stat member
      rcases List.mem_cons.mp member with rfl | member
      · exact fun still => gone (later.thins.members _ _ _ _ still)
      · exact others stat member

/-- The same graph with another table of modifiers. -/
def withModifiers (graph : Graph) (modifiers : Table ModifierId Modifier) : Graph :=
  { graph with modifiers }

theorem invalidateAll_withModifiers (graph : Graph) (modifiers : Table ModifierId Modifier)
    (starts : List NodeId) :
    (graph.withModifiers modifiers).invalidateAll starts =
      (graph.invalidateAll starts).withModifiers modifiers := by
  induction starts generalizing graph with
  | nil => rfl
  | cons start rest inductionHypothesis =>
      have first : (graph.withModifiers modifiers).invalidate start =
          (graph.invalidate start).withModifiers modifiers := by
        rw [invalidate_eq, invalidate_eq]
        rfl
      simp only [invalidateAll, List.foldl_cons, first]
      exact inductionHypothesis (graph.invalidate start)

theorem changeRoster_withModifiers (graph : Graph) (modifiers : Table ModifierId Modifier)
    (slot : SlotId) (filled : Slot) (memberships : Nat) (change : Delta ModifierId)
    (widens : Bool) :
    (graph.withModifiers modifiers).changeRoster slot filled memberships change widens =
      (graph.changeRoster slot filled memberships change widens).withModifiers modifiers :=
  invalidateAll_withModifiers
    ((graph.enterRoster slot filled memberships).modifyPending (·.submitSlot slot change))
    modifiers (graph.rosterStarts slot widens)

theorem unlinkIf_withModifiers (graph : Graph) (modifiers : Table ModifierId Modifier)
    (last : Prop) [Decidable last] (stat : Stat) :
    (graph.withModifiers modifiers).unlinkIf last stat =
      (graph.unlinkIf last stat).withModifiers modifiers := by
  unfold unlinkIf
  by_cases now : last
  · simp only [now, ↓reduceIte, show (graph.withModifiers modifiers).links = graph.links from rfl]
    cases stat.ends? with
    | none => rfl
    | some ends =>
        cases graph.links.unregister? stat with
        | none => rfl
        | some links =>
            simp only [relink, linkChanged_eq]
            exact invalidateAll_withModifiers
              ({ graph with links }.record (.unlinked ends.1.id ends.2.id)) modifiers
              (({ graph with links }.record (.unlinked ends.1.id ends.2.id)).linkTargets
                ends.1.id ends.2.id)
  · simp only [now, ↓reduceIte]

/-- Nothing that leaving a roster does looks at the table of modifiers. -/
theorem leaveRoster_withModifiers (graph : Graph) (modifiers : Table ModifierId Modifier)
    (modifier : Modifier) (stat : Stat) :
    leaveRoster modifier (graph.withModifiers modifiers) stat =
      (leaveRoster modifier graph stat).withModifiers modifiers := by
  have shown : (graph.withModifiers modifiers).pipelines = graph.pipelines := rfl
  cases here : graph.pipelines.get? stat.id with
  | none => simp only [leaveRoster, shown, here]
  | some pipeline =>
      cases filled : pipeline.slots.get? (modifier.form, modifier.path.id) with
      | none => simp only [leaveRoster, shown, here, filled]
      | some slot =>
          cases removed : slot.roster.remove? modifier.id with
          | none => simp only [leaveRoster, shown, here, filled, removed]
          | some outcome =>
              obtain ⟨roster, change⟩ := outcome
              rw [leaveRoster_eq here filled removed,
                leaveRoster_eq (shown ▸ here) filled removed, dismiss, changeRoster_withModifiers,
                unlinkIf_withModifiers]
              rfl

theorem foldl_leaveRoster_withModifiers (modifiers : Table ModifierId Modifier)
    (modifier : Modifier) (stats : List Stat) (graph : Graph) :
    stats.foldl (leaveRoster modifier) (graph.withModifiers modifiers) =
      (stats.foldl (leaveRoster modifier) graph).withModifiers modifiers := by
  induction stats generalizing graph with
  | nil => rfl
  | cons head rest inductionHypothesis =>
      rw [List.foldl_cons, List.foldl_cons, leaveRoster_withModifiers]
      exact inductionHypothesis _

/-! ### The node of a removed modifier -/

section Departure

variable {left : Graph} {node : NodeId} (sound : left.Sound vocabulary)
  (known : left.modifiers.get? modifier.id = some modifier)
  (found : left.contributions.get? modifier.id = some node)
  (absent : ∀ own form path, modifier.id ∉ left.members own form path)

include sound found absent

theorem abandons_modifier : left.Abandons (· ∈ [node]) (left.modifiers.erase modifier.id)
    (left.contributions.erase modifier.id) where
  fewer := by
    intro member other there
    rw [Table.get?_erase] at there
    split at there
    · contradiction
    · next distinct =>
      refine ⟨there, fun same => distinct ?_⟩
      rw [List.mem_singleton.mp same] at there
      have first := sound.formed.contributing _ _ there
      have second := sound.formed.contributing _ _ found
      rw [first] at second
      cases second
      rfl
  kept := by
    intro member other there stays
    have distinct : member ≠ modifier.id := by
      rintro rfl
      rw [found] at there
      cases there
      exact stays (List.mem_singleton_self _)
    rw [Table.get?_erase, if_neg distinct, Table.get?_erase, if_neg distinct]
    exact ⟨there, rfl⟩
  present := by
    intro id other there
    rw [Table.get?_erase] at there
    split at there
    · contradiction
    · next distinct =>
      rw [Table.get?_erase, if_neg distinct]
      exact ⟨there, (sound.formed.present id other there).2.2⟩
  enrolled := by
    intro own form path member inside
    rw [Table.get?_erase, if_neg]
    rintro rfl
    exact absent own form path inside

theorem turns_depart (joined : left.Joined)
    (unheard : ∀ present, left.nodes.get? node = some present → present.subscribers = [])
    (loud : ∀ other, left.Staged other → left.Reaches node other → other ∈ left.pending.nodes) :
    Turns vocabulary left ((left.removeNodes [node]).retable (left.modifiers.erase modifier.id)
      (left.contributions.erase modifier.id)) := by
  have formed := sound.formed
  have discards := left.discards_removeNodes formed joined [node]
  have abandons := abandons_modifier sound found absent
  have stays {other : NodeId} (staged : left.Staged other) : other ∉ [node] := by
    obtain ⟨own, stage, path, address⟩ := staged
    intro same
    rw [List.mem_singleton.mp same, formed.contributing _ _ found] at address
    cases address
  refine .of_clean sound ⟨formed.discard discards abandons, ?_, ?_⟩ ?_
    (fun _ => formed.alters_discard discards abandons) ?_
  · exact discards.stacked_retable sound.toResting _ _
  · exact discards.evaluating.trans sound.idle
  · refine discards.audience (fun _ staged => stays staged) ?_ _ _
    intro other present same there
    rw [List.mem_singleton.mp same] at there
    exact unheard present there
  · rintro other staged ⟨start, same, reaches⟩
    rw [List.mem_singleton.mp same] at reaches
    exact (discards.pending other (stays staged)).mpr (loud other staged reaches)

end Departure

/-- Once a modifier has left all rosters of its stats, it is in no roster. -/
theorem Leaves.absent {other : Graph} (leaves : Leaves vocabulary modifier graph other)
    (known : graph.modifiers.get? modifier.id = some modifier)
    (gone : ∀ stat ∈ modifier.stats,
      modifier.id ∉ other.members stat.id modifier.form modifier.path.id)
    (own : StatId) (form : Form) (path : PathId) : modifier.id ∉ other.members own form path := by
  intro inside
  obtain ⟨present, found, rfl, rfl, named, member, rfl⟩ :=
    leaves.turns.sound.formed.enrolled inside
  rw [leaves.thins.modifiers, known] at found
  cases found
  exact gone named member inside

/-- Whatever reads the contribution of a modifier collects a roster in which it stands. -/
theorem Wired.collector (wired : graph.Wired) (formed : graph.WellFormed vocabulary)
    (known : graph.modifiers.get? modifier.id = some modifier) {start consumer : NodeId}
    (found : graph.contributions.get? modifier.id = some start)
    (feeds : graph.Feeds start consumer) : ∃ stat ∈ modifier.stats,
      modifier.id ∈ graph.members stat.id modifier.form modifier.path.id ∧
        graph.node? stat.id modifier.form.stage modifier.path.id = some consumer := by
  obtain ⟨place, there, collects⟩ := wired.enrolled start consumer feeds
  have enrolls := collects modifier.id (formed.contributing _ _ found)
  cases place with
  | contribution own => exact enrolls.elim
  | pipeline own stage path =>
      obtain ⟨form, collecting, inside⟩ := enrolls
      obtain ⟨present, same, rfl, fits, stat, member, rfl⟩ := formed.enrolled inside
      rw [known] at same
      cases same
      rw [Stage.form?_eq_some_iff] at collecting
      rw [fits, collecting]
      exact ⟨stat, member, inside, (formed.node?_of_address there).1⟩

/-- Once a modifier has left all rosters, whatever depended on its contribution waits to be
announced. -/
theorem Leaves.heard {other : Graph} (leaves : Leaves vocabulary modifier graph other)
    (formed : graph.WellFormed vocabulary) (wired : graph.Wired)
    (known : graph.modifiers.get? modifier.id = some modifier)
    (absent : ∀ own form path, modifier.id ∉ other.members own form path) {start node : NodeId}
    (found : graph.contributions.get? modifier.id = some start) (staged : graph.Staged node)
    (reaches : graph.Reaches start node) : node ∈ other.pending.nodes := by
  rcases reaches.cases_head with rfl | ⟨consumer, feeds, later⟩
  · obtain ⟨own, stage, path, stagedAt⟩ := staged
    rw [formed.contributing _ _ found] at stagedAt
    cases stagedAt
  · obtain ⟨stat, _, inside, collects⟩ := wired.collector formed known found feeds
    exact leaves.loud stat.id consumer node inside (absent _ _ _) collects staged later

/-- The graph after a modifier, which is still in the table of modifiers, has left the rosters of
all its stats. -/
def dismissed (graph : Graph) (modifier : Modifier) : Graph :=
  modifier.stats.foldl (leaveRoster modifier)
    (graph.record (.removing modifier.id modifier.description))

theorem Thins.joined {other : Graph} (thins : graph.Thins other) (joined : graph.Joined) :
    other.Joined := by
  intro producer consumer feeds
  rw [Feeds, thins.edges] at feeds
  rw [thins.addressed]
  exact joined producer consumer feeds

section Removal

variable (sound : graph.Sound vocabulary)
  (known : graph.modifiers.get? modifier.id = some modifier)

include sound known

theorem leaves_dismissed : Leaves vocabulary modifier
    (graph.record (.removing modifier.id modifier.description)) (graph.dismissed modifier) ∧
      ∀ own form path, modifier.id ∉ (graph.dismissed modifier).members own form path := by
  have noted : Turns vocabulary graph
      (graph.record (.removing modifier.id modifier.description)) :=
    .of_advance sound (.record sound.formed sound.stacked rfl) (.of_shape rfl rfl rfl)
  obtain ⟨leaves, gone⟩ := leaves_foldl modifier modifier.stats noted.sound
  exact ⟨leaves, leaves.absent known gone⟩

/-- To remove a modifier is to take it out of all rosters, and then its node away. -/
theorem removeModifier_eq : ∃ node, graph.contributions.get? modifier.id = some node ∧
    graph.removeModifier modifier.id =
      (true, ((graph.dismissed modifier).removeNodes [node]).retable
        (graph.modifiers.erase modifier.id) (graph.contributions.erase modifier.id)) := by
  obtain ⟨node, found⟩ := Option.isSome_iff_exists.mp (sound.formed.present _ modifier known).2.2
  obtain ⟨leaves, _⟩ := leaves_dismissed sound known
  have same : (graph.dismissed modifier).contributions = graph.contributions :=
    leaves.thins.contributions
  have started : ({ graph with modifiers := graph.modifiers.erase modifier.id } : Graph).record
      (.removing modifier.id modifier.description) =
        (graph.record (.removing modifier.id modifier.description)).withModifiers
          (graph.modifiers.erase modifier.id) := rfl
  have left : modifier.stats.foldl (leaveRoster modifier)
      ((graph.record (.removing modifier.id modifier.description)).withModifiers
        (graph.modifiers.erase modifier.id)) =
          (graph.dismissed modifier).withModifiers (graph.modifiers.erase modifier.id) :=
    foldl_leaveRoster_withModifiers _ _ _ _
  have contributes : ((graph.dismissed modifier).withModifiers
      (graph.modifiers.erase modifier.id)).contributions = graph.contributions := same
  refine ⟨node, found, ?_⟩
  simp only [removeModifier, known, started, left, contributes, found]
  rw [← removeNodes_retable]
  rfl

/-- A node can be taken away after a modifier left its rosters. -/
theorem discards_dismissed (joined : graph.Joined) (node : NodeId) :
    (graph.dismissed modifier).Discards ((graph.dismissed modifier).removeNodes [node])
      (· ∈ [node]) := by
  obtain ⟨leaves, _⟩ := leaves_dismissed sound known
  exact discards_removeNodes leaves.turns.sound.formed (leaves.thins.joined joined) [node]

section Contribution

variable {node : NodeId} (found : graph.contributions.get? modifier.id = some node)
include found

theorem addressed_dismissed :
    (graph.dismissed modifier).addressOf? node = some (.contribution modifier.id) := by
  rw [(leaves_dismissed sound known).1.thins.addressed]
  exact sound.formed.contributing _ node found

/-- Without the node of a modifier that left all rosters a graph is still wired. -/
theorem wired_dismissed (wired : graph.Wired) :
    (((graph.dismissed modifier).removeNodes [node]).retable (graph.modifiers.erase modifier.id)
      (graph.contributions.erase modifier.id)).Wired := by
  obtain ⟨leaves, _⟩ := leaves_dismissed sound known
  have discards := discards_dismissed sound known wired.joined node
  have before {producer consumer : NodeId}
      (feeds : ((graph.dismissed modifier).removeNodes [node]).Feeds producer consumer) :
      graph.Feeds producer consumer ∧ producer ∉ [node] ∧ consumer ∉ [node] := by
    rw [discards.feeds, Feeds, leaves.thins.edges] at feeds
    exact feeds
  refine wired.keep (fun _ _ feeds => (before feeds).1) (fun producer consumer feeds => ?_) ?_
  · obtain ⟨fed, first, second⟩ := before feeds
    obtain ⟨_, here⟩ := wired.producer producer consumer fed
    obtain ⟨_, there, _⟩ := wired.enrolled producer consumer fed
    have kept {other : NodeId} {address : Address}
        (found : graph.addressOf? other = some address) (stays : other ∉ [node]) :
        ((graph.dismissed modifier).removeNodes [node]).addressOf? other = some address := by
      apply discards.address_left _ stays
      rw [leaves.thins.addressed]
      exact found
    exact ⟨(kept here first).trans here.symm, (kept there second).trans there.symm⟩
  · rintro producer consumer (⟨own, stage, path⟩ | own) member feeds address enrolls
    · obtain ⟨form, collects, inside⟩ := enrolls
      refine ⟨form, collects, ?_⟩
      rw [discards.members_retable]
      apply leaves.others own form path.id member _ inside
      -- the modifier that goes feeds nothing any more
      rintro rfl
      have same := (sound.formed.contributed _ _ address).1
      rw [found] at same
      cases same
      exact (before feeds).2.1 (List.mem_singleton_self _)
    · exact enrolls

end Contribution

end Removal

/-- Removing a modifier is a turn. -/
theorem turns_removeModifier (sound : graph.Sound vocabulary) (wired : graph.Wired)
    (attended : graph.Attended) (id : ModifierId) :
    Turns vocabulary graph (graph.removeModifier id).2 ∧ (graph.removeModifier id).2.Wired := by
  cases known : graph.modifiers.get? id with
  | none =>
      simp only [removeModifier, known]
      exact ⟨.refl sound, wired⟩
  | some modifier =>
      obtain ⟨rfl, _, _⟩ := sound.formed.present id modifier known
      obtain ⟨node, found, removed⟩ := removeModifier_eq sound known
      obtain ⟨leaves, absent⟩ := leaves_dismissed sound known
      have recorded : Advances vocabulary graph
          (graph.record (.removing modifier.id modifier.description)) :=
        .record sound.formed sound.stacked rfl
      have noted : Turns vocabulary graph
          (graph.record (.removing modifier.id modifier.description)) :=
        .of_advance sound recorded (.of_shape rfl rfl rfl)
      have still : (graph.dismissed modifier).contributions.get? modifier.id = some node :=
        leaves.thins.contributions.symm ▸ found
      have left := noted.trans leaves.turns
      have departs := turns_depart leaves.turns.sound still absent
        (leaves.thins.joined wired.joined) ?_ ?_
      · rw [leaves.thins.modifiers, leaves.thins.contributions] at departs
        rw [removed]
        exact ⟨left.trans departs, wired_dismissed sound known found wired⟩
      · intro present there
        exact (left.audience.attended attended).unwatched (addressed_dismissed sound known found) there
      · intro other staged reaches
        rw [Reaches, show (graph.dismissed modifier).Feeds = graph.Feeds from by
          unfold Feeds
          rw [leaves.thins.edges]
          rfl] at reaches
        rw [Staged, leaves.thins.addressed] at staged
        exact leaves.heard noted.sound.formed (wired.grow recorded.grows rfl) known absent found
          staged reaches

end Graph
end CharacterSheet
