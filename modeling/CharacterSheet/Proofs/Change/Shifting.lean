import CharacterSheet.Proofs.Membership.Memberships

/-!
Contract: the small steps in which modifiers come and go.

Owns:
- shifts: notes, requested nodes, changes of one roster or of one link, and the nodes of
  contributions that come and go;
- every turnover is made of shifts, each of which starts from a sound graph.

Whatever every shift keeps is kept by a turnover, however many modifiers it is made of.
-/

namespace CharacterSheet
namespace Graph

variable {vocabulary : Vocabulary} {graph middle other : Graph}

/-- A roster that differs by one member from the roster in its place. -/
inductive Amends (graph : Graph) (slot : SlotId) (filled : Slot) : Delta ModifierId → Prop
  | enter {member} : member ∉ graph.members slot.stat slot.form slot.path →
      filled.roster.members = graph.members slot.stat slot.form slot.path ++ [member] →
        Amends graph slot filled { added := [member] }
  | leave {member} : member ∈ graph.members slot.stat slot.form slot.path →
      filled.roster.members = (graph.members slot.stat slot.form slot.path).erase member →
        Amends graph slot filled { removed := [member] }

/-- One small step in which modifiers come or go. -/
inductive Shift (vocabulary : Vocabulary) (graph : Graph) : Graph → Prop
  | note {entry} : entry.isAnnouncement = false → Shift vocabulary graph (graph.record entry)
  | introduce {modifier} : graph.modifiers.get? modifier.id = none → modifier.Within vocabulary →
      Shift vocabulary graph (graph.introduce modifier)
  | obtain {stat stage path} : stat.isResolved = true → stat.HeadWithin vocabulary →
      path.Within vocabulary → Shift vocabulary graph (graph.obtain stat stage path).2
  | amend {slot filled pipeline change} (memberships widens) :
      graph.pipelines.get? slot.stat = some pipeline → graph.Amends slot filled change →
        Shift vocabulary graph (graph.changeRoster slot filled memberships change widens)
  | relink {entry} (links source target) : entry.isAnnouncement = false →
      Shift vocabulary graph (graph.relink links entry source target)
  | depart {node id} (modifiers contributions) :
      graph.addressOf? node = some (.contribution id) →
        graph.Discards (graph.removeNodes [node]) (· ∈ [node]) →
          graph.Abandons (· ∈ [node]) modifiers contributions →
          Shift vocabulary graph ((graph.removeNodes [node]).retable modifiers contributions)

/-- Shifts, one after the other, each from a sound graph. -/
def Shifts (vocabulary : Vocabulary) : Graph → Graph → Prop :=
  Relation.ReflTransGen fun graph other => graph.Sound vocabulary ∧ Shift vocabulary graph other

namespace Shifts

theorem refl (graph : Graph) : Shifts vocabulary graph graph := Relation.ReflTransGen.refl

theorem trans (first : Shifts vocabulary graph middle) (second : Shifts vocabulary middle other) :
    Shifts vocabulary graph other := Relation.ReflTransGen.trans first second

theorem single (sound : graph.Sound vocabulary) (shift : Shift vocabulary graph other) :
    Shifts vocabulary graph other := Relation.ReflTransGen.single ⟨sound, shift⟩

theorem note (sound : graph.Sound vocabulary) {entry : Record} (inward : entry.isAnnouncement = false) :
    Shifts vocabulary graph (graph.record entry) := single sound (.note inward)

/-- What every shift keeps is kept by shifts in a row. -/
theorem keeps {keeps : Graph → Graph → Prop} (shifts : Shifts vocabulary graph other)
    (refl : ∀ graph, keeps graph graph)
    (trans : ∀ graph middle other, keeps graph middle → keeps middle other → keeps graph other)
    (step : ∀ graph other, graph.Sound vocabulary → Shift vocabulary graph other →
      keeps graph other) : keeps graph other := by
  induction shifts with
  | refl => exact refl _
  | tail _ shift inductionHypothesis =>
      exact trans _ _ _ inductionHypothesis (step _ _ shift.1 shift.2)

end Shifts

/-! ### Modifiers that come -/

variable {modifier : Modifier} {stat : Stat}

theorem shifts_linkIf (sound : graph.Sound vocabulary) (first : Prop) [Decidable first] (stat : Stat) :
    Shifts vocabulary graph (graph.linkIf first stat) := by
  unfold linkIf
  split
  · split
    · exact .single sound (.relink _ _ _ rfl)
    · exact .refl graph
  · exact .refl graph

/-- A roster that a modifier enters is amended. -/
theorem amends_seat {pipeline : Pipeline} {roster : Roster ModifierId} {change : Delta ModifierId}
    (here : graph.pipelines.get? stat.id = some pipeline)
    (added : (seat modifier pipeline).roster.add? modifier.id = some (roster, change)) :
    graph.Amends ⟨stat.id, modifier.form, modifier.path.id⟩ { seat modifier pipeline with roster }
      change := by
  obtain ⟨outside, joined, rfl⟩ := members_added here added
  exact .enter outside joined

theorem shifts_joinRoster (closed : vocabulary.Closed) (sound : graph.Sound vocabulary)
    (known : graph.modifiers.get? modifier.id = some modifier) (member : stat ∈ modifier.stats)
    (resolved : stat.isResolved = true) :
    Shifts vocabulary graph (joinRoster modifier graph stat) := by
  have within := (sound.formed.present _ modifier known).2.1.stats stat member
  have route : modifier.path.Within vocabulary := Modifier.Within.path closed modifier
  have obtained : Turns vocabulary graph (graph.obtain stat modifier.form.stage modifier.path).2 :=
    turns_obtain sound resolved within route
  have grows : graph.Grows (graph.obtain stat modifier.form.stage modifier.path).2 :=
    (advances_obtain sound.formed sound.stacked resolved within route).grows
  have ready : Shifts vocabulary graph (graph.obtain stat modifier.form.stage modifier.path).2 :=
    .single sound (.obtain resolved within route)
  obtain ⟨_, pipeline, rfl, here, ⟨same, _⟩ | ⟨roster, change, added, joined⟩⟩ :=
    joinRoster_cases sound.formed sound.stacked resolved within route
  · rwa [same]
  · rw [joined]
    have received := (turns_receive obtained.sound (grows.modifiers ▸ known) member route here added).1
    exact (ready.trans (.single obtained.sound (.amend _ _ here (amends_seat here added)))).trans
      (shifts_linkIf received.sound _ _)

theorem shifts_joinRosters (closed : vocabulary.Closed) {stats : List Stat}
    (sound : graph.Sound vocabulary)
    (known : graph.modifiers.get? modifier.id = some modifier)
    (named : ∀ stat ∈ stats, stat ∈ modifier.stats ∧ stat.isResolved = true) :
    Shifts vocabulary graph (stats.foldl (joinRoster modifier) graph) := by
  refine joinRosters_induct closed stats graph sound known named (fun graph _ => .refl graph) ?_
  rintro head rest graph ⟨sound, known, member, resolved⟩ later
  exact (shifts_joinRoster closed sound known member resolved).trans later

theorem shifts_addModifier (closed : vocabulary.Closed) (sound : graph.Sound vocabulary)
    (within : modifier.Within vocabulary) :
    Shifts vocabulary graph (graph.addModifier modifier).2 := by
  rcases graph.addModifier_cases modifier with ⟨_, same⟩ | ⟨absent, ⟨_, _, same⟩ | ⟨resolved, same⟩⟩
  · exact same.symm ▸ .refl graph
  · exact same.symm ▸ .refl graph
  · rw [same]
    have noted : Turns vocabulary graph
        (graph.record (.adding modifier.id modifier.description)) :=
      .of_advance sound (.record sound.formed sound.stacked rfl) (.of_shape rfl rfl rfl)
    have introduced := turns_introduce noted.sound.formed absent noted.sound within
    have began : Shifts vocabulary graph
        ((graph.record (.adding modifier.id modifier.description)).introduce modifier) :=
      (Shifts.note sound rfl).trans (.single noted.sound (.introduce absent within))
    exact began.trans (shifts_joinRosters closed introduced.sound (Table.get?_insert_self _ _ _)
      fun stat member => ⟨member, resolved stat member⟩)

/-! ### Modifiers that go -/

theorem shifts_unlinkIf (sound : graph.Sound vocabulary) (last : Prop) [Decidable last] (stat : Stat) :
    Shifts vocabulary graph (graph.unlinkIf last stat) := by
  unfold unlinkIf
  split
  · split
    · exact .single sound (.relink _ _ _ rfl)
    · exact .refl graph
  · exact .refl graph

/-- A roster that a modifier leaves is amended. -/
theorem amends_leave {pipeline : Pipeline} {slot : Slot} {roster : Roster ModifierId}
    {change : Delta ModifierId} (here : graph.pipelines.get? stat.id = some pipeline)
    (filled : pipeline.slots.get? (modifier.form, modifier.path.id) = some slot)
    (removed : slot.roster.remove? modifier.id = some (roster, change)) :
    graph.Amends ⟨stat.id, modifier.form, modifier.path.id⟩ { slot with roster } change := by
  have members := members_of_filled here filled
  unfold Roster.remove? at removed
  split at removed
  · next inside =>
    cases removed
    rw [← members] at inside
    exact .leave inside (congrArg (·.erase modifier.id) members.symm)
  · contradiction

theorem shifts_leaveRoster (sound : graph.Sound vocabulary) (modifier : Modifier) (stat : Stat) :
    Shifts vocabulary graph (leaveRoster modifier graph stat) := by
  rcases graph.leaveRoster_cases modifier stat with ⟨same, _⟩ |
    ⟨pipeline, slot, roster, change, here, filled, removed, left⟩
  · exact same.symm ▸ .refl graph
  · rw [left]
    have dismissed := turns_takeOut sound here filled removed
    exact (Shifts.single sound (.amend _ _ here (amends_leave here filled removed))).trans
      (shifts_unlinkIf dismissed.sound _ _)

theorem shifts_leaveRosters (modifier : Modifier) (stats : List Stat)
    (sound : graph.Sound vocabulary) :
    Shifts vocabulary graph (stats.foldl (leaveRoster modifier) graph) := by
  induction stats generalizing graph with
  | nil => exact .refl graph
  | cons head rest inductionHypothesis =>
      exact (shifts_leaveRoster sound modifier head).trans
        (inductionHypothesis (leaves_leaveRoster sound modifier head).1.turns.sound)

theorem shifts_removeModifier (intact : graph.Intact vocabulary) (id : ModifierId) :
    Shifts vocabulary graph (graph.removeModifier id).2 := by
  cases known : graph.modifiers.get? id with
  | none =>
      rw [removeModifier, known]
      exact .refl graph
  | some modifier =>
      obtain ⟨rfl, _, _⟩ := intact.formed.present id modifier known
      obtain ⟨node, found, removed⟩ := removeModifier_eq intact.toSound known
      obtain ⟨leaves, absent⟩ := leaves_dismissed intact.toSound known
      have noted := intact.record (.removing modifier.id modifier.description)
      have left : Shifts vocabulary graph (graph.dismissed modifier) :=
        (Shifts.note intact.toSound rfl).trans
          (shifts_leaveRosters modifier modifier.stats noted.toSound)
      have abandons := abandons_modifier leaves.turns.sound (leaves.thins.contributions ▸ found) absent
      rw [leaves.thins.modifiers, leaves.thins.contributions] at abandons
      rw [removed]
      exact left.trans (.single leaves.turns.sound
        (.depart _ _ (addressed_dismissed intact.toSound known found)
          (discards_dismissed intact.toSound known intact.wired.joined node) abandons))

end Graph

/-! ### Turnovers -/

open CharacterSheet.Graph

section Turnover

variable {vocabulary : Vocabulary} {graph : Graph}

theorem Sheet.shifts_addEach (closed : vocabulary.Closed) {modifiers : List Modifier}
    (within : ∀ modifier ∈ modifiers, modifier.Within vocabulary) (intact : graph.Intact vocabulary)
    (count : Nat) : Shifts vocabulary graph (Sheet.addEach graph modifiers count).2 := by
  induction modifiers generalizing graph count with
  | nil => exact .refl graph
  | cons modifier rest inductionHypothesis =>
      have here := within modifier List.mem_cons_self
      have first := shifts_addModifier closed intact.toSound here
      obtain ⟨turns, wired⟩ := turns_addModifier closed intact.toSound intact.wired here
      have kept := intact.turn turns wired
      rw [addEach]
      split
      · next outcome => rwa [outcome] at first
      · next outcome =>
        rw [outcome] at first kept
        exact first.trans (inductionHypothesis
          (fun other member => within other (List.mem_cons_of_mem modifier member)) kept _)

theorem Sheet.shifts_removeEach (intact : graph.Intact vocabulary) (ids : List ModifierId)
    (count : Nat) : Shifts vocabulary graph (Sheet.removeEach graph ids count).2 := by
  induction ids generalizing graph count with
  | nil => exact .refl graph
  | cons id rest inductionHypothesis =>
      exact (shifts_removeModifier intact id).trans
        (inductionHypothesis (intact_removeEach intact [id] 0) _)

/-- Modifiers come and go by shifts. -/
theorem Operation.shifts_turnover (closed : vocabulary.Closed) (intact : graph.Intact vocabulary)
    {operation : Operation} (within : operation.Within vocabulary) :
    Shifts vocabulary graph (operation.turnover graph) := by
  cases operation with
  | add modifier => exact shifts_addModifier closed intact.toSound within
  | addAll modifiers => exact Sheet.shifts_addEach closed within intact 0
  | remove id => exact shifts_removeModifier intact id
  | removeAll ids => exact Sheet.shifts_removeEach intact ids 0
  | _ => exact .refl graph

end Turnover
end CharacterSheet
