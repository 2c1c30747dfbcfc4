import CharacterSheet.Proofs.Announcement.Deferring

/-!
Contract: what waits for a roster is what became of it since nothing waited.

Owns:
- net changes between two lists of members;
- a member that comes in or goes turns the net change into the net change up to then;
- in an open batch, whatever operations it is made of, the change that waits for each roster is the
  net change of its members since the batch was opened.

A member that comes and goes again, or goes and comes back, is in neither half of a net change.
-/

namespace CharacterSheet

/-! ### Net changes -/

namespace Delta

variable {α : Type} [DecidableEq α] {was now : List α} {change : Delta α} {member : α}

/-- What came into a set and what went out of it, from one moment to another. What came in is in the
order of the later moment. -/
structure Net (was now : List α) (change : Delta α) : Prop where
  added : change.added = now.filter (· ∉ was)
  distinct : change.added.Nodup
  removed : change.removed.Nodup
  gone : ∀ member, member ∈ change.removed ↔ member ∈ was ∧ member ∉ now

namespace Net

theorem of_nodup (nodup : now.Nodup) (added : change.added = now.filter (· ∉ was))
    (removed : change.removed.Nodup)
    (gone : ∀ member, member ∈ change.removed ↔ member ∈ was ∧ member ∉ now) :
    Net was now change :=
  ⟨added, added ▸ nodup.filter _, removed, gone⟩

theorem refl (nodup : now.Nodup) : Net now now {} := by
  refine .of_nodup nodup ?_ List.nodup_nil ?_ <;> simp

theorem mem_added_iff (net : Net was now change) (member : α) :
    member ∈ change.added ↔ member ∈ now ∧ member ∉ was := by
  simp [net.added]

/-- A net change is empty if the same members are there. -/
theorem isEmpty_iff (net : Net was now change) :
    change.isEmpty = true ↔ ∀ member, member ∈ was ↔ member ∈ now := by
  simp only [Delta.isEmpty, Bool.and_eq_true, List.isEmpty_iff, List.eq_nil_iff_forall_not_mem,
    net.mem_added_iff, net.gone]
  grind

/-- A member comes in: one that had gone is back, any other is new. -/
theorem enter (net : Net was now change) (nodup : now.Nodup) (absent : member ∉ now) :
    Net was (now ++ [member]) (change.merge { added := [member] }) := by
  have merged : change.merge { added := [member] } = change.noteAdded member := rfl
  have grown : (now ++ [member]).Nodup := by
    simpa [List.nodup_append, nodup] using fun other inside => ne_of_mem_of_not_mem inside absent
  rw [merged, noteAdded]
  by_cases back : member ∈ change.removed
  · obtain ⟨known, -⟩ := (net.gone member).mp back
    rw [if_pos back]
    refine .of_nodup grown ?_ (net.removed.erase member) fun other => ?_
    · simp [net.added, known]
    · simp only [net.removed.mem_erase_iff, net.gone, List.mem_append, List.mem_singleton]
      grind
  · have new : member ∉ was := fun known => back ((net.gone member).mpr ⟨known, absent⟩)
    have unlisted : member ∉ change.added := fun inside =>
      absent ((net.mem_added_iff member).mp inside).1
    rw [if_neg back, if_neg unlisted]
    refine .of_nodup grown ?_ net.removed fun other => ?_
    · simp [net.added, new]
    · simp only [net.gone, List.mem_append, List.mem_singleton]
      grind

/-- A member goes: one that had come in leaves no trace, any other is gone. -/
theorem leave (net : Net was now change) (nodup : now.Nodup) (present : member ∈ now) :
    Net was (now.erase member) (change.merge { removed := [member] }) := by
  have merged : change.merge { removed := [member] } = change.noteRemoved member := rfl
  have shrunk : (now.erase member).Nodup := nodup.erase member
  have others : (now.erase member).filter (· ∉ was) = change.added.filter (· ≠ member) := by
    rw [nodup.erase_eq_filter, net.added, List.filter_filter, List.filter_filter]
    exact List.filter_congr fun other _ => by grind
  rw [merged, noteRemoved]
  by_cases came : member ∈ change.added
  · obtain ⟨-, new⟩ := (net.mem_added_iff member).mp came
    rw [if_pos came]
    refine .of_nodup shrunk ?_ net.removed fun other => ?_
    · rw [others, net.distinct.erase_eq_filter]
      exact List.filter_congr fun other _ => by grind
    · simp only [net.gone, nodup.mem_erase_iff]
      grind
  · have known : member ∈ was := by
      by_contra new
      exact came ((net.mem_added_iff member).mpr ⟨present, new⟩)
    have still : member ∉ change.removed := fun inside => ((net.gone member).mp inside).2 present
    rw [if_neg came, if_neg still]
    refine .of_nodup shrunk ?_ ?_ fun other => ?_
    · rw [others]
      exact (List.filter_eq_self.mpr fun other inside =>
        decide_eq_true (ne_of_mem_of_not_mem inside came)).symm
    · simpa [List.nodup_append, net.removed] using
        fun other inside => ne_of_mem_of_not_mem inside still
    · simp only [List.mem_append, List.mem_singleton, net.gone, nodup.mem_erase_iff]
      grind

end Net
end Delta

namespace Graph

variable {vocabulary : Vocabulary} {graph middle other : Graph} {was : SlotId → List ModifierId}

/-! ### What waits for a roster -/

/-- The members of a roster. -/
def membersOf (graph : Graph) (slot : SlotId) : List ModifierId :=
  graph.members slot.stat slot.form slot.path

/-- The change that waits to be announced for a roster. -/
def waitsFor (graph : Graph) (slot : SlotId) : Delta ModifierId :=
  (graph.pending.slots.get? slot).getD {}

/-- What waits for each roster is the net change of its members. -/
def Nets (graph : Graph) (was : SlotId → List ModifierId) : Prop :=
  ∀ slot, Delta.Net (was slot) (graph.membersOf slot) (graph.waitsFor slot)

/-- As long as nothing waits, nothing has changed. -/
theorem nets_membersOf (formed : graph.WellFormed vocabulary) (quiet : graph.pending.slots = .empty) :
    graph.Nets graph.membersOf := by
  intro slot
  rw [waitsFor, quiet]
  exact .refl (formed.nodup_members _ _ _)

/-- A recorded change is joined to what waits already. -/
theorem waitsFor_submitSlot (graph : Graph) (slot own : SlotId) {change : Delta ModifierId}
    (whole : ({} : Delta ModifierId).merge change = change) :
    (graph.modifyPending (·.submitSlot slot change)).waitsFor own =
      if own = slot then (graph.waitsFor slot).merge change else graph.waitsFor own := by
  simp only [waitsFor, modifyPending, Pending.submitSlot]
  cases graph.pending.slots.get? slot with
  | some earlier => simp only [Table.get?_insert]; split <;> rfl
  | none => simp only [Table.get?_insert, Option.getD_none, whole]; split <;> rfl

/-- Nothing is lost of the change by which a roster is amended. -/
theorem Amends.whole {slot : SlotId} {filled : Slot} {change : Delta ModifierId}
    (amends : graph.Amends slot filled change) : ({} : Delta ModifierId).merge change = change := by
  cases amends <;> simp [Delta.merge, Delta.noteAdded, Delta.noteRemoved]

/-- The members of the rosters stay the same, and so does what waits for them. -/
structure Rests (graph other : Graph) : Prop where
  members : ∀ stat form path, other.members stat form path = graph.members stat form path
  slots : other.pending.slots = graph.pending.slots

theorem Rests.refl (graph : Graph) : graph.Rests graph := ⟨fun _ _ _ => rfl, rfl⟩

theorem Rests.trans (first : graph.Rests middle) (second : middle.Rests other) : graph.Rests other :=
  ⟨fun stat form path => (second.members stat form path).trans (first.members stat form path),
    second.slots.trans first.slots⟩

theorem Nets.keep (nets : graph.Nets was) (rests : graph.Rests other) : other.Nets was := by
  intro slot
  rw [membersOf, waitsFor, rests.members, rests.slots]
  exact nets slot

theorem rests_stir (intact : graph.Intact vocabulary) (stir : Stir vocabulary graph other) :
    graph.Rests other where
  members := (undisturbed_stir intact stir).members
  slots := (silent_stir intact stir).2

theorem rests_stirs (intact : graph.Intact vocabulary) (stirs : Stirs vocabulary graph other) :
    graph.Rests other := by
  induction stirs with
  | refl => exact .refl graph
  | tail before stir inductionHypothesis =>
      exact inductionHypothesis.trans (rests_stir (Stirs.intact before intact) stir)

/-! ### Modifiers that come and go -/

/-- A change of a roster is joined to what waits for the roster. -/
theorem Nets.amend (nets : graph.Nets was) (formed : graph.WellFormed vocabulary) {slot : SlotId}
    {filled : Slot} {pipeline : Pipeline} {change : Delta ModifierId} (memberships : Nat)
    (widens : Bool) (here : graph.pipelines.get? slot.stat = some pipeline)
    (amends : graph.Amends slot filled change) :
    (graph.changeRoster slot filled memberships change widens).Nets was := by
  intro own
  have entered : (graph.changeRoster slot filled memberships change widens).membersOf own =
      if own = slot then filled.roster.members else graph.membersOf own := by
    rw [membersOf, members_changeRoster here]
    have same : (own.stat = slot.stat ∧ own.form = slot.form ∧ own.path = slot.path) ↔ own = slot := by
      cases own
      cases slot
      simp
    simp only [same, membersOf]
  have waits : (graph.changeRoster slot filled memberships change widens).waitsFor own =
      if own = slot then (graph.waitsFor slot).merge change else graph.waitsFor own := by
    rw [waitsFor, changeRoster, (fades_invalidateAll _ _).slots]
    exact (graph.enterRoster slot filled memberships).waitsFor_submitSlot slot own amends.whole
  rw [entered, waits]
  by_cases same : own = slot
  · subst same
    rw [if_pos rfl, if_pos rfl]
    have nodup := formed.nodup_members own.stat own.form own.path
    cases amends with
    | enter absent after => exact after ▸ (nets own).enter nodup absent
    | leave present after => exact after ▸ (nets own).leave nodup present
  · rw [if_neg same, if_neg same]
    exact nets own

theorem nets_shift (sound : graph.Sound vocabulary) (shift : Shift vocabulary graph other)
    (nets : graph.Nets was) : other.Nets was := by
  cases shift with
  | note inward => exact nets.keep ⟨fun _ _ _ => rfl, rfl⟩
  | introduce absent within => exact nets.keep ⟨fun _ _ _ => rfl, rfl⟩
  | @obtain stat stage path resolved within route =>
      have obtains : Advances vocabulary graph (graph.obtain stat stage path).2 :=
        advances_obtain sound.formed sound.stacked resolved within route
      exact nets.keep ⟨obtains.grows.members, obtains.grows.slots⟩
  | amend memberships widens here amends => exact nets.amend sound.formed memberships widens here amends
  | @relink entry links source target inward =>
      refine nets.keep ⟨members_of_pipelines (pipelines_relink graph links entry source target), ?_⟩
      rw [relink, linkChanged_eq, (fades_invalidateAll _ _).slots]
      rfl
  | @depart node id modifiers contributions address discards _ =>
      exact nets.keep ⟨discards.members_retable modifiers contributions, discards.slots⟩

theorem nets_shifts (shifts : Shifts vocabulary graph other) (nets : graph.Nets was) :
    other.Nets was := by
  induction shifts with
  | refl => exact nets
  | tail _ shift inductionHypothesis => exact nets_shift shift.1 shift.2 inductionHypothesis

end Graph

open CharacterSheet.Graph

variable {vocabulary : Vocabulary} {sheet : Sheet} {operation : Operation}
  {was : SlotId → List ModifierId}

theorem Operation.nets_turnover (closed : vocabulary.Closed) {graph : Graph}
    (intact : graph.Intact vocabulary) (within : operation.Within vocabulary)
    (nets : graph.Nets was) : (operation.turnover graph).Nets was :=
  nets_shifts (operation.shifts_turnover closed intact within) nets

namespace Sheet

/-- Modifiers come and go between two series of stirs. -/
theorem nets_turnover (closed : vocabulary.Closed) (within : operation.Within vocabulary)
    {graph start after : Graph} (intact : graph.Intact vocabulary) (nets : graph.Nets was)
    (before : Stirs vocabulary graph start)
    (later : Stirs vocabulary (operation.turnover start) after) : after.Nets was := by
  have began := before.intact intact
  have turned := operation.nets_turnover closed began within (nets.keep (rests_stirs intact before))
  exact turned.keep (rests_stirs (intact_turnover closed began within) later)

/-- As long as a batch stays open, what waits for each roster is its net change. -/
theorem nets_apply (closed : vocabulary.Closed) (intact : sheet.graph.Intact vocabulary)
    (within : operation.Within vocabulary) (nets : sheet.graph.Nets was)
    (stillOpen : (sheet.apply operation).batchDepth ≠ 0) : (sheet.apply operation).graph.Nets was := by
  obtain ⟨start, before, later⟩ := stirs_of_open closed intact within stillOpen
  exact nets_turnover closed within intact nets before later

end Sheet
end CharacterSheet
