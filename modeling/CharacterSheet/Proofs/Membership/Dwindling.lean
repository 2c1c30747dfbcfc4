import CharacterSheet.Proofs.Membership.Undoing

/-!
Contract: what is left of rosters where modifiers only go.

Owns:
- rosters without some of their members, in their order;
- graphs that dwindle: their rosters have lost the members that are gone, and nothing else;
- operations that add no modifier let graphs dwindle, whatever else they do.

What is left depends on the rosters at the beginning and on the modifiers at the end alone. So two runs
that begin with the same filled rosters and end with the same modifiers list the same paths, in the same
order.
-/

namespace CharacterSheet

/-! ### Rosters without some members -/

/-- What rosters are left with if some members go. Those that lose all of them go, too. -/
def keeping (keeps : ModifierId → Bool) (rosters : List (Path × List ModifierId)) :
    List (Path × List ModifierId) :=
  rosters.filterMap fun roster =>
    let rest := roster.2.filter keeps
    if rest.isEmpty then none else some (roster.1, rest)

section Keeping

variable {keeps narrower : ModifierId → Bool} {rosters : List (Path × List ModifierId)}

theorem keeping_congr
    (same : ∀ roster ∈ rosters, ∀ member ∈ roster.2, narrower member = keeps member) :
    keeping narrower rosters = keeping keeps rosters := by
  refine List.filterMap_congr fun roster inside => ?_
  rw [List.filter_congr (same roster inside)]

theorem keeping_of_kept
    (kept : ∀ roster ∈ rosters, roster.2 ≠ [] ∧ ∀ member ∈ roster.2, keeps member = true) :
    keeping keeps rosters = rosters := by
  refine (List.filterMap_congr fun roster inside => ?_).trans List.filterMap_some
  obtain ⟨some, all⟩ := kept roster inside
  simp only [List.filter_eq_self.mpr all, List.isEmpty_iff, some, ↓reduceIte]

/-- Those who go first need not be told apart from those who go later. -/
theorem keeping_keeping (fewer : ∀ member, narrower member = true → keeps member = true)
    (rosters : List (Path × List ModifierId)) :
    keeping narrower (keeping keeps rosters) = keeping narrower rosters := by
  unfold keeping
  rw [List.filterMap_filterMap]
  refine List.filterMap_congr fun roster _ => ?_
  have rest : (roster.2.filter keeps).filter narrower = roster.2.filter narrower := by
    rw [List.filter_filter]
    refine List.filter_congr fun member _ => ?_
    cases stays : narrower member with
    | false => rfl
    | true => rw [fewer member stays, Bool.and_self]
  by_cases empty : (roster.2.filter keeps).isEmpty = true
  · rw [List.isEmpty_iff.mp empty, List.filter_nil] at rest
    simp only [empty, ↓reduceIte, Option.bind_none, ← rest, List.isEmpty_nil]
  · simp only [if_neg empty, Option.bind_some, rest]

end Keeping

namespace Graph

variable {vocabulary : Vocabulary} {graph middle other : Graph}

/-- Rosters that have members have members that are present. -/
theorem WellFormed.mem_filled (formed : graph.WellFormed vocabulary) {stat : StatId}
    {roster : Path × List ModifierId} (inside : roster ∈ graph.filled stat) :
    roster.2 ≠ [] ∧ ∀ member ∈ roster.2, graph.modifiers.contains member = true := by
  rw [filled] at inside
  cases here : graph.pipelines.get? stat with
  | none =>
      rw [here] at inside
      contradiction
  | some pipeline =>
      rw [here] at inside
      obtain ⟨⟨⟨form, path⟩, slot⟩, listed, kept⟩ := List.mem_filterMap.mp inside
      split at kept
      · contradiction
      · next some =>
        cases kept
        refine ⟨fun none => some (List.isEmpty_iff.mpr none), fun member serves => ?_⟩
        have enrolled : member ∈ graph.members stat form path := by
          rw [members, here]
          simp only [Pipeline.members, (Table.get?_eq_some_iff _ _ _).mpr listed]
          exact serves
        obtain ⟨modifier, present, _⟩ := formed.enrolled enrolled
        exact Table.contains_iff.mpr ⟨modifier, present⟩

theorem filledBut_eq_keeping (graph : Graph) (id : ModifierId) (stat : StatId) :
    graph.filledBut id stat = keeping (· ≠ id) (graph.filled stat) := by
  rw [filledBut_eq, filled_eq, keeping, List.filterMap_filterMap]
  refine List.filterMap_congr fun entry _ => ?_
  by_cases empty : entry.2.roster.members.isEmpty = true
  · simp only [List.isEmpty_iff.mp empty, List.filter_nil, List.isEmpty_nil, ↓reduceIte,
      Option.bind_none]
  · simp only [if_neg empty, Option.bind_some]

/-! ### Graphs that dwindle -/

/-- Modifiers go and none comes. The rosters that still have members are in their old order, and so are
the members. -/
structure Dwindles (graph other : Graph) : Prop where
  fewer : ∀ id, other.modifiers.contains id = true → graph.modifiers.contains id = true
  filled : ∀ stat, other.filled stat = keeping other.modifiers.contains (graph.filled stat)

theorem Dwindles.trans (first : graph.Dwindles middle) (second : middle.Dwindles other) :
    graph.Dwindles other where
  fewer := fun id present => first.fewer id (second.fewer id present)
  filled := fun stat => by rw [second.filled, first.filled, keeping_keeping second.fewer]

theorem Undisturbed.dwindles (undisturbed : graph.Undisturbed other)
    (formed : graph.WellFormed vocabulary) : graph.Dwindles other where
  fewer := fun id present => undisturbed.modifiers ▸ present
  filled := fun stat => by
    rw [undisturbed.filled, undisturbed.modifiers, keeping_of_kept fun _ => formed.mem_filled]

theorem dwindles_removeModifier (intact : graph.Intact vocabulary) (id : ModifierId) :
    graph.Dwindles (graph.removeModifier id).2 := by
  cases known : graph.modifiers.get? id with
  | none =>
      have same : (graph.removeModifier id).2 = graph := by rw [removeModifier, known]
      exact same.symm ▸ (Undisturbed.refl graph).dwindles intact.formed
  | some modifier =>
      obtain ⟨rfl, _⟩ := intact.formed.present id modifier known
      obtain ⟨node, _, _, removed⟩ := exists_dismissed intact known
      have modifiers : (graph.removeModifier modifier.id).2.modifiers =
          graph.modifiers.erase modifier.id := by rw [removed]; rfl
      have contains (own : ModifierId) : (graph.removeModifier modifier.id).2.modifiers.contains own =
          (decide (own ≠ modifier.id) && graph.modifiers.contains own) := by
        rw [modifiers, Table.contains, Table.get?_erase, Table.contains]
        by_cases same : own = modifier.id <;> simp [same]
      have after : (graph.removeModifier modifier.id).2.Intact vocabulary :=
        Sheet.intact_removeEach intact [modifier.id] 0
      have gone : (graph.removeModifier modifier.id).2.modifiers.get? modifier.id = none := by
        rw [modifiers, Table.get?_erase, if_pos rfl]
      refine ⟨fun own present => ?_, fun stat => ?_⟩
      · rw [contains, Bool.and_eq_true] at present
        exact present.2
      · calc (graph.removeModifier modifier.id).2.filled stat
            = (graph.removeModifier modifier.id).2.filledBut modifier.id stat :=
              (filledBut_absent (after.formed.not_mem_members gone stat)).symm
          _ = graph.filledBut modifier.id stat :=
              (bypasses_removeModifier intact known).filledBut stat
          _ = keeping (· ≠ modifier.id) (graph.filled stat) := filledBut_eq_keeping ..
          _ = keeping (graph.removeModifier modifier.id).2.modifiers.contains (graph.filled stat) := by
              refine keeping_congr fun roster inside member serves => ?_
              rw [contains, (intact.formed.mem_filled inside).2 member serves, Bool.and_true]

theorem dwindles_removeEach (intact : graph.Intact vocabulary) (ids : List ModifierId)
    (count : Nat) : graph.Dwindles (Sheet.removeEach graph ids count).2 := by
  induction ids generalizing graph count with
  | nil => exact (Undisturbed.refl graph).dwindles intact.formed
  | cons id rest inductionHypothesis =>
      exact (dwindles_removeModifier intact id).trans
        (inductionHypothesis (Sheet.intact_removeEach intact [id] 0) _)

end Graph

/-! ### Operations that add nothing -/

/-- Whether no modifier comes during an operation. -/
def Operation.addsNothing : Operation → Bool
  | add _ | addAll _ => false
  | _ => true

namespace Sheet

open CharacterSheet.Graph

variable {vocabulary : Vocabulary} {sheet : Sheet} (closed : vocabulary.Closed)
  (intact : sheet.graph.Intact vocabulary)
include closed intact

theorem dwindles_apply {operation : Operation} (within : operation.Within vocabulary)
    (fewer : operation.addsNothing) : sheet.graph.Dwindles (sheet.apply operation).graph := by
  obtain ⟨start, before, after⟩ := moves_apply closed intact within
  have begun := before.intact intact
  have turned : start.Dwindles (operation.turnover start) := by
    cases operation with
    | remove id => exact dwindles_removeModifier begun id
    | removeAll ids => exact dwindles_removeEach begun ids 0
    | add _ | addAll _ => contradiction
    | _ => exact (Undisturbed.refl start).dwindles begun.formed
  have ready := intact_turnover closed begun within
  exact ((before.undisturbed intact).dwindles intact.formed).trans
    (turned.trans ((after.undisturbed ready).dwindles ready.formed))

/-- After operations that add nothing, rosters are left with those who are still present. -/
theorem dwindles_run {operations : List Operation}
    (within : ∀ operation ∈ operations, operation.Within vocabulary)
    (fewer : ∀ operation ∈ operations, operation.addsNothing) :
    sheet.graph.Dwindles (sheet.run operations).graph := by
  induction operations generalizing sheet with
  | nil => exact (Undisturbed.refl sheet.graph).dwindles intact.formed
  | cons operation rest inductionHypothesis =>
      obtain ⟨inside, later⟩ := List.forall_mem_cons.mp within
      obtain ⟨none, noneLater⟩ := List.forall_mem_cons.mp fewer
      exact (dwindles_apply closed intact inside none).trans
        (inductionHypothesis (intact_apply closed intact inside) later noneLater)

end Sheet
end CharacterSheet
