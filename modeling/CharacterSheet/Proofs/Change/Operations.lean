import CharacterSheet.Proofs.Announcement.Announcing
import CharacterSheet.Proofs.Sweep.Sweeping
import CharacterSheet.Sheet
import Mathlib.Logic.Relation

/-!
Contract: what operations do to the graph behind a sheet.

Owns:
- the operations on a sheet as data, and their runs from a new sheet;
- stirs, which happen while nothing is announced or swept, and moves, which are all that happens
  to a graph besides the coming and going of modifiers;
- modifiers come and go by turns, and moves and turns leave a graph intact.

A journal is never taken here, so that it tells of the whole run.
-/

namespace CharacterSheet

/-- What can be asked of a sheet. -/
inductive Operation where
  | add (modifier : Modifier)
  | addAll (modifiers : List Modifier)
  | remove (id : ModifierId)
  | removeAll (ids : List ModifierId)
  | value (stat : Stat) (stage : Stage) (path : Path)
  | breakdown (stat : Stat)
  | subscribe (stat : Stat) (stage : Stage) (path : Path) (reads : List Reading)
  | subscribeRoster (stat : Stat) (form : Form) (path : Path)
  | unsubscribe (id : SubscriptionId)
  | register (stat : Stat)
  | unregister (stat : StatId)
  | beginBatch
  | endBatch
  /-- Close a batch that was opened for a block of operations. -/
  | closeBlock
  | sweep
  /-- Replace the rules of what a sweep keeps. -/
  | retain (rules : Retention)

/-- All that an operation names is within a vocabulary. -/
def Operation.Within (vocabulary : Vocabulary) : Operation → Prop
  | add modifier => modifier.Within vocabulary
  | addAll modifiers => ∀ modifier ∈ modifiers, modifier.Within vocabulary
  | value stat _ path | subscribeRoster stat _ path =>
      stat.HeadWithin vocabulary ∧ path.Within vocabulary
  | breakdown stat | register stat => stat.HeadWithin vocabulary
  | subscribe stat _ path reads =>
      stat.HeadWithin vocabulary ∧ path.Within vocabulary ∧
        ∀ reading ∈ reads, reading.Within vocabulary
  | _ => True

theorem Operation.within_everything (operation : Operation) : operation.Within .everything := by
  have named (stat : Stat) : stat.HeadWithin .everything := stat.within_everything.headWithin
  cases operation with
  | add modifier => exact modifier.within_everything
  | addAll modifiers => exact fun modifier _ => modifier.within_everything
  | value stat stage path => exact ⟨named stat, path.within_everything⟩
  | subscribeRoster stat form path => exact ⟨named stat, path.within_everything⟩
  | breakdown stat => exact named stat
  | register stat => exact named stat
  | subscribe stat stage path reads =>
      exact ⟨named stat, path.within_everything, fun reading _ =>
        ⟨named reading.stat, reading.path.within_everything⟩⟩
  | _ => trivial

theorem Operation.all_within_everything (operations : List Operation) :
    ∀ operation ∈ operations, operation.Within .everything :=
  fun operation _ => operation.within_everything

namespace Sheet

/-- The sheet after an operation. -/
def apply (sheet : Sheet) : Operation → Sheet
  | .add modifier => (sheet.add modifier).2
  | .addAll modifiers => (sheet.addAll modifiers).2
  | .remove id => (sheet.remove id).2
  | .removeAll ids => (sheet.removeAll ids).2
  | .value stat stage path => (sheet.value stat stage path).2
  | .breakdown stat => (sheet.breakdown stat).2
  | .subscribe stat stage path reads => (sheet.subscribe stat stage path reads).2
  | .subscribeRoster stat form path => (sheet.subscribeRoster stat form path).2
  | .unsubscribe id => (sheet.unsubscribe id).2
  | .register stat => (sheet.register stat).2
  | .unregister stat => (sheet.unregister stat).2
  | .beginBatch => sheet.beginBatch
  | .endBatch => sheet.endBatch.2
  | .closeBlock => sheet.closeBlock
  | .sweep => sheet.sweep.2
  | .retain rules => { sheet with retention := rules }

/-- The sheet after some operations, one after the other. -/
def run (sheet : Sheet) (operations : List Operation) : Sheet := operations.foldl apply sheet

/-- Sheets that operations within a vocabulary lead to. -/
inductive Reachable (vocabulary : Vocabulary) : Sheet → Prop
  | new (settings : Settings) (retention : Retention) : Reachable vocabulary { settings, retention }
  | apply {sheet : Sheet} (operation : Operation) : Reachable vocabulary sheet →
      operation.Within vocabulary → Reachable vocabulary (sheet.apply operation)

theorem reachable_run {vocabulary : Vocabulary} {sheet : Sheet} {operations : List Operation}
    (reachable : Reachable vocabulary sheet)
    (within : ∀ operation ∈ operations, operation.Within vocabulary) :
    Reachable vocabulary (sheet.run operations) := by
  induction operations generalizing sheet with
  | nil => exact reachable
  | cons operation rest inductionHypothesis =>
      exact inductionHypothesis (.apply operation reachable (within operation List.mem_cons_self))
        fun other member => within other (List.mem_cons_of_mem operation member)

end Sheet

namespace Graph

variable {vocabulary : Vocabulary} {graph middle other : Graph}

/-! ### Moves -/

/-- One thing that can happen to a graph while nothing is announced or swept and modifiers neither
come nor go. -/
inductive Stir (vocabulary : Vocabulary) (graph : Graph) : Graph → Prop
  | explore {after} : Explores vocabulary graph after → Stir vocabulary graph after
  | deepen (depth) :
      Stir vocabulary graph (graph.modifyPending fun pending => { pending with depth })
  | register (registered) : Stir vocabulary graph { graph with registered }
  | watch {stat stage path reads} : stat.isResolved = true → stat.HeadWithin vocabulary →
      path.Within vocabulary → (∀ reading ∈ reads, reading.Within vocabulary) →
        Stir vocabulary graph
          ((graph.obtainWatched stat stage path reads).settle (graph.obtain stat stage path).1)
  | watchRoster {stat form path} : stat.HeadWithin vocabulary → path.Within vocabulary →
      Stir vocabulary graph (graph.subscribeRoster stat form path).2
  | unwatch (id) : Stir vocabulary graph (graph.unsubscribe id).2

/-- One thing that can happen to a graph while modifiers neither come nor go. -/
inductive Move (vocabulary : Vocabulary) (graph : Graph) : Graph → Prop
  | stir {after} : Stir vocabulary graph after → Move vocabulary graph after
  | flush (announceRosters) : Move vocabulary graph (graph.flush announceRosters)
  | sweep (rules) : Move vocabulary graph (graph.sweep rules).2

/-- What happens one after the other while nothing is announced or swept. -/
def Stirs (vocabulary : Vocabulary) : Graph → Graph → Prop :=
  Relation.ReflTransGen (Stir vocabulary)

/-- Moves, one after the other. -/
def Moves (vocabulary : Vocabulary) : Graph → Graph → Prop :=
  Relation.ReflTransGen (Move vocabulary)

theorem Stirs.refl (graph : Graph) : Stirs vocabulary graph graph := Relation.ReflTransGen.refl

theorem Stirs.trans (first : Stirs vocabulary graph middle) (second : Stirs vocabulary middle other) :
    Stirs vocabulary graph other := Relation.ReflTransGen.trans first second

theorem Stir.stirs (stir : Stir vocabulary graph other) : Stirs vocabulary graph other :=
  Relation.ReflTransGen.single stir

theorem Explores.stirs (explores : Explores vocabulary graph other) :
    Stirs vocabulary graph other :=
  (Stir.explore explores).stirs

theorem stirs_note (graph : Graph) {entry : Record} (inward : entry.isAnnouncement = false) :
    Stirs vocabulary graph (graph.record entry) :=
  (Explores.note .refl inward).stirs

theorem Moves.refl (graph : Graph) : Moves vocabulary graph graph := Relation.ReflTransGen.refl

theorem Moves.trans (first : Moves vocabulary graph middle) (second : Moves vocabulary middle other) :
    Moves vocabulary graph other := Relation.ReflTransGen.trans first second

theorem Move.moves (move : Move vocabulary graph other) : Moves vocabulary graph other :=
  Relation.ReflTransGen.single move

theorem Stirs.moves (stirs : Stirs vocabulary graph other) : Moves vocabulary graph other := by
  induction stirs with
  | refl => exact .refl graph
  | tail _ stir inductionHypothesis => exact inductionHypothesis.trans (Move.stir stir).moves

/-- A new subscriber has its node calculated at once. -/
theorem explores_settleWatched (intact : graph.Intact vocabulary) {stat : Stat} {stage : Stage}
    {path : Path} {reads : List Reading} (resolved : stat.isResolved = true)
    (within : stat.HeadWithin vocabulary) (route : path.Within vocabulary)
    (readings : ∀ reading ∈ reads, reading.Within vocabulary) :
    Explores vocabulary (graph.obtainWatched stat stage path reads)
      ((graph.obtainWatched stat stage path reads).settle (graph.obtain stat stage path).1) := by
  have watched : (graph.obtainWatched stat stage path reads).Intact vocabulary :=
    intact_obtainWatched intact resolved within route readings
  obtain ⟨own, level, place, address⟩ :
      (graph.obtainWatched stat stage path reads).Staged (graph.obtain stat stage path).1 :=
    staged_obtainWatched intact.toResting resolved within route reads
  exact explores_settle watched.toResting ⟨_, address⟩

theorem intact_stir (intact : graph.Intact vocabulary) (stir : Stir vocabulary graph other) :
    other.Intact vocabulary := by
  cases stir with
  | explore explores => exact intact.explore explores
  | deepen depth => exact intact.deepen depth
  | register registered => exact intact.register registered
  | watch resolved within route readings =>
      exact (intact_obtainWatched intact resolved within route readings).explore
        (explores_settleWatched intact resolved within route readings)
  | watchRoster within route => exact intact_subscribeRoster intact within route
  | unwatch id => exact intact_unsubscribe intact id

theorem intact_move (intact : graph.Intact vocabulary) (move : Move vocabulary graph other) :
    other.Intact vocabulary := by
  cases move with
  | stir stir => exact intact_stir intact stir
  | flush announceRosters => exact intact_flush intact announceRosters
  | sweep rules => exact intact_sweep rules intact

theorem Moves.intact (moves : Moves vocabulary graph other) (intact : graph.Intact vocabulary) :
    other.Intact vocabulary := by
  induction moves with
  | refl => exact intact
  | tail _ move inductionHypothesis => exact intact_move inductionHypothesis move

theorem Stirs.intact (stirs : Stirs vocabulary graph other) (intact : graph.Intact vocabulary) :
    other.Intact vocabulary := stirs.moves.intact intact

/-- What every move keeps is kept by moves in a row. -/
theorem Moves.keeps {keeps : Graph → Graph → Prop} (moves : Moves vocabulary graph other)
    (intact : graph.Intact vocabulary) (refl : ∀ graph, keeps graph graph)
    (trans : ∀ graph middle other, keeps graph middle → keeps middle other → keeps graph other)
    (step : ∀ graph other, graph.Intact vocabulary → Move vocabulary graph other →
      keeps graph other) : keeps graph other := by
  induction moves with
  | refl => exact refl _
  | tail before move inductionHypothesis =>
      exact trans _ _ _ inductionHypothesis (step _ _ (Moves.intact before intact) move)

theorem stirs_obtain? (graph : Graph) {stat : Stat} (stage : Stage) {path : Path}
    (within : stat.HeadWithin vocabulary) (route : path.Within vocabulary) :
    Stirs vocabulary graph (graph.obtain? stat stage path).2 := by
  unfold obtain?
  split
  · next resolved => exact (explores_obtain graph resolved stage within route).stirs
  · exact .refl graph

end Graph

/-- A graph after the modifiers that an operation brings or takes have come or gone. -/
def Operation.turnover (graph : Graph) : Operation → Graph
  | add modifier => (graph.addModifier modifier).2
  | addAll modifiers => (Sheet.addEach graph modifiers 0).2
  | remove id => (graph.removeModifier id).2
  | removeAll ids => (Sheet.removeEach graph ids 0).2
  | _ => graph

namespace Sheet

open CharacterSheet.Graph

variable {vocabulary : Vocabulary}

/-! ### Modifiers that come and go -/

theorem turns_addEach (closed : vocabulary.Closed) {graph : Graph} {modifiers : List Modifier}
    (within : ∀ modifier ∈ modifiers, modifier.Within vocabulary) (sound : graph.Sound vocabulary)
    (wired : graph.Wired) (count : Nat) :
    Turns vocabulary graph (addEach graph modifiers count).2 ∧
      (addEach graph modifiers count).2.Wired := by
  induction modifiers generalizing graph count with
  | nil => exact ⟨.refl sound, wired⟩
  | cons modifier rest inductionHypothesis =>
      have added := turns_addModifier closed sound wired (within modifier List.mem_cons_self)
      have later : ∀ modifier ∈ rest, modifier.Within vocabulary := fun other member =>
        within other (List.mem_cons_of_mem modifier member)
      unfold addEach
      split
      · next outcome =>
        rw [outcome] at added
        exact added
      · next outcome =>
        rw [outcome] at added
        obtain ⟨turns, last⟩ := inductionHypothesis later added.1.sound added.2 _
        exact ⟨added.1.trans turns, last⟩

theorem turns_removeEach {graph : Graph} (sound : graph.Sound vocabulary) (wired : graph.Wired)
    (attended : graph.Attended) (ids : List ModifierId) (count : Nat) :
    Turns vocabulary graph (removeEach graph ids count).2 ∧
      (removeEach graph ids count).2.Wired := by
  induction ids generalizing graph count with
  | nil => exact ⟨.refl sound, wired⟩
  | cons id rest inductionHypothesis =>
      obtain ⟨first, between⟩ := turns_removeModifier sound wired attended id
      obtain ⟨turns, last⟩ := inductionHypothesis first.sound between
        (first.audience.attended attended)
        (if (graph.removeModifier id).1 then count + 1 else count)
      exact ⟨first.trans turns, last⟩

theorem intact_removeEach {graph : Graph} (intact : graph.Intact vocabulary)
    (ids : List ModifierId) (count : Nat) : (removeEach graph ids count).2.Intact vocabulary :=
  have ⟨turns, wired⟩ :=
    turns_removeEach intact.toSound intact.wired intact.watched.attended ids count
  intact.turn turns wired

/-- Modifiers come and go by turns. -/
theorem turns_turnover (closed : vocabulary.Closed) {graph : Graph}
    (intact : graph.Intact vocabulary) {operation : Operation}
    (within : operation.Within vocabulary) :
    Turns vocabulary graph (operation.turnover graph) ∧ (operation.turnover graph).Wired := by
  have sound := intact.toSound
  have attended := intact.watched.attended
  cases operation with
  | add modifier => exact turns_addModifier closed sound intact.wired within
  | addAll modifiers => exact turns_addEach closed within sound intact.wired 0
  | remove id => exact turns_removeModifier sound intact.wired attended id
  | removeAll ids => exact turns_removeEach sound intact.wired attended ids 0
  | _ => exact ⟨.refl sound, intact.wired⟩

theorem intact_turnover (closed : vocabulary.Closed) {graph : Graph}
    (intact : graph.Intact vocabulary) {operation : Operation}
    (within : operation.Within vocabulary) : (operation.turnover graph).Intact vocabulary :=
  have ⟨turns, wired⟩ := turns_turnover closed intact within
  intact.turn turns wired

end Sheet
end CharacterSheet
