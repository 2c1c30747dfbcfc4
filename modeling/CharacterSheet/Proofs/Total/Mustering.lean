import CharacterSheet.Proofs.Change.Shifting

/-!
Contract: the value of a stage that collects modifiers is what their contributions come to.

Owns:
- what calculations uphold is upheld by every stir, flush and sweep;
- mustered graphs, in which the value of a stage that collects modifiers follows from what the
  contributions to it are, as long as the behaviors in force there heed faults;
- calculations, moves, and modifiers that come and go keep a graph mustered, whatever the formulas
  and behaviors elsewhere are.

A formula may swallow a fault, and then its value rests on more than is cached. A stage that collects
modifiers has no formula of its own: it reads the nodes of its members, and keeps a value only if all
of them have one.
-/

namespace CharacterSheet

/-! ### What calculations uphold -/

section Upholding

open CharacterSheet.Graph

variable {vocabulary : Vocabulary} {trusted : Address → Prop} {holds : Graph → Prop}
  {graph other : Graph} (upheld : Upheld vocabulary trusted holds) (intact : graph.Intact vocabulary)
include upheld intact

theorem Upheld.speaks (speaks : Speaks vocabulary graph other) (before : holds graph) :
    holds other := by
  induction speaks with
  | refl => exact before
  | explore earlier explores inductionHypothesis =>
      exact explores.upheld upheld (earlier.intact intact).toResting inductionHypothesis
  | record entry earlier inductionHypothesis =>
      exact upheld.alter (earlier.intact intact).formed (alters_record _ entry) inductionHypothesis

theorem Upheld.stir (stir : Stir vocabulary graph other) (before : holds graph) : holds other := by
  have formed := intact.formed
  cases stir with
  | explore explores => exact explores.upheld upheld intact.toResting before
  | deepen depth => exact upheld.alter formed (.of_shape rfl rfl rfl) before
  | register registered => exact upheld.alter formed (.of_shape rfl rfl rfl) before
  | @watch stat stage path reads resolved within route readings =>
      have obtains : Explores vocabulary graph (graph.obtain stat stage path).2 :=
        explores_obtain graph resolved stage within route
      have watched : holds (graph.obtainWatched stat stage path reads) :=
        upheld.alter (intact.explore obtains).formed (graph.alters_obtainWatched stat stage path reads)
          (obtains.upheld upheld intact.toResting before)
      exact (explores_settleWatched intact resolved within route readings).upheld upheld
        (intact_obtainWatched intact resolved within route readings).toResting watched
  | @watchRoster stat form path within route =>
      rw [subscribeRoster_eq]
      split
      · next resolved =>
        have ready := intact_ensurePipeline intact resolved within
        have opened := upheld.step formed
          (steps_ensurePipeline formed intact.stacked resolved within) before
        let target : Target := .slot ⟨stat.id, form, (path.at form.stage).id⟩
        have numbered : holds ((graph.ensurePipeline stat).newSubscription target).2 :=
          upheld.alter ready.formed (.of_shape rfl rfl rfl) opened
        have seated := (intact_newSubscription ready target).formed
        exact upheld.alter seated (alters_refit (fun pipeline here =>
          refits_seated (ready.formed.pipelines stat.id pipeline here) form _ route) seated) numbered
      · exact before
  | unwatch id => exact upheld.alter formed (alters_unsubscribe formed id) before

theorem Upheld.flush (announceRosters : Bool) (before : holds graph) :
    holds (graph.flush announceRosters) := by
  by_cases settled : graph.Settled
  · rw [flush_settled settled]
    exact upheld.alter intact.formed (.of_shape rfl rfl rfl) before
  · have begun : graph.begun.Intact vocabulary := (intact_cleared intact).record _
    exact upheld.speaks begun (tells_flush intact announceRosters settled).speaks
      (upheld.alter intact.formed (.of_shape rfl rfl rfl) before)

theorem Upheld.removeSlots {slots : List SlotId} (vacant : ∀ slot ∈ slots, graph.Vacant slot)
    (before : holds graph) : holds (slots.foldl removeSlot graph) := by
  induction slots generalizing graph with
  | nil => exact before
  | cons slot rest inductionHypothesis =>
      have refits := (vacant slot List.mem_cons_self).refits intact.formed
      refine inductionHypothesis (Intact.refit refits intact) (fun other member => ?_)
        (upheld.alter intact.formed (alters_refit refits intact.formed) before)
      have same : (graph.removeSlot slot).members = graph.members := by
        funext stat form path
        exact members_refit refits stat form path
      rw [Vacant, same]
      exact vacant other (List.mem_cons_of_mem slot member)

theorem Upheld.removePipelines {stats : List StatId} (hollow : ∀ stat ∈ stats, graph.Hollow stat)
    (before : holds graph) : holds (stats.foldl removePipeline graph) := by
  induction stats generalizing graph with
  | nil => exact before
  | cons stat rest inductionHypothesis =>
      have here := hollow stat List.mem_cons_self
      obtain ⟨_, alters⟩ := alters_removePipeline intact.formed here
      refine inductionHypothesis (intact_removePipeline intact here) (fun other member => ?_)
        (upheld.alter intact.formed alters before)
      intro pipeline found
      rw [pipelines_removePipeline] at found
      split at found
      · contradiction
      · exact hollow other (List.mem_cons_of_mem stat member) pipeline found

theorem Upheld.sweep (rules : Retention) (before : holds graph) : holds (graph.sweep rules).2 := by
  have discards := discards_sweep rules intact
  have removed := upheld.alter intact.formed (discards.alters intact.formed fun _ _ leaves _ =>
    staged_sweptNodes rules intact.formed leaves) before
  have thinned := upheld.removeSlots (intact_removeSwept rules intact)
    (fun _ => vacant_sweptSlots rules intact) removed
  have relaxed := upheld.alter (intact_thinned rules intact).1.formed
    ((relaxes_relaxed rules).alters fun _ _ => unneeded_closed rules intact) thinned
  have swept := upheld.removePipelines (intact_relaxed rules intact)
    (fun _ => hollow_removablePipelines rules) relaxed
  rcases graph.sweep_cases rules with same | same | ⟨entry, same⟩ <;> rw [same]
  · exact before
  · exact swept
  · exact upheld.alter (intact_swept rules intact).formed (alters_record _ entry) swept

theorem Upheld.move (move : Move vocabulary graph other) (before : holds graph) : holds other := by
  cases move with
  | stir stir => exact upheld.stir intact stir before
  | flush announceRosters => exact upheld.flush intact announceRosters before
  | sweep rules => exact upheld.sweep intact rules before

end Upholding

/-! ### Mustered graphs -/

/-- The address of a stage that collects the modifiers of a form. -/
def Address.Collects : Address → Prop
  | .pipeline _ stage _ => stage.form?.isSome = true
  | .contribution _ => False

namespace Graph

variable {vocabulary : Vocabulary} {graph other : Graph} {affected dirty : NodeId → Prop}

/-- A value of a stage that collects modifiers is justified, if the behaviors in force for the stage
heed faults. -/
def Mustered (graph : Graph) : Prop :=
  ∀ node value address, graph.known node = some value → graph.addressOf? node = some address →
    address.Collects → (∀ transform ∈ graph.transformsOf address, transform.Propagates) →
      graph.Justified node value

theorem Mustered.initial : ({} : Graph).Mustered := fun _ _ _ unknown => nomatch unknown

/-- A change that dirties no stage that collects modifiers. -/
theorem Mustered.alter (mustered : graph.Mustered) (formed : graph.WellFormed vocabulary)
    (alters : graph.Alters other affected dirty)
    (spared : ∀ node address, dirty node → graph.addressOf? node = some address →
      ¬ address.Collects) : other.Mustered := by
  intro node value address known found collects heeded
  have unaffected : ¬ affected node := by
    intro reached
    rw [alters.dropped node reached] at known
    contradiction
  rw [alters.known node unaffected] at known
  obtain ⟨present, here, _⟩ := known_eq_some_iff.mp known
  have before : graph.addressOf? node = some present.address := by
    rw [addressOf?, here]
    rfl
  rw [alters.addressed node _ unaffected before] at found
  cases found
  have clean : ¬ dirty node := fun dirtied => spared node _ dirtied before collects
  rw [(alters.view node _ unaffected clean before).2] at heeded
  exact (mustered node value _ known before collects heeded).spared formed
    (alters.spares unaffected clean)

/-- Calculations keep a graph mustered. -/
theorem upheld_mustered : Upheld vocabulary Address.Collects Mustered where
  heeds := by
    rintro graph (⟨stat, stage, path⟩ | modifier) _ collects
    · exact (planOf_stage_passes stat stage path).mono (fun _ heeded => heeded) fun _ => And.left
    · exact collects.elim
  alter := fun formed alters mustered => mustered.alter formed alters fun _ _ none => none.elim
  leave := by
    intro graph node reads reply formed unknown justify mustered reached value address known found
      collects heeded
    rw [addressOf?_of_shape (shape_leave _ _ _ _)] at found
    rw [transformsOf_of_shape (shape_leave _ _ _ _)] at heeded
    by_cases same : reached = node
    · subst same
      exact (justify value address known found collects heeded).1
    · rw [known_leave _ _ _ _ same] at known
      exact (mustered reached value address known found collects heeded).spared formed
        (spares_leave unknown reads reply same)

/-! ### Modifiers that come and go -/

/-- Whatever the links are, they do not matter to stages that collect modifiers. -/
theorem alters_relink_collects (formed : graph.WellFormed vocabulary) (links : Links)
    (entry : Record) (source target : StatId) :
    graph.Alters (graph.relink links entry source target)
      (fun node => node ∈ ({ graph with links }.record entry).dependents
        (({ graph with links }.record entry).linkTargets source target))
      fun node => ∀ address, graph.addressOf? node = some address → ¬ address.Collects := by
  have replaced : graph.Alters { graph with links } Clean
      fun node => ∀ address, graph.addressOf? node = some address → ¬ address.Collects := by
    refine .of_content rfl (fun _ => rfl) (fun query _ found => by cases query <;> exact found)
      (fun _ _ found => found) fun node address clean found => ?_
    have collects : address.Collects := by
      by_contra apart
      refine clean fun other there => ?_
      rw [found] at there
      cases there
      exact apart
    cases address with
    | contribution modifier => exact collects.elim
    | pipeline own stage path =>
        refine ⟨planOf_congr ⟨rfl, fun _ _ => rfl, fun _ _ _ => rfl, ?_, ?_, ?_⟩
          (formed.node?_of_address found).2 fun other there =>
            (formed.pipelines own other there).keyed, rfl⟩
        all_goals
          rintro rfl
          cases collects
  rw [relink, linkChanged_eq]
  exact (replaced.record entry).invalidate _ fun _ _ _ => Or.inr

theorem Mustered.shift (mustered : graph.Mustered) (sound : graph.Sound vocabulary)
    (shift : Shift vocabulary graph other) : other.Mustered := by
  have formed := sound.formed
  cases shift with
  | @note entry inward =>
      exact upheld_mustered.alter formed (graph.alters_record entry) mustered
  | introduce absent within =>
      exact upheld_mustered.alter formed (alters_introduce formed absent) mustered
  | obtain resolved within route =>
      exact upheld_mustered.step formed (steps_obtain formed sound.stacked resolved within route)
        mustered
  | @amend slot filled pipeline change memberships widens here amends =>
      refine mustered.alter formed (alters_changeRoster formed here change widens) ?_
      rintro node address ⟨_, sums, _⟩ found collects
      obtain ⟨full, place, _⟩ := formed.address_of_node? sums
      rw [found] at place
      cases place
      cases collects
  | @relink entry links source target inward =>
      exact mustered.alter formed (alters_relink_collects formed links entry source target)
        fun node address dirtied found => dirtied address found
  | depart modifiers contributions address discards abandons =>
      exact upheld_mustered.alter formed (formed.alters_discard discards abandons) mustered

theorem Mustered.shifts (mustered : graph.Mustered) (shifts : Shifts vocabulary graph other) :
    other.Mustered :=
  shifts.keeps (fun _ before => before) (fun _ _ _ first second before => second (first before))
    (fun _ _ sound shift before => Mustered.shift before sound shift) mustered

theorem lasting_mustered (closed : vocabulary.Closed) : Lasting vocabulary Mustered where
  move := fun _ _ intact move mustered => upheld_mustered.move intact move mustered
  add := fun _ _ intact _ within mustered =>
    mustered.shifts (shifts_addModifier closed intact.toSound within)
  remove := fun _ id intact _ mustered => mustered.shifts (shifts_removeModifier intact id)

end Graph
end CharacterSheet
