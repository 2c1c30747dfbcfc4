import CharacterSheet.Proofs.Membership.Accounting
import CharacterSheet.Proofs.Total.Contents
import CharacterSheet.Proofs.Membership.Ledgers
import CharacterSheet.Proofs.Membership.Masking

/-!
Contract: the removal of a modifier undoes its addition.

Owns:
- what stays the same for all other modifiers when one joins rosters or leaves them;
- the links without what the stats convey that a modifier is the first to name: neither its addition
  nor its removal changes them;
- an addition is made for all stats of a modifier or for none, and the removal right after it restores
  modifiers, rosters and numbers of memberships, and, unless another modifier contributes to a rival of
  its stats, links, paths and replies.

Rivals are stats of different names that convey the same. A link remembers only one of them, so a
newcomer takes the place of its rival in the link, and leaves nobody there when it goes.
-/

namespace CharacterSheet

/-! ### What other modifiers keep -/

/-- Different stats that convey the same. -/
def Stat.Rivals (stat other : Stat) : Prop :=
  stat.id ≠ other.id ∧ stat.route?.isSome ∧ stat.route? = other.route?

instance (stat other : Stat) : Decidable (stat.Rivals other) :=
  inferInstanceAs (Decidable (_ ∧ _ ∧ _))

namespace Pipeline

/-- The rosters that have other members than one modifier: their paths and these members. -/
def filledBut (id : ModifierId) (pipeline : Pipeline) : List (Path × List ModifierId) :=
  pipeline.slots.entries.filterMap fun entry =>
    let others := entry.2.roster.members.filter (· ≠ id)
    if others.isEmpty then none else some (entry.2.path, others)

theorem filledBut_of_absent {id : ModifierId} {pipeline : Pipeline}
    (absent : ∀ form path, id ∉ pipeline.members form path) :
    pipeline.filledBut id = pipeline.filled := by
  refine List.filterMap_congr ?_
  rintro ⟨⟨form, path⟩, slot⟩ member
  have outside := absent form path
  rw [members, (Table.get?_eq_some_iff _ _ _).mpr member] at outside
  have others : slot.roster.members.filter (· ≠ id) = slot.roster.members :=
    List.filter_eq_self.mpr fun other inside => decide_eq_true fun same => outside (same ▸ inside)
  simp only [others]

/-- A roster that changes by one modifier alone looks the same without it. -/
theorem filledBut_fill {id : ModifierId} {pipeline : Pipeline} {form : Form} {path : PathId}
    {filled : Slot} (others : filled.roster.members.filter (· ≠ id) =
      (pipeline.members form path).filter (· ≠ id))
    (placed : ∀ slot, pipeline.slots.get? (form, path) = some slot → filled.path = slot.path)
    (memberships : Nat) :
    (pipeline.fill form path filled memberships).filledBut id = pipeline.filledBut id := by
  refine pipeline.slots.filterMap_insert ?_
  rw [members] at others
  cases here : pipeline.slots.get? (form, path) with
  | none =>
      rw [here] at others
      simp only [others, List.filter_nil, List.isEmpty_nil, ↓reduceIte, Option.bind_none]
  | some slot =>
      rw [here] at others
      simp only [others, placed slot here, Option.bind_some]

end Pipeline

namespace Graph

variable {vocabulary : Vocabulary} {graph middle other : Graph} {modifier : Modifier} {stat : Stat}

/-- The rosters of a stat that have other members than one modifier. -/
def filledBut (graph : Graph) (id : ModifierId) (stat : StatId) : List (Path × List ModifierId) :=
  (graph.pipelines.get? stat).elim [] (·.filledBut id)

theorem filledBut_eq (graph : Graph) (id : ModifierId) (stat : StatId) : graph.filledBut id stat =
    (graph.rostersOf stat).filterMap fun entry =>
      let others := entry.2.roster.members.filter (· ≠ id)
      if others.isEmpty then none else some (entry.2.path, others) := by
  rw [filledBut, rostersOf]
  cases graph.pipelines.get? stat <;> rfl

/-- Pipelines keep their stats, and their rosters all members apart from one modifier. -/
structure Bypasses (id : ModifierId) (graph other : Graph) : Prop where
  keeps : ∀ kept, graph.Keeps kept → other.Keeps kept
  filledBut : ∀ stat, other.filledBut id stat = graph.filledBut id stat

theorem Bypasses.refl (id : ModifierId) (graph : Graph) : Bypasses id graph graph :=
  ⟨fun _ keeps => keeps, fun _ => rfl⟩

theorem Bypasses.trans {id : ModifierId} (first : Bypasses id graph middle)
    (second : Bypasses id middle other) : Bypasses id graph other :=
  ⟨fun kept keeps => second.keeps kept (first.keeps kept keeps),
    fun stat => (second.filledBut stat).trans (first.filledBut stat)⟩

theorem Bypasses.of_pipelines (id : ModifierId) (same : other.pipelines = graph.pipelines) :
    Bypasses id graph other :=
  ⟨fun _ keeps => keeps.of_pipelines same,
    fun stat => by rw [Graph.filledBut, Graph.filledBut, same]⟩

theorem Bypasses.of_extends (id : ModifierId) (larger : graph.Extends other) : Bypasses id graph other where
  keeps := fun _ => larger.keeps
  filledBut := fun stat => by rw [filledBut_eq, filledBut_eq, larger.rostersOf]

/-- One roster of a stat changes by one modifier alone. -/
theorem Bypasses.of_fill {id : ModifierId} {pipeline : Pipeline} {slot : SlotId} {filled : Slot}
    (here : graph.pipelines.get? slot.stat = some pipeline)
    (others : filled.roster.members.filter (· ≠ id) =
      (pipeline.members slot.form slot.path).filter (· ≠ id))
    (placed : ∀ old, pipeline.slots.get? (slot.form, slot.path) = some old → filled.path = old.path)
    (memberships : Nat) (change : Delta ModifierId) (widens : Bool) :
    Bypasses id graph (graph.changeRoster slot filled memberships change widens) where
  keeps := fun _ keeps => keeps.changeRoster slot filled memberships change widens
  filledBut := by
    intro stat
    rw [Graph.filledBut, Graph.filledBut, pipelines_changeRoster, pipelines_enterRoster]
    split
    · next same =>
      subst same
      rw [here, Option.map_some, Option.elim_some, Option.elim_some]
      exact Pipeline.filledBut_fill others placed memberships
    · rfl

theorem bypasses_joinRoster (sound : graph.Sound vocabulary) (resolved : stat.isResolved = true)
    (within : stat.HeadWithin vocabulary) (route : modifier.path.Within vocabulary) :
    Bypasses modifier.id graph (joinRoster modifier graph stat) := by
  have opens : Bypasses modifier.id graph (graph.obtain stat modifier.form.stage modifier.path).2 :=
    .of_extends modifier.id
      (advances_obtain sound.formed sound.stacked resolved within route).grows.toExtends
  obtain ⟨ready, pipeline, rfl, here, ⟨joined, _⟩ | ⟨roster, change, added, joined⟩⟩ :=
    joinRoster_cases sound.formed sound.stacked resolved within route
  · exact joined.symm ▸ opens
  · rw [joined]
    obtain ⟨_, joins, _⟩ := members_added here added
    refine (opens.trans (.of_fill here ?_ (fun old found => ?_) _ _ _)).trans
      (.of_pipelines modifier.id (pipelines_linkIf _ _ _))
    · rw [members, here] at joins
      show roster.members.filter _ = _
      rw [joins, List.filter_append]
      simp
    · show (seat modifier pipeline).path = old.path
      rw [seat, found, Option.getD_some]

theorem bypasses_leaveRoster (modifier : Modifier) (graph : Graph) (stat : Stat) :
    Bypasses modifier.id graph (leaveRoster modifier graph stat) := by
  rcases graph.leaveRoster_cases modifier stat with ⟨stays, _⟩ |
    ⟨pipeline, slot, roster, change, here, filled, removed, left⟩
  · exact stays.symm ▸ .refl modifier.id graph
  · rw [left]
    refine (Bypasses.of_fill here ?_ (fun old found => ?_) _ _ _).trans
      (.of_pipelines modifier.id (pipelines_unlinkIf _ _ _))
    · rw [Roster.remove?] at removed
      split at removed
      · cases removed
        rw [Pipeline.members, filled]
        show (slot.roster.members.erase modifier.id).filter _ = _
        rw [← List.erase_filter, List.erase_of_not_mem (by simp)]
      · cases removed
    · rw [filled] at found
      cases found
      rfl

theorem bypasses_joinRosters (closed : vocabulary.Closed) {stats : List Stat}
    (sound : graph.Sound vocabulary) (known : graph.modifiers.get? modifier.id = some modifier)
    (named : ∀ stat ∈ stats, stat ∈ modifier.stats ∧ stat.isResolved = true) :
    Bypasses modifier.id graph (stats.foldl (joinRoster modifier) graph) := by
  refine joinRosters_induct closed stats graph sound known named (fun graph _ => .refl modifier.id graph)
    ?_
  intro head rest graph joining later
  have route : modifier.path.Within vocabulary := Modifier.Within.path closed modifier
  exact (bypasses_joinRoster joining.sound joining.resolved joining.within route).trans later

theorem bypasses_leaveRosters (modifier : Modifier) (stats : List Stat) (graph : Graph) :
    Bypasses modifier.id graph (stats.foldl (leaveRoster modifier) graph) := by
  induction stats generalizing graph with
  | nil => exact .refl modifier.id graph
  | cons head rest inductionHypothesis =>
      exact (bypasses_leaveRoster modifier graph head).trans (inductionHypothesis _)

theorem Thins.engaged (thins : graph.Thins other) {own : StatId} (engaged : other.Engaged own) :
    graph.Engaged own := by
  obtain ⟨form, path, some⟩ := engaged
  obtain ⟨member, inside⟩ := List.exists_mem_of_ne_nil _ some
  exact ⟨form, path, List.ne_nil_of_mem (thins.members own form path member inside)⟩

/-! ### Links without what a modifier is the first to name -/

section Links

variable {gone : StatId → StatId → Share → Prop} [∀ source target, DecidablePred (gone source target)]

/-- A modifier that joins the rosters of some stats changes links only by what those of them convey
that nobody named before. -/
theorem without_joinRosters (closed : vocabulary.Closed) {stats : List Stat}
    (sound : graph.Sound vocabulary) (counted : graph.Counted)
    (known : graph.modifiers.get? modifier.id = some modifier)
    (named : ∀ stat ∈ stats, stat ∈ modifier.stats ∧ stat.isResolved = true)
    (fresh : ∀ kept, (stats.foldl (joinRoster modifier) graph).Keeps kept →
      (∃ stat ∈ stats, stat.id = kept.id) → ¬ graph.Engaged kept.id → kept.LeftOut gone) :
    (stats.foldl (joinRoster modifier) graph).links.without gone = graph.links.without gone := by
  induction stats generalizing graph with
  | nil => rfl
  | cons head rest inductionHypothesis =>
      obtain ⟨member, resolved⟩ := named head List.mem_cons_self
      have later : ∀ stat ∈ rest, stat ∈ modifier.stats ∧ stat.isResolved = true :=
        fun stat inside => named stat (List.mem_cons_of_mem head inside)
      obtain ⟨turns, gathers⟩ := turns_joinRoster closed sound known member resolved
      have within := (sound.formed.present _ modifier known).2.1.stats head member
      have route : modifier.path.Within vocabulary := Modifier.Within.path closed modifier
      have joins := joins_joinRoster sound resolved within route
      have recruits := recruits_joinRoster sound counted resolved within route
      have known' := gathers.modifiers ▸ known
      have rests := inductionHypothesis turns.sound (joins.counted counted) known' later
        fun kept keeps named idle => fresh kept keeps (named.imp fun _ both =>
          ⟨List.mem_cons_of_mem head both.1, both.2⟩)
            fun engaged => idle ((joins.engaged_iff _).mpr (.inr engaged))
      rw [List.foldl_cons, rests]
      by_cases busy : graph.Engaged head.id
      · rw [recruits.engaged busy]
      · obtain ⟨kept, keeps, same, links⟩ := recruits.idle busy
        have stays := (bypasses_joinRosters closed turns.sound known' later).keeps kept keeps
        rw [links, Links.without_register]
        exact fresh kept stays ⟨head, List.mem_cons_self, same.symm⟩ (same ▸ busy)

/-- A modifier that leaves the rosters of some stats changes links only by what those of them convey
that nobody names afterwards. -/
theorem without_leaveRosters {stats : List Stat} (sound : graph.Sound vocabulary)
    (counted : graph.Counted)
    (idle : ∀ kept, (stats.foldl (leaveRoster modifier) graph).Keeps kept →
      (∃ stat ∈ stats, stat.id = kept.id) →
        ¬ (stats.foldl (leaveRoster modifier) graph).Engaged kept.id → kept.LeftOut gone) :
    (stats.foldl (leaveRoster modifier) graph).links.without gone = graph.links.without gone := by
  induction stats generalizing graph with
  | nil => rfl
  | cons head rest inductionHypothesis =>
      have turned := (leaves_leaveRoster sound modifier head).1.turns.sound
      have stays := bypasses_leaveRosters modifier (head :: rest) graph
      have thins := (leaves_foldl modifier rest turned).1.thins
      have rests := inductionHypothesis turned
        ((quits_leaveRoster sound.formed modifier head).counted counted)
        fun kept keeps named => idle kept keeps (named.imp fun _ both =>
          ⟨List.mem_cons_of_mem head both.1, both.2⟩)
      rw [List.foldl_cons, rests]
      by_cases inside : modifier.id ∈ graph.members head.id modifier.form modifier.path.id
      · have releases := releases_leaveRoster sound.formed counted inside
        by_cases busy : (leaveRoster modifier graph head).Engaged head.id
        · rw [releases.engaged busy]
        · obtain ⟨kept, keeps, same, links⟩ := releases.idle busy
          rw [links, Links.without_revoke]
          refine idle kept (stays.keeps kept keeps) ⟨head, List.mem_cons_self, same.symm⟩ ?_
          rw [same]
          exact fun late => busy (thins.engaged late)
      · rw [leaveRoster_absent sound.formed inside]

end Links

/-! ### What a removal restores -/

theorem Regains.engaged_iff (regains : graph.Regains other) (own : StatId) :
    other.Engaged own ↔ graph.Engaged own := by
  simp only [Engaged, regains.members]

/-- The graph on which a modifier is present, but stands in no roster yet. -/
def welcomed (graph : Graph) (modifier : Modifier) : Graph :=
  (graph.record (.adding modifier.id modifier.description)).introduce modifier

/-- A modifier that no roster lists does not show in what the others have. -/
theorem filledBut_absent {id : ModifierId} {own : StatId}
    (absent : ∀ form path, id ∉ graph.members own form path) :
    graph.filledBut id own = graph.filled own := by
  rw [filledBut, filled]
  cases here : graph.pipelines.get? own with
  | none => rfl
  | some pipeline =>
      simp only [members, here] at absent
      exact Pipeline.filledBut_of_absent absent

/-- Paths depend on the others alone where a modifier is in no roster. -/
theorem Bypasses.paths {id : ModifierId} (bypasses : Bypasses id graph other)
    (absent : ∀ own form path, id ∉ graph.members own form path)
    (gone : ∀ own form path, id ∉ other.members own form path) (links : other.links = graph.links)
    (own : StatId) : other.paths own = graph.paths own := by
  refine paths_of_filled ?_ links
  rw [← filledBut_absent (absent own), ← filledBut_absent (gone own), bypasses.filledBut]

/-- A stat to which modifiers contribute has a pipeline, which keeps it. -/
theorem WellFormed.exists_keeps (formed : graph.WellFormed vocabulary) {own : StatId}
    (engaged : graph.Engaged own) : ∃ kept, graph.Keeps kept ∧ kept.id = own := by
  obtain ⟨form, path, some⟩ := engaged
  cases here : graph.pipelines.get? own with
  | none => simp [members, here] at some
  | some pipeline =>
      have keyed := (formed.pipelines own pipeline here).keyed
      exact ⟨pipeline.stat, ⟨pipeline, by rw [keyed]; exact here, rfl⟩, keyed⟩

/-- Where a pipeline stays in its place, what it keeps later is what it kept before. -/
theorem Bypasses.keeps_before {id : ModifierId} (bypasses : Bypasses id graph other)
    (formed : graph.WellFormed vocabulary) {kept : Stat} (keeps : other.Keeps kept)
    (engaged : graph.Engaged kept.id) : graph.Keeps kept := by
  obtain ⟨own, before, same⟩ := formed.exists_keeps engaged
  rw [← (bypasses.keeps own before).eq keeps same]
  exact before

theorem Discards.bypasses {gone : NodeId → Prop} (discards : graph.Discards other gone)
    (id : ModifierId) : Bypasses id graph other where
  keeps := by
    rintro kept ⟨pipeline, here, same⟩
    obtain ⟨nodes, later, _⟩ := discards.pipelines kept.id pipeline here
    exact ⟨{ pipeline with nodes }, later, same⟩
  filledBut := fun stat => by rw [filledBut_eq, filledBut_eq, discards.rostersOf]

/-! ### An addition and the removal after it -/

section Addition

variable (closed : vocabulary.Closed) (intact : graph.Intact vocabulary)
  (absent : graph.modifiers.get? modifier.id = none)
  (resolved : ∀ stat ∈ modifier.stats, stat.isResolved = true)
  (within : modifier.Within vocabulary)

include absent resolved in
theorem addModifier_eq : graph.addModifier modifier =
    (.ok true, modifier.stats.foldl (joinRoster modifier) (graph.welcomed modifier)) := by
  rcases graph.addModifier_cases modifier with ⟨present, _⟩ | ⟨_, ⟨_, bound, _⟩ | ⟨_, same⟩⟩
  · simp [absent] at present
  · have listed := List.mem_of_find?_eq_some bound
    have unbound := List.find?_some bound
    simp [resolved _ listed] at unbound
  · exact same

include intact absent within in
theorem sound_welcomed : (graph.welcomed modifier).Sound vocabulary :=
  have noted := intact.record (.adding modifier.id modifier.description)
  (turns_introduce noted.formed absent noted.toSound within).sound

include closed intact absent resolved within

theorem bypasses_addModifier : Bypasses modifier.id graph (graph.addModifier modifier).2 := by
  rw [addModifier_eq absent resolved]
  exact (Bypasses.of_pipelines modifier.id rfl : Bypasses _ graph (graph.welcomed modifier)).trans
    (bypasses_joinRosters closed (sound_welcomed intact absent within)
      (Table.get?_insert_self _ _ _) fun stat member => ⟨member, resolved stat member⟩)

theorem without_addModifier {gone : StatId → StatId → Share → Prop}
    [∀ source target, DecidablePred (gone source target)] (counted : graph.Counted)
    (fresh : ∀ kept, (graph.addModifier modifier).2.Keeps kept → modifier.names kept.id →
      ¬ graph.Engaged kept.id → kept.LeftOut gone) :
    (graph.addModifier modifier).2.links.without gone = graph.links.without gone := by
  rw [addModifier_eq absent resolved] at fresh ⊢
  refine without_joinRosters closed (sound_welcomed intact absent within) counted
    (Table.get?_insert_self _ _ _) (fun stat member => ⟨member, resolved stat member⟩) ?_
  intro kept keeps named idle
  exact fresh kept keeps (by simpa [Modifier.names] using named) idle

end Addition

theorem bypasses_dismissed (modifier : Modifier) (graph : Graph) :
    Bypasses modifier.id graph (graph.dismissed modifier) := by
  have noted : Bypasses modifier.id graph
      (graph.record (.removing modifier.id modifier.description)) := .of_pipelines modifier.id rfl
  exact noted.trans (bypasses_leaveRosters modifier modifier.stats _)

section Removal

variable (intact : graph.Intact vocabulary) (known : graph.modifiers.get? modifier.id = some modifier)

include intact known

/-- After a removal the rosters are as the modifier left them. -/
theorem exists_dismissed : ∃ node, (graph.removeModifier modifier.id).1 = true ∧
    (graph.dismissed modifier).Discards ((graph.dismissed modifier).removeNodes [node]) (· ∈ [node]) ∧
      (graph.removeModifier modifier.id).2 = ((graph.dismissed modifier).removeNodes [node]).retable
        (graph.modifiers.erase modifier.id) (graph.contributions.erase modifier.id) := by
  obtain ⟨node, _, removed⟩ := removeModifier_eq intact.toSound known
  exact ⟨node, by rw [removed], discards_dismissed intact.toSound known intact.wired.joined node, by rw [removed]⟩

theorem bypasses_removeModifier : Bypasses modifier.id graph (graph.removeModifier modifier.id).2 := by
  obtain ⟨node, _, discards, removed⟩ := exists_dismissed intact known
  have left := bypasses_dismissed modifier graph
  rw [removed]
  exact (left.trans (discards.bypasses modifier.id)).trans (.of_pipelines modifier.id rfl)

theorem without_removeModifier {gone : StatId → StatId → Share → Prop}
    [∀ source target, DecidablePred (gone source target)] {roll : List Modifier}
    (enrolled : graph.Enrolled roll)
    (idle : ∀ kept, graph.Keeps kept → modifier.names kept.id →
      ¬ (graph.removeModifier modifier.id).2.Engaged kept.id → kept.LeftOut gone) :
    (graph.removeModifier modifier.id).2.links.without gone = graph.links.without gone := by
  obtain ⟨node, _, discards, removed⟩ := exists_dismissed intact known
  have noted := intact.record (.removing modifier.id modifier.description)
  have links : (graph.removeModifier modifier.id).2.links = (graph.dismissed modifier).links := by
    rw [removed]
    exact discards.links
  have engaged (own : StatId) : (graph.removeModifier modifier.id).2.Engaged own ↔
      (graph.dismissed modifier).Engaged own := by
    rw [removed]
    exact exists_congr fun form => exists_congr fun path => by
      rw [← discards.undisturbed.members own form path]
      rfl
  rw [links]
  refine without_leaveRosters noted.toSound enrolled.counted ?_
  rintro kept keeps ⟨stat, member, same⟩ unnamed
  have serves : graph.Engaged kept.id := by
    refine (enrolled.engaged_iff kept.id).mpr (mem_targetsOf_iff.mpr ⟨modifier, ?_, stat, member, same⟩)
    rw [← enrolled.modifiers]
    exact (Table.mem_values_iff _ _).mpr ⟨_, known⟩
  have stays := bypasses_dismissed modifier graph
  exact idle kept (stays.keeps_before intact.formed keeps serves)
    (List.any_eq_true.mpr ⟨stat, member, decide_eq_true same⟩) fun busy => unnamed ((engaged _).mp busy)

end Removal
/-! ### There and back -/

/-- No other modifier contributes to a rival of a stat to which a modifier contributes, as pipelines
keep these stats. -/
def Unrivalled (graph : Graph) (modifier : Modifier) : Prop :=
  ∀ own ∈ graph.pipelines.values, modifier.names own.stat.id →
    ∀ rival ∈ graph.pipelines.values,
      (∃ present ∈ graph.modifiers.values, present.id ≠ modifier.id ∧ present.names rival.stat.id) →
        ¬ own.stat.Rivals rival.stat

instance (graph : Graph) (modifier : Modifier) : Decidable (graph.Unrivalled modifier) :=
  inferInstanceAs (Decidable (∀ own ∈ graph.pipelines.values, _))

/-- What the stats convey that a modifier is the first to name, as their pipelines keep them after its
addition. -/
def NewlyConveyed (modifier : Modifier) (graph : Graph) (source target : StatId) (share : Share) :
    Prop :=
  ∃ kept, (graph.addModifier modifier).2.Keeps kept ∧ modifier.names kept.id ∧
    ¬ graph.Engaged kept.id ∧ kept.route? = some (share, source, target)

/-- What no stat in use conveys stands in no link. -/
theorem Backs.unconveyed (backs : graph.Backs) {share : Share} {source target : StatId}
    (unused : ∀ stat, graph.Keeps stat → graph.Engaged stat.id →
      stat.route? ≠ some (share, source, target)) :
    graph.links.conveyor? share source target = none := by
  by_contra some
  obtain ⟨stat, conveyor⟩ := Option.ne_none_iff_exists'.mp some
  obtain ⟨⟨keeps, engaged⟩, conveys⟩ := backs.conveys share source target stat conveyor
  exact unused stat keeps engaged conveys

section RoundTrip

variable (closed : vocabulary.Closed) (intact : graph.Intact vocabulary)
  (absent : graph.modifiers.get? modifier.id = none)
  (resolved : ∀ stat ∈ modifier.stats, stat.isResolved = true)
  (within : modifier.Within vocabulary) {roll : List Modifier} (enrolled : graph.Enrolled roll)

include closed intact absent resolved within

theorem known_addModifier :
    (graph.addModifier modifier).2.modifiers.get? modifier.id = some modifier := by
  obtain ⟨_, gathers⟩ := turns_joinRosters closed (sound_welcomed intact absent within)
    (Table.get?_insert_self _ _ _) fun stat member => ⟨member, resolved stat member⟩
  rw [addModifier_eq absent resolved, gathers.modifiers]
  exact Table.get?_insert_self _ _ _

omit absent resolved in
theorem intact_addModifier : (graph.addModifier modifier).2.Intact vocabulary :=
  have named : (Operation.add modifier).Within vocabulary := within
  Sheet.intact_turnover closed intact named

omit absent resolved in
theorem intact_undone :
    ((graph.addModifier modifier).2.removeModifier modifier.id).2.Intact vocabulary :=
  Sheet.intact_removeEach (intact_addModifier closed intact within) [modifier.id] 0

theorem bypasses_undone : Bypasses modifier.id graph
    ((graph.addModifier modifier).2.removeModifier modifier.id).2 :=
  (bypasses_addModifier closed intact absent resolved within).trans
    (bypasses_removeModifier (intact_addModifier closed intact within)
      (known_addModifier closed intact absent resolved within))

include enrolled

theorem enrolled_addModifier : (graph.addModifier modifier).2.Enrolled (roll ++ [modifier]) := by
  rw [addModifier_eq absent resolved]
  exact enrolled_introduced closed intact enrolled absent resolved within

/-- Nobody else has the identity of the modifier, so the roll is what it was. -/
theorem enrolled_undone :
    ((graph.addModifier modifier).2.removeModifier modifier.id).2.Enrolled roll := by
  have removed := enrolled_removeModifier (intact_addModifier closed intact within)
    (enrolled_addModifier closed intact absent resolved within enrolled) modifier.id
  have others := enrolled.ne_of_absent intact.formed absent
  have back : (roll ++ [modifier]).filter (·.id ≠ modifier.id) = roll := by
    rw [List.filter_append, List.filter_eq_self.mpr fun present member =>
      decide_eq_true (others present member)]
    simp
  rwa [back] at removed

theorem regains_undone :
    graph.Regains ((graph.addModifier modifier).2.removeModifier modifier.id).2 :=
  enrolled.regains (enrolled_undone closed intact absent resolved within enrolled) intact.formed
    (intact_undone closed intact within).formed

/-- Unless a rival is in use, nothing that is newly conveyed was conveyed before. -/
theorem Unrivalled.not_newlyConveyed (unrivalled : (graph.addModifier modifier).2.Unrivalled modifier)
    {stat : Stat} (keeps : graph.Keeps stat) (engaged : graph.Engaged stat.id) {share : Share}
    {source target : StatId} (conveys : stat.route? = some (share, source, target)) :
    ¬ NewlyConveyed modifier graph source target share := by
  rintro ⟨own, ⟨ownPipeline, ownHere, rfl⟩, named, idle, conveysToo⟩
  have enrolledAdded := enrolled_addModifier closed intact absent resolved within enrolled
  obtain ⟨pipeline, here, rfl⟩ :=
    (bypasses_addModifier closed intact absent resolved within).keeps stat keeps
  obtain ⟨present, member, names⟩ := mem_targetsOf_iff.mp ((enrolled.engaged_iff _).mp engaged)
  refine unrivalled ownPipeline ((Table.mem_values_iff _ _).mpr ⟨_, ownHere⟩) named pipeline
    ((Table.mem_values_iff _ _).mpr ⟨_, here⟩) ⟨present, ?_, ?_, ?_⟩ ⟨?_, ?_, ?_⟩
  · rw [enrolledAdded.modifiers]
    exact List.mem_append_left _ member
  · exact enrolled.ne_of_absent intact.formed absent present member
  · simpa [Modifier.names] using names
  · exact fun same => idle (same ▸ engaged)
  · rw [conveysToo]
    rfl
  · rw [conveysToo, conveys]

/-- Seen without what is newly conveyed, links are what they were. -/
theorem without_undone
    [∀ source target, DecidablePred (NewlyConveyed modifier graph source target)] :
    ((graph.addModifier modifier).2.removeModifier modifier.id).2.links.without
      (NewlyConveyed modifier graph) = graph.links.without (NewlyConveyed modifier graph) := by
  have intactAdded := intact_addModifier closed intact within
  have enrolledAdded := enrolled_addModifier closed intact absent resolved within enrolled
  have known := known_addModifier closed intact absent resolved within
  have regains := regains_undone closed intact absent resolved within enrolled
  have added : (graph.addModifier modifier).2.links.without (NewlyConveyed modifier graph) =
      graph.links.without (NewlyConveyed modifier graph) :=
    without_addModifier closed intact absent resolved within enrolled.counted
      fun kept keeps named idle share source target conveys => ⟨kept, keeps, named, idle, conveys⟩
  refine (without_removeModifier intactAdded known enrolledAdded ?_).trans added
  intro kept keeps named idle share source target conveys
  exact ⟨kept, keeps, named, fun engaged => idle ((regains.engaged_iff kept.id).mpr engaged), conveys⟩

/-- Unless a rival is in use, links are what they were. -/
theorem links_undone (accounted : graph.Accounted)
    (unrivalled : (graph.addModifier modifier).2.Unrivalled modifier) :
    ((graph.addModifier modifier).2.removeModifier modifier.id).2.links = graph.links := by
  classical
  have regains := regains_undone closed intact absent resolved within enrolled
  have bypasses := bypasses_undone closed intact absent resolved within
  have accountedUndone := accounted_removeModifier (intact_addModifier closed intact within)
    (enrolled_addModifier closed intact absent resolved within enrolled).counted
      (accounted_addModifier closed intact within enrolled.counted accounted) modifier.id
  refine accountedUndone.backs.proper.eq_of_without accounted.backs.proper ?_ ?_
    (without_undone closed intact absent resolved within enrolled)
  · intro share source target newly
    refine accountedUndone.backs.unconveyed fun stat keeps engaged conveys => ?_
    rw [regains.engaged_iff] at engaged
    exact unrivalled.not_newlyConveyed closed intact absent resolved within enrolled
      (bypasses.keeps_before intact.formed keeps engaged) engaged conveys newly
  · intro share source target newly
    refine accounted.backs.unconveyed fun stat keeps engaged conveys => ?_
    exact unrivalled.not_newlyConveyed closed intact absent resolved within enrolled keeps engaged
      conveys newly

/-- Modifiers, rosters, links and paths are what they were. -/
theorem tallies_undone (links : ((graph.addModifier modifier).2.removeModifier modifier.id).2.links =
    graph.links) : graph.Tallies ((graph.addModifier modifier).2.removeModifier modifier.id).2 := by
  have regains := regains_undone closed intact absent resolved within enrolled
  have outside := intact.formed.not_mem_members absent
  refine ⟨regains.modifiers, regains.members, ?_, links⟩
  exact (bypasses_undone closed intact absent resolved within).paths outside
    (fun own form path => regains.members own form path ▸ outside own form path) links

end RoundTrip

/-! ### The steps of an addition -/

/-- Enter a modifier into the rosters of some stats, one after the other. Each time the node of the
form is asked for, which may be refused. -/
def joinEach? (modifier : Modifier) (graph : Graph) : List Stat → Except Fault Bool × Graph
  | [] => (.ok true, graph)
  | stat :: rest =>
      match graph.obtain? stat modifier.form.stage modifier.path with
      | (.error fault, ready) => (.error fault, ready)
      | (.ok _, _) => joinEach? modifier (joinRoster modifier graph stat) rest

/-- No step is refused if all stats are bound to concrete entities. -/
theorem joinEach?_resolved {stats : List Stat} (resolved : ∀ stat ∈ stats, stat.isResolved = true) :
    joinEach? modifier graph stats = (.ok true, stats.foldl (joinRoster modifier) graph) := by
  induction stats generalizing graph with
  | nil => rfl
  | cons head rest inductionHypothesis =>
      obtain ⟨bound, later⟩ := List.forall_mem_cons.mp resolved
      rw [joinEach?, obtain?, if_pos bound]
      exact inductionHypothesis later

/-- A modifier is present, last of all, and last in each roster in which it serves. -/
structure Admits (modifier : Modifier) (graph other : Graph) : Prop where
  modifiers : other.modifiers.values = graph.modifiers.values ++ [modifier]
  members : ∀ stat form path, other.members stat form path =
    if modifier.Serves stat form path then graph.members stat form path ++ [modifier.id]
    else graph.members stat form path

theorem Enrolled.admits {roll : List Modifier} (enrolled : graph.Enrolled roll)
    (more : other.Enrolled (roll ++ [modifier])) : Admits modifier graph other where
  modifiers := by rw [more.modifiers, enrolled.modifiers]
  members := by
    intro stat form path
    rw [more.members, enrolled.members, List.filter_append, List.map_append]
    split
    · next serves => simp [serves]
    · next serves => simp [serves]

end Graph

open CharacterSheet.Graph

/-- A copy of a modifier with another source. -/
def Modifier.rerouted (modifier : Modifier) (source : Source) : Modifier := { modifier with source }

/-- After any run a modifier can be added wholly or not at all. If a copy is present, or if a stat is
bound to no concrete entity, nothing changes. Otherwise no step of the addition is refused, the
modifier comes last wherever it serves, and the removal of any copy restores all modifiers, rosters
and numbers of memberships. Unless another modifier contributes to a rival of one of its stats, the
removal restores the links and the paths, too, and all reads have the same replies as before if every
identity stands for one stat without behaviors, no fault is swallowed and paths for what comes from a
single stat have the global source. -/
theorem addition_undone (settings : Settings) (retention : Retention) (operations : List Operation)
    (modifier : Modifier) :
    let graph := (Sheet.run { settings, retention } operations).graph
    let added := (graph.addModifier modifier).2
    ((graph.modifiers.get? modifier.id).isSome →
        graph.addModifier modifier = (.ok false, graph)) ∧
      (graph.modifiers.get? modifier.id = none →
        ∀ stat, modifier.unresolved? = some stat →
          graph.addModifier modifier = (.error (.unresolvedReference stat.id), graph)) ∧
      (graph.modifiers.get? modifier.id = none → modifier.unresolved? = none →
        graph.addModifier modifier = joinEach? modifier (graph.welcomed modifier) modifier.stats ∧
          (graph.addModifier modifier).1 = .ok true ∧ Admits modifier graph added ∧
          ∀ source, let undone := added.removeModifier (modifier.rerouted source).id
            undone.1 = true ∧ graph.Regains undone.2 ∧
              (added.Unrivalled modifier → undone.2.links = graph.links ∧
                undone.2.paths = graph.paths ∧
                ∀ catalogue, (∀ operation ∈ operations, operation.Within (.catalogued catalogue)) →
                  modifier.Within (.catalogued catalogue) → ∀ stat stage path,
                    stat.HeadWithin (.catalogued catalogue) → path.Within (.catalogued catalogue) →
                      (undone.2.perform (Plan.read stat stage path)).1 =
                        (graph.perform (Plan.read stat stage path)).1)) := by
  intro graph added
  have closed : Vocabulary.everything.Closed := Vocabulary.closed_everything
  have within : modifier.Within .everything := modifier.within_everything
  have intact : graph.Intact .everything := Sheet.intact_everything settings retention operations
  have enrolled : graph.Enrolled (operations.foldl Operation.roll []) :=
    Sheet.enrolled_everything settings retention operations
  have accounted : graph.Accounted := Sheet.accounted_everything settings retention operations
  refine ⟨addModifier_present, fun absent stat => addModifier_unresolved absent, fun absent bound => ?_⟩
  have resolved : ∀ stat ∈ modifier.stats, stat.isResolved = true := by
    intro stat member
    simpa using List.find?_eq_none.mp bound stat member
  have known := known_addModifier closed intact absent resolved within
  have intactAdded := intact_addModifier closed intact within
  obtain ⟨_, removes, _⟩ := exists_dismissed intactAdded known
  refine ⟨?_, ?_, ?_, fun source => ⟨removes, ?_, fun unrivalled => ?_⟩⟩
  · rw [addModifier_eq absent resolved, joinEach?_resolved resolved]
  · rw [addModifier_eq absent resolved]
  · exact enrolled.admits (enrolled_addModifier closed intact absent resolved within enrolled)
  · exact regains_undone closed intact absent resolved within enrolled
  · have links := links_undone closed intact absent resolved within enrolled accounted unrivalled
    have tallies := tallies_undone closed intact absent resolved within enrolled links
    refine ⟨links, funext tallies.paths, ?_⟩
    intro catalogue listed own stat stage path head route
    have plain : graph.Intact (.catalogued catalogue) :=
      (Sheet.reachable_run (.new settings retention) listed).intact Vocabulary.closed_catalogued
    exact tallies.perform_read plain (intact_undone Vocabulary.closed_catalogued plain own) stage
      head route

/-! ### Iron and steel -/

/-- What an enemy would turn of the iron of the character into steel. -/
def enemySmelting : Stat := (Stat.conversion (.named "Iron") (.named "Steel")).withEntity .enemy

/-- The stats of a foundry, in which iron becomes steel in three ways. -/
def foundry (id : StatId) : Stat :=
  if id = enemySmelting.id then enemySmelting
  else if id = (Stat.conversion (.named "Iron") (.named "Steel")).id then
    .conversion (.named "Iron") (.named "Steel")
  else if id = (Stat.gain (.named "Iron") (.named "Steel")).id then
    .gain (.named "Iron") (.named "Steel")
  else .plain id

theorem iron_in_foundry : (Stat.named "Iron").Within (.catalogued foundry) :=
  ⟨rfl, trivial, trivial, trivial, trivial⟩

theorem steel_in_foundry : (Stat.named "Steel").Within (.catalogued foundry) :=
  ⟨rfl, trivial, trivial, trivial, trivial⟩

theorem baseAdd_in_foundry {stat : Stat} (within : stat.Within (.catalogued foundry))
    (id : ModifierId) (amount : Number) :
    (Modifier.baseAdd id stat amount).Within (.catalogued foundry) where
  stats := fun _ member => List.mem_singleton.mp member ▸ within.headWithin
  value := ⟨Formula.propagates_of_heeds _ rfl, trivial⟩
  condition := fun _ none => absurd none (Option.not_mem_none _)

/-- There is some iron, and half of it counts as the steel of an enemy. -/
def forging : List Operation :=
  [.add (.baseAdd ⟨1⟩ (.named "Iron") 10), .add (.baseAdd ⟨2⟩ enemySmelting 50)]

theorem forging_in_foundry : ∀ operation ∈ forging, operation.Within (.catalogued foundry) := by
  have smelting : enemySmelting.Within (.catalogued foundry) :=
    ⟨rfl, ⟨iron_in_foundry, steel_in_foundry⟩, trivial, trivial, trivial⟩
  simp only [forging, List.forall_mem_cons]
  exact ⟨baseAdd_in_foundry iron_in_foundry _ _, baseAdd_in_foundry smelting _ _,
    fun _ none => absurd none List.not_mem_nil⟩

/-- A gain is no rival of a conversion between the same stats. -/
theorem forging_undone :
    let graph := (Sheet.run {} forging).graph
    let modifier := Modifier.gain ⟨3⟩ (.named "Iron") (.named "Steel") 20
    let undone := (graph.addModifier modifier).2.removeModifier (modifier.rerouted (.item "Hammer")).id
    graph.addModifier (.baseAdd ⟨1⟩ (.named "Steel") 1) = (.ok false, graph) ∧
      graph.addModifier (.baseAdd ⟨4⟩ ((Stat.named "Iron").withEntity .any) 1) =
        (.error (.unresolvedReference ⟨"Iron", .any⟩), graph) ∧
      (graph.addModifier modifier).1 = .ok true ∧ undone.1 = true ∧ undone.2.links = graph.links ∧
      (undone.2.perform (Plan.total (.named "Steel"))).1 =
        (graph.perform (Plan.total (.named "Steel"))).1 := by
  have gained : (Stat.gain (.named "Iron") (.named "Steel")).Within (.catalogued foundry) :=
    ⟨rfl, ⟨iron_in_foundry, steel_in_foundry⟩, trivial, trivial, trivial⟩
  have same := (addition_undone {} {} forging (.baseAdd ⟨1⟩ (.named "Steel") 1)).1 (by decide +kernel)
  have refused := (addition_undone {} {} forging (.baseAdd ⟨4⟩ ((Stat.named "Iron").withEntity .any)
    1)).2.1 (by decide +kernel) _ rfl
  obtain ⟨_, added, _, removal⟩ := (addition_undone {} {} forging
    (.gain ⟨3⟩ (.named "Iron") (.named "Steel") 20)).2.2 (by decide +kernel) rfl
  obtain ⟨removed, _, restored⟩ := removal (.item "Hammer")
  obtain ⟨links, _, reads⟩ := restored (by decide +kernel)
  have replies := reads foundry forging_in_foundry (baseAdd_in_foundry gained _ _) (.named "Steel") .total
    .main steel_in_foundry.headWithin .main
  exact ⟨same, refused, added, removed, links, replies⟩

/-- The conversion of the character takes the place of that of the enemy, and leaves nothing there. -/
theorem rival_conversion_not_undone :
    ¬ ∀ catalogue settings retention operations (modifier : Modifier),
      (∀ operation ∈ operations, operation.Within (.catalogued catalogue)) →
        modifier.Within (.catalogued catalogue) →
          let graph := (Sheet.run { settings, retention } operations).graph
          let added := graph.addModifier modifier
          added.1 = .ok true → ∀ stat stage path, stat.HeadWithin (.catalogued catalogue) →
            path.Within (.catalogued catalogue) →
              ((added.2.removeModifier modifier.id).2.perform (Plan.read stat stage path)).1 =
                (graph.perform (Plan.read stat stage path)).1 := by
  intro undone
  have converted : (Stat.conversion (.named "Iron") (.named "Steel")).Within (.catalogued foundry) :=
    ⟨rfl, ⟨iron_in_foundry, steel_in_foundry⟩, trivial, trivial, trivial⟩
  have same := undone foundry {} {} forging (.conversion ⟨3⟩ (.named "Iron") (.named "Steel") 20)
    forging_in_foundry (baseAdd_in_foundry converted _ _) (by decide +kernel) (.named "Steel") .total
    .main steel_in_foundry.headWithin .main
  exact absurd same (by decide +kernel)

end CharacterSheet
