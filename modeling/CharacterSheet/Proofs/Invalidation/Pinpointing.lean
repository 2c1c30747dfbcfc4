import CharacterSheet.Proofs.Invalidation.Bonds
import CharacterSheet.Proofs.Invalidation.Spreading
import CharacterSheet.Proofs.Membership.Undoing

/-!
Contract: adding or removing a modifier invalidates exactly what depends on what it changes.

Owns:
- where the invalidation starts when a modifier joins or leaves the rosters of its stats: the stages
  that collect these rosters, the sums over paths that come or go, and the stages that a link bears
  on which comes or goes;
- that one turn, and with it all turns of a call, invalidate what depends on these origins;
- the same of both calls after any run, if identities say what stats convey and no two the same.
-/

namespace CharacterSheet
namespace Graph

/-- Some modifier contributes to a stat on a path. -/
def Occupied (graph : Graph) (stat : StatId) (path : PathId) : Prop :=
  ∃ form, graph.members stat form path ≠ []

/-- Where the invalidation starts because a modifier joins or leaves a roster of one of its stats,
as far as the nodes are there `now`, when it does so. The call leads from `before` to `after`. -/
inductive Starts (modifier : Modifier) (stat : Stat) (before after now : Graph) : NodeId → Prop
  /-- The stage that collects the roster. -/
  | collected {node} : now.node? stat.id modifier.form.stage modifier.path.id = some node →
      Starts modifier stat before after now node
  /-- The sum over the paths, if the path of the modifier comes or goes. -/
  | summed {node} : modifier.path.isMain = false →
      ¬ (before.Occupied stat.id modifier.path.id ↔ after.Occupied stat.id modifier.path.id) →
      now.node? stat.id .uncappedSubtotal .main = some node →
      Starts modifier stat before after now node
  /-- What the source keeps, if the stat conveys and its first modifier comes or its last one goes. -/
  | retained {node share source target} : stat.route? = some (share, source, target) →
      ¬ (before.Engaged stat.id ↔ after.Engaged stat.id) →
      now.node? source .pathTotal .main = some node →
      Starts modifier stat before after now node
  /-- The sum over the paths of the target, and of every stat that is still linked to the source. -/
  | fed {node share source target linked} : stat.route? = some (share, source, target) →
      ¬ (before.Engaged stat.id ↔ after.Engaged stat.id) →
      linked ∈ now.links.targets source ∨ linked = target →
      now.node? linked .uncappedSubtotal .main = some node →
      Starts modifier stat before after now node
  /-- What such a stat has from the source. -/
  | conveyed {node share source target linked} : stat.route? = some (share, source, target) →
      ¬ (before.Engaged stat.id ↔ after.Engaged stat.id) →
      linked ∈ now.links.targets source ∨ linked = target →
      now.node? linked .base (.convertedFrom source) = some node →
      Starts modifier stat before after now node

/-- Where the invalidation starts in a call that takes the stats of a modifier one after the other;
`midway` is the graph when it has come to the end of some of them. A stat that is named again
changes nothing more. -/
def Origin (before after : Graph) (midway : List Stat → Graph) (modifier : Modifier) (node : NodeId) :
    Prop :=
  ∃ earlier stat later, modifier.stats = earlier ++ stat :: later ∧ stat.id ∉ earlier.map (·.id) ∧
    Starts modifier stat before after (midway (earlier ++ [stat])) node

/-- The graph while a modifier is added, when it has joined the rosters of some of its stats. -/
def whileAdding (graph : Graph) (modifier : Modifier) (stats : List Stat) : Graph :=
  stats.foldl (joinRoster modifier) (graph.welcomed modifier)

/-- The graph while a modifier is removed, when it has left the rosters of some of its stats. -/
def whileRemoving (graph : Graph) (modifier : Modifier) (stats : List Stat) : Graph :=
  stats.foldl (leaveRoster modifier) (graph.record (.removing modifier.id modifier.description))

variable {vocabulary : Vocabulary} {graph before after now other : Graph} {modifier : Modifier}
  {stat : Stat} {node : NodeId}

/-! ### One turn -/

theorem starts_iff : Starts modifier stat before after now node ↔
    now.node? stat.id modifier.form.stage modifier.path.id = some node ∨
      (modifier.path.isMain = false ∧
        ¬ (before.Occupied stat.id modifier.path.id ↔ after.Occupied stat.id modifier.path.id) ∧
          now.node? stat.id .uncappedSubtotal .main = some node) ∨
        ¬ (before.Engaged stat.id ↔ after.Engaged stat.id) ∧ ∃ share source target,
          stat.route? = some (share, source, target) ∧ node ∈ now.linkTargets source target := by
  constructor
  · rintro (collects | ⟨aside, turns, sums⟩ | ⟨conveys, turns, retains⟩ |
      ⟨conveys, turns, linked, sums⟩ | ⟨conveys, turns, linked, converts⟩)
    · exact .inl collects
    · exact .inr (.inl ⟨aside, turns, sums⟩)
    · exact .inr (.inr ⟨turns, _, _, _, conveys, (mem_linkTargets_iff _ _ _ _).mpr (.inl retains)⟩)
    · exact .inr (.inr ⟨turns, _, _, _, conveys,
        (mem_linkTargets_iff _ _ _ _).mpr (.inr ⟨_, linked, .inl sums⟩)⟩)
    · exact .inr (.inr ⟨turns, _, _, _, conveys,
        (mem_linkTargets_iff _ _ _ _).mpr (.inr ⟨_, linked, .inr converts⟩)⟩)
  · rintro (collects | ⟨aside, turns, sums⟩ | ⟨turns, share, source, target, conveys, bears⟩)
    · exact .collected collects
    · exact .summed aside turns sums
    · rcases (mem_linkTargets_iff _ _ _ _).mp bears with retains | ⟨linked, there, sums | converts⟩
      · exact .retained conveys turns retains
      · exact .fed conveys turns there sums
      · exact .conveyed conveys turns there converts

/-- What starts at a stat depends on the graphs before and after only through its members there. -/
theorem starts_congr {first last : Graph}
    (opens : ∀ form path, first.members stat.id form path = before.members stat.id form path)
    (closes : ∀ form path, last.members stat.id form path = after.members stat.id form path) :
    Starts modifier stat first last now node ↔ Starts modifier stat before after now node := by
  simp only [starts_iff, Occupied, Engaged, opens, closes]

/-- What one turn starts, in which a modifier may join or leave the roster of a stat. -/
def Turned (modifier : Modifier) (stat : Stat) (graph other : Graph) (node : NodeId) : Prop :=
  ¬ (modifier.id ∈ graph.members stat.id modifier.form modifier.path.id ↔
      modifier.id ∈ other.members stat.id modifier.form modifier.path.id) ∧
    Starts modifier stat graph other other node

theorem occupied_iff {pipeline : Pipeline} {own : StatId}
    (here : graph.pipelines.get? own = some pipeline) (path : PathId) :
    graph.Occupied own path ↔ pipeline.hasMembersOn path = true := by
  rw [hasMembersOn_iff_members]
  simp only [Occupied, members, here]

/-- A turn in which the modifier joins the roster starts at the paths and links that come. -/
theorem turned_iff_of_joined
    (outside : modifier.id ∉ graph.members stat.id modifier.form modifier.path.id)
    (enters : modifier.id ∈ other.members stat.id modifier.form modifier.path.id) :
    Turned modifier stat graph other node ↔
      other.node? stat.id modifier.form.stage modifier.path.id = some node ∨
        (modifier.path.isMain = false ∧ ¬ graph.Occupied stat.id modifier.path.id ∧
          other.node? stat.id .uncappedSubtotal .main = some node) ∨
          ¬ graph.Engaged stat.id ∧ ∃ share source target,
            stat.route? = some (share, source, target) ∧ node ∈ other.linkTargets source target := by
  have occupied : other.Occupied stat.id modifier.path.id := ⟨_, List.ne_nil_of_mem enters⟩
  have engaged : other.Engaged stat.id := ⟨_, _, List.ne_nil_of_mem enters⟩
  simp only [Turned, starts_iff, outside, enters, occupied, engaged, iff_true, not_false_eq_true,
    true_and]

/-- A turn in which the modifier leaves the roster starts at the paths and links that go. -/
theorem turned_iff_of_left
    (inside : modifier.id ∈ graph.members stat.id modifier.form modifier.path.id)
    (leaves : modifier.id ∉ other.members stat.id modifier.form modifier.path.id) :
    Turned modifier stat graph other node ↔
      other.node? stat.id modifier.form.stage modifier.path.id = some node ∨
        (modifier.path.isMain = false ∧ ¬ other.Occupied stat.id modifier.path.id ∧
          other.node? stat.id .uncappedSubtotal .main = some node) ∨
          ¬ other.Engaged stat.id ∧ ∃ share source target,
            stat.route? = some (share, source, target) ∧ node ∈ other.linkTargets source target := by
  have occupied : graph.Occupied stat.id modifier.path.id := ⟨_, List.ne_nil_of_mem inside⟩
  have engaged : graph.Engaged stat.id := ⟨_, _, List.ne_nil_of_mem inside⟩
  simp only [Turned, starts_iff, inside, leaves, occupied, engaged, true_iff, not_false_eq_true,
    true_and]

/-- Whoever joins the roster of a stat is there then. -/
theorem Joins.enters (joins : Joins modifier [stat] graph other) {own : StatId} (same : stat.id = own) :
    modifier.id ∈ other.members own modifier.form modifier.path.id := by
  have serves : modifier.ServesAmong [stat] own modifier.form modifier.path.id :=
    ⟨⟨stat, List.mem_singleton_self _, same⟩, rfl, rfl⟩
  rw [joins.members]
  by_cases before : modifier.id ∈ graph.members own modifier.form modifier.path.id
  · simp [before]
  · simp [serves, before]

section Turns

variable {routes : Routes}

/-- One turn of an addition invalidates what it starts. -/
theorem invalidates_joinRoster (joining : Joining (.routed routes) modifier graph stat)
    (counted : graph.Counted) (silent : stat.behaviors = []) :
    graph.Invalidates (joinRoster modifier graph stat)
      (Turned modifier stat graph (joinRoster modifier graph stat)) := by
  have sound := joining.sound
  have within := joining.within
  have route : modifier.path.Within (.routed routes) :=
    Modifier.Within.path Vocabulary.closed_routed modifier
  have readied : Turns (.routed routes) graph (graph.obtain stat modifier.form.stage modifier.path).2 :=
    turns_obtain sound joining.resolved within route
  have advances : Advances (.routed routes) graph
      (graph.obtain stat modifier.form.stage modifier.path).2 :=
    advances_obtain sound.formed sound.stacked joining.resolved within route
  have opens : graph.Undisturbed (graph.obtain stat modifier.form.stage modifier.path).2 :=
    .of_extends advances.grows.toExtends
  have obtains := invalidates_obtain sound.formed sound.stacked joining.resolved within silent
    modifier.form.stage route
  obtain ⟨ready, pipeline, rfl, here, ⟨same, inside⟩ | ⟨roster, change, added, joined⟩⟩ :=
    joinRoster_cases sound.formed sound.stacked joining.resolved within route
  · rw [same]
    refine obtains.congr fun node => iff_of_false id ?_
    rintro ⟨turns, _⟩
    rw [members_seat here] at inside
    exact turns (iff_of_true (opens.members _ _ _ ▸ inside) inside)
  · have known : (graph.obtain stat modifier.form.stage modifier.path).2.modifiers.get? modifier.id =
        some modifier := opens.modifiers ▸ joining.known
    have kept := readied.sound.formed.pipelines _ pipeline here
    have fits := (seat_wellFormed kept route).add known ⟨stat, joining.member, rfl⟩ added
    have receives : Invalidates _ ((graph.obtain stat modifier.form.stage modifier.path).2.receive
        modifier stat.id pipeline roster change) _ :=
      invalidates_changeRoster readied.sound.toResting fits.1 (pipeline.memberships + 1) change _
    have received := (turns_receive readied.sound known joining.member route here added).1.sound
    have links := invalidates_linkIf Vocabulary.closed_routed received.toResting
      (pipeline.memberships + 1 = 1) kept.within
    have conveys := readied.sound.formed.route?_pipeline here within
    have first : pipeline.memberships + 1 = 1 ↔ ¬ graph.Engaged stat.id := by
      rw [Nat.add_eq_right, (opens.counted counted).memberships_eq_zero_iff here]
      simp only [Engaged, opens.members]
    have occupied : pipeline.hasMembersOn modifier.path.id = true ↔
        graph.Occupied stat.id modifier.path.id := by
      rw [← occupied_iff here]
      simp only [Occupied, opens.members]
    have outside : modifier.id ∉ graph.members stat.id modifier.form modifier.path.id := by
      rw [← opens.members]
      exact (members_added here added).1
    have enters : modifier.id ∈ (joinRoster modifier graph stat).members stat.id modifier.form
        modifier.path.id :=
      (joins_joinRoster sound joining.resolved within route).enters rfl
    have nodes : (joinRoster modifier graph stat).node? =
        (graph.obtain stat modifier.form.stage modifier.path).2.node? := by
      rw [joined, node?_linkIf, receive, node?_changeRoster]
    rw [joined]
    refine ((obtains.trans receives).trans links).congr fun node => ?_
    rw [← joined, turned_iff_of_joined outside enters, mem_rosterStarts_iff, nodes, first, conveys,
      ← occupied, false_or, Bool.and_eq_true, Bool.not_eq_true', Bool.not_eq_true', Bool.not_eq_true,
      and_assoc, or_assoc]

/-- One turn of a removal invalidates what it starts. -/
theorem invalidates_leaveRoster (sound : graph.Sound (.routed routes)) (counted : graph.Counted)
    (bonded : graph.Bonded routes) (modifier : Modifier) (within : stat.HeadWithin (.routed routes)) :
    graph.Invalidates (leaveRoster modifier graph stat)
      (Turned modifier stat graph (leaveRoster modifier graph stat)) := by
  obtain ⟨leaving, leaves⟩ := leaves_leaveRoster sound modifier stat
  rcases graph.leaveRoster_cases modifier stat with ⟨same, absent⟩ |
    ⟨pipeline, slot, roster, change, here, filled, removed, left⟩
  · rw [same]
    refine (Invalidates.refl graph).congr fun node => iff_of_false id ?_
    rintro ⟨turns, _⟩
    exact turns Iff.rfl
  · have kept := sound.formed.pipelines _ pipeline here
    have fits := (kept.slots _ _ slot filled).remove removed
    have inside : modifier.id ∈ graph.members stat.id modifier.form modifier.path.id := by
      rw [members_of_filled here filled]
      exact fits.2.2.1
    have conveys := sound.formed.route?_pipeline here within
    have dismisses : graph.Invalidates
        (graph.dismiss modifier stat.id pipeline { slot with roster } change) _ :=
      invalidates_changeRoster sound.toResting fits.1 (pipeline.memberships - 1) change _
    have dismissed := (turns_takeOut sound here filled removed).sound
    have linked (conveying : pipeline.stat.route?.isSome) : ((graph.dismiss modifier stat.id pipeline
        { slot with roster } change).links.unregister? pipeline.stat).isSome := by
      rw [dismiss, links_changeRoster]
      exact bonded.isSome_unregister? ⟨_, _, List.ne_nil_of_mem inside⟩ (conveys.trans within.head)
        conveying
    have links := invalidates_unlinkIf dismissed.toResting (pipeline.memberships - 1 = 0)
      fun _ => linked
    have after : (leaveRoster modifier graph stat).pipelines.get? stat.id =
        some (pipeline.fill modifier.form modifier.path.id { slot with roster }
          (pipeline.memberships - 1)) := by
      rw [left, pipelines_unlinkIf, dismiss, pipelines_changeRoster, pipelines_enterRoster,
        if_pos rfl, here]
      rfl
    have last : pipeline.memberships - 1 = 0 ↔ ¬ (leaveRoster modifier graph stat).Engaged stat.id :=
      ((quits_leaveRoster sound.formed modifier stat).counted counted).memberships_eq_zero_iff after
    have nodes : (leaveRoster modifier graph stat).node? = graph.node? := leaving.thins.node?
    rw [left]
    refine (dismisses.trans links).congr fun node => ?_
    rw [← left, turned_iff_of_left inside leaves, mem_rosterStarts_iff, nodes, last, conveys,
      occupied_iff after, Bool.and_eq_true, Bool.not_eq_true', Bool.not_eq_true', Bool.not_eq_true,
      and_assoc, or_assoc]

/-! ### All turns of a call -/

/-- What the turns start in which a modifier may join or leave the rosters of some stats. -/
def TurnedAmong (step : Graph → Stat → Graph) (modifier : Modifier) (stats : List Stat) (graph : Graph)
    (node : NodeId) : Prop :=
  ∃ earlier stat later, stats = earlier ++ stat :: later ∧
    Turned modifier stat (earlier.foldl step graph) ((earlier ++ [stat]).foldl step graph) node

theorem turnedAmong_nil {step : Graph → Stat → Graph} : ¬ TurnedAmong step modifier [] graph node := by
  rintro ⟨earlier, stat, later, split, _⟩
  cases earlier <;> contradiction

theorem turnedAmong_cons {step : Graph → Stat → Graph} {rest : List Stat} :
    TurnedAmong step modifier (stat :: rest) graph node ↔
      Turned modifier stat graph (step graph stat) node ∨
        TurnedAmong step modifier rest (step graph stat) node := by
  constructor
  · rintro ⟨earlier, own, later, split, turned⟩
    cases earlier with
    | nil =>
        cases split
        exact .inl turned
    | cons first earlier =>
        cases split
        exact .inr ⟨earlier, own, later, rfl, turned⟩
  · rintro (turned | ⟨earlier, own, later, rfl, turned⟩)
    · exact ⟨[], stat, rest, rfl, turned⟩
    · exact ⟨stat :: earlier, own, later, rfl, turned⟩

theorem invalidates_joinRosters {stats : List Stat} (sound : graph.Sound (.routed routes))
    (known : graph.modifiers.get? modifier.id = some modifier)
    (named : ∀ stat ∈ stats, stat ∈ modifier.stats ∧ stat.isResolved = true) (counted : graph.Counted)
    (silent : ∀ stat ∈ modifier.stats, stat.behaviors = []) :
    graph.Invalidates (stats.foldl (joinRoster modifier) graph)
      (TurnedAmong (joinRoster modifier) modifier stats graph) := by
  revert counted
  refine joinRosters_induct Vocabulary.closed_routed stats graph sound known named ?_ ?_
  · exact fun graph _ _ => (Invalidates.refl graph).congr fun _ => iff_of_false id turnedAmong_nil
  · intro head rest graph joining later counted
    have joins := joins_joinRoster joining.sound joining.resolved joining.within
      (Modifier.Within.path Vocabulary.closed_routed modifier)
    have first := invalidates_joinRoster joining counted (silent head joining.member)
    exact (first.trans (later (joins.counted counted))).congr fun _ => turnedAmong_cons.symm

theorem invalidates_leaveRosters (apart : routes.Apart) (modifier : Modifier) {stats : List Stat}
    (sound : graph.Sound (.routed routes)) (counted : graph.Counted) (bonded : graph.Bonded routes)
    (within : ∀ stat ∈ stats, stat.HeadWithin (.routed routes)) :
    graph.Invalidates (stats.foldl (leaveRoster modifier) graph)
      (TurnedAmong (leaveRoster modifier) modifier stats graph) := by
  induction stats generalizing graph with
  | nil => exact (Invalidates.refl graph).congr fun _ => iff_of_false id turnedAmong_nil
  | cons head rest inductionHypothesis =>
      have first := invalidates_leaveRoster sound counted bonded modifier
        (within head List.mem_cons_self)
      have later := inductionHypothesis (leaves_leaveRoster sound modifier head).1.turns.sound
        ((quits_leaveRoster sound.formed modifier head).counted counted)
        (bonded_leaveRoster apart sound.formed counted bonded modifier head)
        fun stat member => within stat (List.mem_cons_of_mem head member)
      exact (first.trans later).congr fun _ => turnedAmong_cons.symm

end Turns

/-- The turns of a call start what its members before and after say, if each roster of the modifier
changes in the first turn of its stat, and once and for all. -/
theorem turnedAmong_iff_origin {step : Graph → Stat → Graph} {start : Graph}
    (changed : StatId → Form → PathId → List ModifierId)
    (midway : ∀ earlier later, modifier.stats = earlier ++ later → ∀ own form path,
      (earlier.foldl step start).members own form path =
        if modifier.ServesAmong earlier own form path then changed own form path
        else before.members own form path)
    (ends : ∀ own form path,
      after.members own form path = (modifier.stats.foldl step start).members own form path)
    (differs : ∀ stat ∈ modifier.stats,
      ¬ (modifier.id ∈ before.members stat.id modifier.form modifier.path.id ↔
        modifier.id ∈ changed stat.id modifier.form modifier.path.id)) :
    TurnedAmong step modifier modifier.stats start node ↔
      Origin before after (fun stats => stats.foldl step start) modifier node := by
  have serves {stats : List Stat} {own : StatId} {form : Form} {path : PathId} :
      modifier.ServesAmong stats own form path ↔
        own ∈ stats.map (·.id) ∧ modifier.form = form ∧ modifier.path.id = path := by
    rw [Modifier.ServesAmong, List.mem_map]
  refine exists_congr fun earlier => exists_congr fun stat => exists_congr fun later =>
    and_congr_right fun split => ?_
  have first := midway earlier (stat :: later) split
  have last := midway (earlier ++ [stat]) later (by rw [split, List.append_assoc]; rfl)
  have whole := midway modifier.stats [] (List.append_nil _).symm
  have member : stat ∈ modifier.stats := by rw [split]; simp
  have here : stat.id ∈ (earlier ++ [stat]).map (·.id) := by simp
  by_cases again : stat.id ∈ earlier.map (·.id)
  · -- the modifier has been there before
    refine iff_of_false ?_ fun origin => origin.1 again
    rintro ⟨turns, _⟩
    rw [first, last, if_pos (serves.mpr ⟨again, rfl, rfl⟩), if_pos (serves.mpr ⟨here, rfl, rfl⟩)] at turns
    exact turns Iff.rfl
  · have opens (form : Form) (path : PathId) :
        (earlier.foldl step start).members stat.id form path = before.members stat.id form path := by
      rw [first, if_neg fun serving => again (serves.mp serving).1]
    have closes (form : Form) (path : PathId) :
        ((earlier ++ [stat]).foldl step start).members stat.id form path =
          after.members stat.id form path := by
      rw [ends, whole, last]
      simp only [serves, here, List.mem_map_of_mem member, true_and]
    rw [Turned, starts_congr opens closes, opens, last, if_pos (serves.mpr ⟨here, rfl, rfl⟩)]
    simp only [differs stat member, again, not_false_eq_true, true_and]

/-! ### Additions -/

section Calls

variable {routes : Routes} (intact : graph.Intact (.routed routes)) (counted : graph.Counted)
include intact counted

/-- An addition invalidates its origins. -/
theorem invalidates_addModifier (absent : graph.modifiers.get? modifier.id = none)
    (resolved : ∀ stat ∈ modifier.stats, stat.isResolved = true)
    (within : modifier.Within (.routed routes))
    (silent : ∀ stat ∈ modifier.stats, stat.behaviors = []) :
    graph.Invalidates (graph.addModifier modifier).2
      (Origin graph (graph.addModifier modifier).2 (graph.whileAdding modifier) modifier) := by
  have sound : (graph.welcomed modifier).Sound (.routed routes) :=
    sound_welcomed intact absent within
  have known : (graph.welcomed modifier).modifiers.get? modifier.id = some modifier :=
    Table.get?_insert_self _ _ _
  have welcomes : graph.Invalidates (graph.welcomed modifier) fun _ => False :=
    (invalidates_introduce (intact.record (.adding modifier.id modifier.description)).formed
      modifier).of_same rfl rfl rfl
  have joins := invalidates_joinRosters sound known
    (fun stat member => ⟨member, resolved stat member⟩) counted silent
  rw [addModifier_eq absent resolved]
  refine (welcomes.trans joins).congr fun node => ?_
  rw [false_or]
  have outside := intact.formed.not_mem_members absent
  refine turnedAmong_iff_origin (fun own form path => graph.members own form path ++ [modifier.id])
    ?_ ?_ ?_
  · intro earlier later split own form path
    have named : ∀ stat ∈ earlier, stat ∈ modifier.stats ∧ stat.isResolved = true := by
      intro stat member
      have inside : stat ∈ modifier.stats := split ▸ List.mem_append_left later member
      exact ⟨inside, resolved stat inside⟩
    rw [(joins_foldl Vocabulary.closed_routed sound known named).members]
    exact if_congr (and_iff_left (outside own form path)) rfl rfl
  · exact fun _ _ _ => rfl
  · intro stat member
    simp [outside]

/-! ### Removals -/

/-- When a modifier has left all its rosters, the origins of its removal are invalidated. -/
theorem invalidates_dismissed (apart : routes.Apart) {roll : List Modifier}
    (enrolled : graph.Enrolled roll) (bonded : graph.Bonded routes)
    (known : graph.modifiers.get? modifier.id = some modifier)
    (same : ∀ own form path, after.members own form path = (graph.dismissed modifier).members own form path) :
    graph.Invalidates (graph.dismissed modifier)
      (Origin graph after (graph.whileRemoving modifier) modifier) := by
  have noted := intact.record (.removing modifier.id modifier.description)
  have starts : graph.Invalidates (graph.record (.removing modifier.id modifier.description))
      fun _ => False := (Invalidates.refl _).of_same rfl rfl rfl
  have leaves := invalidates_leaveRosters apart modifier noted.toSound counted bonded
    (intact.formed.present _ modifier known).2.1.stats
  refine (starts.trans leaves).congr fun node => ?_
  rw [false_or]
  refine turnedAmong_iff_origin
    (fun own form path => (graph.members own form path).filter (· ≠ modifier.id)) ?_ same ?_
  · exact fun earlier _ _ own form path => (quits_foldl modifier earlier noted.toSound).members own form path
  · intro stat member
    have inside : modifier.id ∈ graph.members stat.id modifier.form modifier.path.id :=
      (enrolled.mem_members_iff intact.formed _ _ _ _).mpr ⟨modifier, known, ⟨stat, member, rfl⟩, rfl, rfl⟩
    simp [inside]

end Calls

/-! ### What a call leaves -/

/-- A call that starts from some origins, and with which some nodes are `gone`, makes exactly what
depends on an origin stale and lets exactly that wait in addition, along the edges recorded before;
everything else is as it was. -/
structure Refreshes (before after : Graph) (origin gone : NodeId → Prop) : Prop where
  submitted : ∀ node, ¬ gone node → (node ∈ after.pending.nodes ↔
    node ∈ before.pending.nodes ∨ ∃ start, origin start ∧ before.Reaches start node)
  once : after.pending.nodes.Nodup
  stale : ∀ node start, ¬ gone node → origin start → before.Reaches start node → after.Stale node
  kept : ∀ node present, ¬ gone node → before.nodes.get? node = some present →
    (∀ start, origin start → ¬ before.Reaches start node) → after.nodes.get? node = some present
  /-- Also what becomes stale keeps all but its cached value. -/
  heard : ∀ node present, ¬ gone node → before.nodes.get? node = some present →
    ∃ cache, after.nodes.get? node = some { present with cache }
  edges : ∀ producer consumer, after.Feeds producer consumer ↔
    before.Feeds producer consumer ∧ ¬ gone producer ∧ ¬ gone consumer
  /-- What is new is calculated on its first read. -/
  fresh : ∀ node present, before.nodes.get? node = none → after.nodes.get? node = some present →
    present.cache = .stale ∧ present.subscribers = []
  removed : ∀ node, gone node → after.nodes.get? node = none ∧ node ∉ after.pending.nodes

theorem Invalidates.refreshes {origin : NodeId → Prop} (invalidates : graph.Invalidates other origin)
    (intact : graph.Intact vocabulary) : graph.Refreshes other origin fun _ => False where
  submitted := fun node _ => invalidates.pending node
  once := invalidates.once intact.watched.once
  stale := fun node start _ starts reaches =>
    invalidates.stale intact.wired.joined ⟨start, starts, reaches⟩
  kept := by
    intro node present _ found apart
    refine invalidates.kept node present found ?_
    rintro ⟨start, starts, reaches⟩
    exact apart start starts reaches
  heard := fun node present _ found => invalidates.stays found
  edges := by
    intro producer consumer
    simp [Feeds, invalidates.edges]
  fresh := invalidates.fresh
  removed := fun _ none => none.elim

/-- A node that was there and is removed does not wait. -/
theorem not_pending_removeNodes {present : Node} (found : graph.nodes.get? node = some present) :
    node ∉ (graph.removeNodes [node]).pending.nodes := by
  have there : ([node].filterMap graph.nodes.get?).isEmpty = false := by simp [found]
  rw [removeNodes_eq, there, unlistAll_eq]
  intro waiting
  have kept := (List.mem_filter.mp waiting).2
  simp [NodeSet.contains_ofList] at kept

/-- Nodes go without a trace if all that depends on them is stale already. -/
theorem Discards.get?_eq {gone : NodeId → Prop} (discards : graph.Discards other gone)
    (stale : ∀ node, ¬ gone node → graph.Below gone node → graph.Stale node) (stays : ¬ gone node) :
    other.nodes.get? node = graph.nodes.get? node := by
  by_cases below : graph.Below gone node
  · obtain ⟨⟨address, place, cache, subscribers⟩, found, rfl⟩ := stale node stays below
    rw [discards.dropped node stays below, found]
    rfl
  · exact discards.kept node below

/-- Nodes may go after a call, if all that depends on them is stale by then. -/
theorem Refreshes.discard {origin gone : NodeId → Prop}
    (refreshes : before.Refreshes graph origin fun _ => False) (discards : graph.Discards other gone)
    (stale : ∀ node, ¬ gone node → graph.Below gone node → graph.Stale node)
    (forgotten : ∀ node, gone node → node ∉ other.pending.nodes) :
    before.Refreshes other origin gone where
  submitted := by
    intro node stays
    rw [discards.pending node stays]
    exact refreshes.submitted node not_false
  once := discards.once refreshes.once
  stale := by
    intro node start stays starts reaches
    rw [Stale, discards.get?_eq stale stays]
    exact refreshes.stale node start not_false starts reaches
  kept := by
    intro node present stays found apart
    rw [discards.get?_eq stale stays]
    exact refreshes.kept node present not_false found apart
  heard := by
    intro node present stays found
    rw [discards.get?_eq stale stays]
    exact refreshes.heard node present not_false found
  edges := by
    intro producer consumer
    simp [discards.feeds, refreshes.edges]
  fresh := by
    intro node present absent found
    by_cases leaves : gone node
    · rw [discards.removed node leaves] at found
      contradiction
    · rw [discards.get?_eq stale leaves] at found
      exact refreshes.fresh node present absent found
  removed := fun node leaves => ⟨discards.removed node leaves, forgotten node leaves⟩

theorem Refreshes.retable {origin gone : NodeId → Prop} (refreshes : before.Refreshes graph origin gone)
    (modifiers : Table ModifierId Modifier) (contributions : Table ModifierId NodeId) :
    before.Refreshes (graph.retable modifiers contributions) origin gone :=
  ⟨refreshes.submitted, refreshes.once, refreshes.stale, refreshes.kept, refreshes.heard,
    refreshes.edges, refreshes.fresh, refreshes.removed⟩

theorem node?_whileRemoving (sound : graph.Sound vocabulary) (modifier : Modifier) (stats : List Stat) :
    (graph.whileRemoving modifier stats).node? = graph.node? := by
  have noted : (graph.record (.removing modifier.id modifier.description)).Sound vocabulary :=
    (Turns.of_advance sound (.record sound.formed sound.stacked rfl) (.of_shape rfl rfl rfl)).sound
  exact (leaves_foldl modifier stats noted).1.thins.node?

/-- The stage that collects a roster of the modifier is an origin, whichever of its stats names it. -/
theorem origin_collected {midway : List Stat → Graph} (member : stat ∈ modifier.stats)
    (nodes : ∀ stats, (midway stats).node? = graph.node?)
    (found : graph.node? stat.id modifier.form.stage modifier.path.id = some node) :
    Origin before after midway modifier node := by
  obtain ⟨ids, others, split, fresh⟩ :=
    List.eq_append_cons_of_mem (List.mem_map_of_mem (f := Stat.id) member)
  obtain ⟨earlier, rest, named, rfl, tail⟩ := List.map_eq_append_iff.mp split
  obtain ⟨first, later, rfl, same, _⟩ := List.map_eq_cons_iff.mp tail
  refine ⟨earlier, first, later, named, same ▸ fresh, .collected ?_⟩
  rw [nodes, same, found]

section Removal

variable {routes : Routes} {roll : List Modifier} (apart : routes.Apart)
  (intact : graph.Intact (.routed routes)) (enrolled : graph.Enrolled roll)
  (bonded : graph.Bonded routes) (known : graph.modifiers.get? modifier.id = some modifier)

include apart intact enrolled bonded known

/-- A removal refreshes its origins, and the node of the modifier goes. -/
theorem refreshes_removeModifier :
    ∃ own, graph.contributions.get? modifier.id = some own ∧
      graph.Refreshes (graph.removeModifier modifier.id).2
        (Origin graph (graph.removeModifier modifier.id).2 (graph.whileRemoving modifier) modifier)
        (· = own) := by
  obtain ⟨own, found, removed⟩ := removeModifier_eq intact.toSound known
  obtain ⟨leaves, _⟩ := leaves_dismissed intact.toSound known
  have discards := discards_dismissed intact.toSound known intact.wired.joined own
  have members (stat : StatId) (form : Form) (path : PathId) :
      (graph.removeModifier modifier.id).2.members stat form path =
        (graph.dismissed modifier).members stat form path := by
    rw [removed]
    exact discards.undisturbed.members stat form path
  have dismisses := (invalidates_dismissed intact enrolled.counted apart enrolled bonded known
    members).refreshes intact
  have edges : (graph.dismissed modifier).edges = graph.edges := leaves.thins.edges
  have only : (fun node => node ∈ [own]) = (· = own) := by
    funext node
    simp
  rw [only] at discards
  refine ⟨own, found, ?_⟩
  rw [removed] at dismisses ⊢
  refine (dismisses.discard discards ?_ ?_).retable _ _
  · -- whatever read the contribution collects a roster of the modifier, and that is an origin
    rintro node stays ⟨start, rfl, reaches⟩
    rw [Reaches, show (graph.dismissed modifier).Feeds = graph.Feeds by
      unfold Feeds
      rw [edges]] at reaches
    rcases reaches.cases_head with rfl | ⟨consumer, feeds, later⟩
    · exact absurd rfl stays
    · obtain ⟨stat, member, _, collects⟩ := intact.wired.collector intact.formed known found feeds
      exact dismisses.stale node consumer not_false (origin_collected member
        (fun stats => node?_whileRemoving intact.toSound modifier stats) collects) later
  · rintro node rfl
    obtain ⟨present, there, _⟩ := Option.map_eq_some_iff.mp
      (addressed_dismissed intact.toSound known found)
    exact not_pending_removeNodes there

end Removal

end Graph

open CharacterSheet.Graph

/-- After any operations under which identities say what stats convey, and no two the same: to add a
modifier whose stats carry no behaviors, or to remove a modifier, makes exactly those nodes stale and
lets exactly those wait, once each, that depend on an origin of the call along the recorded edges.
Every other node is as it was, apart from that of a modifier that is removed. -/
theorem calls_invalidate_exactly (routes : Routes) (apart : routes.Apart) (settings : Settings)
    (retention : Retention) (operations : List Operation)
    (within : ∀ operation ∈ operations, operation.Within (.routed routes)) :
    let before := (Sheet.run { settings, retention } operations).graph
    (∀ modifier, modifier.Within (.routed routes) → (∀ stat ∈ modifier.stats, stat.behaviors = []) →
      (before.addModifier modifier).1 = .ok true →
        let after := (before.addModifier modifier).2
        before.Refreshes after (Origin before after (before.whileAdding modifier) modifier)
          fun _ => False) ∧
      ∀ modifier, before.modifiers.get? modifier.id = some modifier →
        let after := (before.removeModifier modifier.id).2
        (before.removeModifier modifier.id).1 = true ∧
          ∃ own, before.contributions.get? modifier.id = some own ∧
            before.Refreshes after (Origin before after (before.whileRemoving modifier) modifier)
              (· = own) := by
  intro before
  have closed : (Vocabulary.routed routes).Closed := Vocabulary.closed_routed
  have intact : before.Intact (.routed routes) :=
    (Sheet.reachable_run (.new settings retention) within).intact closed
  have enrolled : before.Enrolled (operations.foldl Operation.roll []) :=
    Sheet.enrolled_run closed .initial .initial within
  have bonded : before.Bonded routes := Sheet.bonded_run apart settings retention within
  refine ⟨fun modifier named silent added => ?_, fun modifier known => ?_⟩
  · rcases before.addModifier_cases modifier with ⟨_, same⟩ |
      ⟨absent, ⟨_, _, same⟩ | ⟨resolved, _⟩⟩
    · rw [same] at added
      cases added
    · rw [same] at added
      cases added
    · exact (invalidates_addModifier intact enrolled.counted absent resolved named silent).refreshes
        intact
  · exact ⟨(exists_dismissed intact known).choose_spec.1,
      refreshes_removeModifier apart intact enrolled bonded known⟩

/-- In a smithy that smelts, only the conversion of iron to steel conveys anything. -/
def smeltingRoutes : Routes := fun id => (smithy id).route?

theorem smeltingRoutes_apart : smeltingRoutes.Apart := by
  have only {id : StatId} {route : Share × StatId × StatId} (conveys : smeltingRoutes id = some route) :
      id = .conversion ⟨"Iron", .character⟩ ⟨"Steel", .character⟩ := by
    by_contra other
    rw [smeltingRoutes, smithy, if_neg other] at conveys
    contradiction
  intro first second route here there
  rw [only here, only there]

theorem named_routed {name : String}
    (other : (⟨name, .character⟩ : StatId) ≠ .conversion ⟨"Iron", .character⟩ ⟨"Steel", .character⟩) :
    (Stat.named name).Within (.routed smeltingRoutes) :=
  ⟨(congrArg Stat.route? (if_neg other)).symm, trivial, trivial, trivial, trivial⟩

theorem smelting_routed :
    (Stat.conversion (.named "Iron") (.named "Steel")).Within (.routed smeltingRoutes) :=
  ⟨(congrArg Stat.route? (if_pos rfl)).symm, ⟨named_routed (by decide), named_routed (by decide)⟩,
    trivial, trivial, trivial⟩

theorem baseAdd_routed {stat : Stat} (within : stat.Within (.routed smeltingRoutes)) (id : ModifierId)
    (amount : Number) : (Modifier.baseAdd id stat amount).Within (.routed smeltingRoutes) where
  stats := fun _ member => List.mem_singleton.mp member ▸ within.headWithin
  value := ⟨trivial, trivial⟩
  condition := fun _ none => absurd none (Option.not_mem_none _)

/-- There is some iron. -/
def hoard : Modifier := .baseAdd ⟨1⟩ (.named "Iron") 10

/-- Half of the iron becomes steel. -/
def smeltingHoard : Modifier := .conversion ⟨2⟩ (.named "Iron") (.named "Steel") 50

/-- There is a hoard, and how much iron, steel and gold there is has been read. -/
def stocktaking : List Operation :=
  [.add hoard, .value (.named "Iron") .total .main, .value (.named "Steel") .total .main,
    .value (.named "Gold") .total .main]

theorem stocktaking_routed :
    ∀ operation ∈ stocktaking, operation.Within (.routed smeltingRoutes) := by
  simp only [stocktaking, List.forall_mem_cons]
  exact ⟨baseAdd_routed (named_routed (by decide)) _ _,
    ⟨(named_routed (by decide)).headWithin, .main⟩, ⟨(named_routed (by decide)).headWithin, .main⟩,
    ⟨(named_routed (by decide)).headWithin, .main⟩, fun _ none => absurd none List.not_mem_nil⟩

theorem hoard_known : (Sheet.run {} stocktaking).graph.modifiers.get? hoard.id = some hoard := by
  have intact : (Sheet.run {} stocktaking).graph.Intact (.routed smeltingRoutes) :=
    (Sheet.reachable_run (.new {} {}) stocktaking_routed).intact Vocabulary.closed_routed
  have enrolled : (Sheet.run {} stocktaking).graph.Enrolled (stocktaking.foldl Operation.roll []) :=
    Sheet.enrolled_run Vocabulary.closed_routed .initial .initial stocktaking_routed
  have roll : stocktaking.foldl Operation.roll [] = [hoard] := rfl
  rw [← enrolled.find?_eq intact.formed, roll]
  simp

/-- Whether the total of a stat waits. -/
def Graph.totalWaits? (graph : Graph) (stat : Stat) : Option Bool :=
  (graph.node? stat.id .total .main).map fun node => decide (node ∈ graph.pending.nodes)

/-- Smelting refreshes the total of the steel and leaves that of the gold alone. The loss of the hoard
refreshes what depends on the iron. -/
theorem stocktaking_refreshes :
    let stocked := (Sheet.run {} stocktaking).graph
    let smelted := (stocked.addModifier smeltingHoard).2
    let robbed := (stocked.removeModifier hoard.id).2
    (stocked.addModifier smeltingHoard).1 = .ok true ∧
      stocked.Refreshes smelted
        (Origin stocked smelted (stocked.whileAdding smeltingHoard) smeltingHoard) (fun _ => False) ∧
      smelted.totalWaits? (.named "Steel") = some true ∧
      smelted.totalWaits? (.named "Gold") = some false ∧
      (stocked.removeModifier hoard.id).1 = true ∧
      (∃ own, stocked.contributions.get? hoard.id = some own ∧
        stocked.Refreshes robbed (Origin stocked robbed (stocked.whileRemoving hoard) hoard)
          (· = own)) ∧
      robbed.totalWaits? (.named "Iron") = some true := by
  have routed : smeltingHoard.Within (.routed smeltingRoutes) := baseAdd_routed smelting_routed _ _
  have silent : ∀ stat ∈ smeltingHoard.stats, stat.behaviors = [] := by decide
  have added : ((Sheet.run {} stocktaking).graph.addModifier smeltingHoard).1 = .ok true := by
    decide +kernel
  have addition := (calls_invalidate_exactly smeltingRoutes smeltingRoutes_apart {} {} stocktaking
    stocktaking_routed).1 smeltingHoard routed silent added
  have removal := (calls_invalidate_exactly smeltingRoutes smeltingRoutes_apart {} {} stocktaking
    stocktaking_routed).2 hoard hoard_known
  exact ⟨added, addition, by decide +kernel, by decide +kernel, removal.1, removal.2,
    by decide +kernel⟩

end CharacterSheet
