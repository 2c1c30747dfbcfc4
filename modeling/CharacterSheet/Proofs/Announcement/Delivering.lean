import CharacterSheet.Proofs.Announcement.Reporting
import CharacterSheet.Proofs.Announcement.Settling
import CharacterSheet.Proofs.Sweep.Transparency

/-!
Contract: a batch tells of every change, once.

Owns:
- changes that keep all followers of all nodes;
- what is delivered when a batch is closed: each subscriber of a node that waits is told of it once,
  all other nodes bear what they bore, and what is told is what can be read afterwards;
- what is carried through a batch that is open: nodes bear what they bore or wait;
- batches, from the first operation until no batch is open any more;
- if a watched node answers otherwise after a batch than before it, its subscribers are told once.

Any two faults count as the same answer: a node may come to fail for another reason without waiting
to be announced.
-/

namespace CharacterSheet

theorem Vocabulary.bare_catalogued {catalogue : StatId → Stat} :
    (Vocabulary.catalogued catalogue).Bare := fun _ => id

namespace Graph

variable {catalogue : StatId → Stat} {vocabulary : Vocabulary} {graph middle other : Graph}

/-! ### Followers -/

/-- Nodes with subscribers stay, up to their values, and no node gets new subscribers. -/
structure KeepsFollowers (graph other : Graph) : Prop where
  kept : ∀ node present, graph.nodes.get? node = some present → present.subscribers ≠ [] →
    ∃ cache, other.nodes.get? node = some { present with cache }
  before : ∀ node, other.Followed node → graph.Followed node

theorem Extends.keepsFollowers (larger : graph.Extends other) : graph.KeepsFollowers other where
  kept := fun node present found _ => larger.nodes node present found
  before := fun _ => larger.followed

theorem followed_of_reader {node : NodeId} {id : SubscriptionId} (member : id ∈ graph.readers node) :
    graph.Followed node := by
  rw [readers] at member
  cases found : graph.nodes.get? node with
  | none => simp [found] at member
  | some present =>
      refine ⟨present, found, fun silent => ?_⟩
      simp [found, silent] at member

/-- Nobody hears of a node without subscribers. -/
theorem unheard_of_unfollowed {node : NodeId} (silent : ¬ graph.Followed node) :
    graph.readers node = [] ∧ graph.reports node = [] := by
  rw [readers, reports]
  cases found : graph.nodes.get? node with
  | none => exact ⟨rfl, rfl⟩
  | some present =>
      have none : present.subscribers = [] := by
        by_contra heard
        exact silent ⟨present, found, heard⟩
      simp [none]

namespace KeepsFollowers

theorem readers (keeps : graph.KeepsFollowers other) (node : NodeId) :
    other.readers node = graph.readers node := by
  by_cases followed : graph.Followed node
  · obtain ⟨present, found, heard⟩ := followed
    obtain ⟨cache, there⟩ := keeps.kept node present found heard
    rw [Graph.readers, Graph.readers, found, there]
    rfl
  · rw [(unheard_of_unfollowed followed).1,
      (unheard_of_unfollowed fun there => followed (keeps.before node there)).1]

/-- Within a catalogue the same is to be told of a node, as long as modifiers neither come nor go. -/
theorem reports (keeps : graph.KeepsFollowers other) (tallies : graph.Tallies other)
    (intact : graph.Intact (.catalogued catalogue)) (otherIntact : other.Intact (.catalogued catalogue))
    (node : NodeId) : other.reports node = graph.reports node := by
  by_cases followed : graph.Followed node
  · obtain ⟨present, found, heard⟩ := followed
    obtain ⟨cache, there⟩ := keeps.kept node present found heard
    rw [Graph.reports, Graph.reports, found, there]
    refine List.map_congr_left fun subscriber member => congrArg _ ?_
    refine List.map_congr_left fun reading inside => ?_
    have within := (intact.watched.enlisted node present found subscriber member).2 reading inside
    exact tallies.perform_read intact otherIntact reading.stage within.stat within.path
  · rw [(unheard_of_unfollowed followed).2,
      (unheard_of_unfollowed fun there => followed (keeps.before node there)).2]

end KeepsFollowers

/-- A sweep keeps whatever has subscribers. -/
theorem keepsFollowers_sweep (bare : vocabulary.Bare) (intact : graph.Intact vocabulary)
    (rules : Retention) : graph.KeepsFollowers (graph.sweep rules).2 where
  kept := by
    intro node present found heard
    have swept : graph.Retains (graph.swept rules) node :=
      retains_swept_of_unforced rules intact
        (fun stat _ => unforced_of_bare bare (intact_relaxed rules intact).formed stat)
        (Rooted.needed (.inl ⟨present, found, heard⟩))
    have retains : graph.Retains (graph.sweep rules).2 node :=
      sweep_induction (motive := fun other => graph.Retains other node) (.of_same rfl rfl node) swept
        fun middle entry before => before.trans (.record middle entry node)
    exact ⟨present.cache, retains.same.trans found⟩
  before := fun _ => followed_sweep rules intact

/-! ### Deliveries -/

/-- What is delivered from the moment when a batch closes. -/
structure Delivers (graph other : Graph) : Prop where
  readers : ∀ node, other.readers node = graph.readers node
  told : ∀ node ∈ graph.pending.nodes, ∀ id ∈ graph.readers node,
    other.heard id = graph.heard id + 1
  once : ∀ id, other.heard id ≤ graph.heard id + 1
  bears : ∀ node outcome, other.Followed node → node ∉ graph.pending.nodes →
    graph.Bears node outcome → other.Bears node outcome
  news : ∃ nodes : List NodeId, other.news = graph.news ++ nodes.flatMap other.reports

/-- Nothing is delivered if nothing waits. -/
theorem Calm.delivers (calm : graph.Calm) : graph.Delivers graph where
  readers := fun _ => rfl
  told := fun node waits => by
    rw [calm.1] at waits
    exact absurd waits List.not_mem_nil
  once := fun _ => Nat.le_add_right _ 1
  bears := fun _ _ _ _ => id
  news := ⟨[], (List.append_nil _).symm⟩

section Closing

variable (intact : graph.Intact (.catalogued catalogue))
include intact

/-- An announcement delivers whatever waits. -/
theorem delivers_flush (announceRosters : Bool) : graph.Delivers (graph.flush announceRosters) := by
  have keeps := (extends_flush intact announceRosters).keepsFollowers
  refine ⟨keeps.readers, ?_, fun id => (heard_flush intact announceRosters id).1, ?_, ?_⟩
  · intro node waits id member
    have unsettled : ¬ graph.Settled := fun settled => by
      rw [settled.2] at waits
      exact absurd waits List.not_mem_nil
    have announced := (mem_announced_iff intact announceRosters).mpr
      ⟨followed_of_reader member, waits⟩
    have one := List.count_eq_one_of_mem (nodup_told intact announceRosters)
      (List.mem_flatMap.mpr ⟨node, announced, member⟩)
    rw [(tells_flush intact announceRosters unsettled).heard id, one, begun, heard_record]
    rfl
  · intro node outcome followed _ bears
    refine (bears_flush Vocabulary.faithful_catalogued Vocabulary.bare_catalogued.hushed intact
      announceRosters ((keeps.before node followed).staged intact) bears).resolve_right fun waits => ?_
    rw [(calm_flush Vocabulary.bare_catalogued intact announceRosters).1] at waits
    exact List.not_mem_nil waits
  · have same := keeps.reports (.of_extends (extends_flush intact announceRosters)) intact
      (intact_flush intact announceRosters)
    refine ⟨(graph.announced announceRosters).1, ?_⟩
    rw [news_of_flush intact announceRosters, List.flatMap_congr fun node _ => same node]

/-- A sweep leaves deliveries as they are. -/
theorem Delivers.sweep (delivers : middle.Delivers graph) (calm : graph.Calm) (rules : Retention) :
    middle.Delivers (graph.sweep rules).2 := by
  have keeps := keepsFollowers_sweep Vocabulary.bare_catalogued intact rules
  have silent := (lifts_sweep rules graph).announcements
  have heard := heard_of_announcements silent
  refine ⟨fun node => (keeps.readers node).trans (delivers.readers node), ?_, ?_, ?_, ?_⟩
  · intro node waits id member
    rw [heard]
    exact delivers.told node waits id member
  · intro id
    rw [heard]
    exact delivers.once id
  · intro node outcome followed spared bears
    have before := keeps.before node followed
    refine ((mindsAt_sweep rules intact (before.staged intact) (Rooted.needed (.inl before))).bears
      outcome (delivers.bears node outcome before spared bears)).resolve_right fun waits => ?_
    rw [(calm.sweep Vocabulary.bare_catalogued intact rules).1] at waits
    exact List.not_mem_nil waits
  · obtain ⟨nodes, news⟩ := delivers.news
    have same := keeps.reports (undisturbed_sweep rules intact).toTallies intact
      (intact_sweep rules intact)
    refine ⟨nodes, ?_⟩
    rw [news_of_announcements silent, news, List.flatMap_congr fun node _ => same node]

/-- The end of a batch delivers whatever waits. -/
theorem delivers_concluded (settings : Settings) (rules : Retention) :
    graph.Delivers (graph.concluded settings rules) := by
  have announced := delivers_flush intact settings.announceRosters
  rw [concluded_eq Vocabulary.bare_catalogued intact]
  split
  · exact announced.sweep (intact_flush intact _)
      (calm_flush Vocabulary.bare_catalogued intact _) rules
  · exact announced

end Closing

/-! ### Open batches -/

/-- What is carried through an open batch: nodes bear what they bore or wait, and nobody is told. -/
structure Carries (graph other : Graph) : Prop where
  minds : graph.Minds other
  announcements : other.announcements = graph.announcements

theorem Carries.refl (graph : Graph) : graph.Carries graph := ⟨.refl graph, rfl⟩

theorem Carries.trans (first : graph.Carries middle) (second : middle.Carries other) :
    graph.Carries other :=
  ⟨first.minds.trans second.minds, second.announcements.trans first.announcements⟩

/-- A stir announces nothing, and changes nothing of what waits for rosters. -/
theorem silent_stir (intact : graph.Intact vocabulary) (stir : Stir vocabulary graph other) :
    other.announcements = graph.announcements ∧ other.pending.slots = graph.pending.slots := by
  cases stir with
  | explore explores =>
      have grows := (explores.advances intact.toResting).grows
      exact ⟨grows.announcements, grows.slots⟩
  | deepen depth => exact ⟨rfl, rfl⟩
  | register registered => exact ⟨rfl, rfl⟩
  | @watch stat stage path reads resolved within route readings =>
      have watched : (graph.obtainWatched stat stage path reads).Intact vocabulary :=
        intact_obtainWatched intact resolved within route readings
      have obtains : Explores vocabulary graph (graph.obtain stat stage path).2 :=
        explores_obtain graph resolved stage within route
      have settles : Explores vocabulary (graph.obtainWatched stat stage path reads) _ :=
        explores_settleWatched intact resolved within route readings
      have grows := (obtains.advances intact.toResting).grows
      have later := (settles.advances watched.toResting).grows
      exact ⟨later.announcements.trans grows.announcements, later.slots.trans grows.slots⟩
  | @watchRoster stat form path within route =>
      rw [subscribeRoster_eq]
      split
      · next resolved =>
        have grows := (advances_ensurePipeline intact.formed intact.stacked resolved within).grows
        exact ⟨grows.announcements, grows.slots⟩
      · exact ⟨rfl, rfl⟩
  | unwatch id =>
      unfold unsubscribe
      split
      · exact ⟨rfl, rfl⟩
      · split <;> exact ⟨rfl, rfl⟩

theorem carries_stirs (faithful : vocabulary.Faithful) (hushed : vocabulary.Hushed)
    (intact : graph.Intact vocabulary) (stirs : Stirs vocabulary graph other) :
    graph.Carries other := by
  induction stirs with
  | refl => exact .refl graph
  | tail before stir inductionHypothesis =>
      have ready := Stirs.intact before intact
      exact inductionHypothesis.trans
        ⟨minds_stir faithful hushed ready stir, (silent_stir ready stir).1⟩

/-- Whoever watches a node before and after a batch is told if the node answers otherwise. -/
theorem Delivers.told_of_change (intact : graph.Intact (.catalogued catalogue))
    (otherIntact : other.Intact (.catalogued catalogue)) (attentive : graph.Attentive)
    (calm : graph.Calm) (carries : graph.Carries middle) (delivers : middle.Delivers other)
    {node : NodeId} {id : SubscriptionId} (before : id ∈ graph.readers node)
    (after : id ∈ other.readers node)
    (differs : borne (graph.valueOf node).1 ≠ borne (other.valueOf node).1) :
    other.heard id = graph.heard id + 1 := by
  have faithful : (Vocabulary.catalogued catalogue).Faithful := Vocabulary.faithful_catalogued
  have bare : (Vocabulary.catalogued catalogue).Bare := Vocabulary.bare_catalogued
  have watched := followed_of_reader before
  have stays := followed_of_reader after
  have waits : node ∈ middle.pending.nodes := by
    by_contra spared
    obtain ⟨outcome, bears⟩ : ∃ outcome, graph.Bears node outcome := by
      refine (attentive node watched).resolve_right fun waits => ?_
      rw [calm.1] at waits
      exact List.not_mem_nil waits
    have carried := (carries.minds.bears node outcome (watched.staged intact) bears).resolve_right
      spared
    have kept := delivers.bears node outcome stays spared carried
    exact differs ((bears.answers faithful.propagating bare.hushed intact.toResting).trans
      (kept.answers faithful.propagating bare.hushed otherIntact.toResting).symm)
  rw [delivers.readers] at after
  rw [delivers.told node waits id after, heard_of_announcements carries.announcements]

end Graph

namespace Sheet

open CharacterSheet.Graph

variable {catalogue : StatId → Stat} {vocabulary : Vocabulary} {sheet : Sheet}

section Open

variable (closed : vocabulary.Closed) (faithful : vocabulary.Faithful) (hushed : vocabulary.Hushed)
include closed faithful hushed

/-- Modifiers come and go between two series of stirs. -/
theorem carries_turnover {operation : Operation} (within : operation.Within vocabulary)
    {graph start after : Graph} (intact : graph.Intact vocabulary)
    (before : Stirs vocabulary graph start)
    (later : Stirs vocabulary (operation.turnover start) after) :
    graph.Carries after ∧ after.Intact vocabulary := by
  have began := before.intact intact
  have turned := intact_turnover closed began within
  obtain ⟨turns, -⟩ := turns_turnover closed began within
  have carries : start.Carries (operation.turnover start) :=
    ⟨.of_turn faithful turns, turns.audience.announcements⟩
  exact ⟨((carries_stirs faithful hushed intact before).trans carries).trans
    (carries_stirs faithful hushed turned later), later.intact turned⟩

/-- While a batch stays open, operations carry on. -/
theorem carries_apply (intact : sheet.graph.Intact vocabulary) {operation : Operation}
    (within : operation.Within vocabulary) (stillOpen : (sheet.apply operation).batchDepth ≠ 0) :
    sheet.graph.Carries (sheet.apply operation).graph := by
  obtain ⟨start, before, later⟩ := stirs_of_open closed intact within stillOpen
  exact (carries_turnover closed faithful hushed within intact before later).1

end Open

/-- The operation that leaves no batch open delivers whatever waits. -/
theorem delivers_apply (reachable : Reachable (.catalogued catalogue) sheet) {operation : Operation}
    (within : operation.Within (.catalogued catalogue))
    (closes : (sheet.apply operation).batchDepth = 0) :
    ∃ ready : Graph, ready.Intact (.catalogued catalogue) ∧ sheet.graph.Carries ready ∧
      ready.Delivers (sheet.apply operation).graph := by
  have closed : (Vocabulary.catalogued catalogue).Closed := Vocabulary.closed_catalogued
  have faithful : (Vocabulary.catalogued catalogue).Faithful := Vocabulary.faithful_catalogued
  have bare : (Vocabulary.catalogued catalogue).Bare := Vocabulary.bare_catalogued
  have intact := reachable.intact closed
  have before := reachable.calm closed bare
  have calm := calm_apply closed bare intact before within closes
  have course := course_apply closed intact within
  rw [batchDepth] at closes
  generalize (sheet.apply operation).graph = after at course closes calm
  cases course with
  | aside _ aside =>
      have stirs := stirs_of_aside aside
      exact ⟨after, stirs.intact intact, carries_stirs faithful bare.hushed intact stirs,
        calm.delivers⟩
  | inside _ _ stillOpen => exact absurd closes stillOpen
  | announce _ stirs _ =>
      have ready := stirs.intact intact
      exact ⟨_, ready, carries_stirs faithful bare.hushed intact stirs, delivers_flush ready _⟩
  | conclude earlier later _ =>
      obtain ⟨carries, ready⟩ :=
        carries_turnover closed faithful bare.hushed within intact earlier later
      exact ⟨_, ready, carries, delivers_concluded ready _ _⟩
  | sweep _ idle =>
      have swept := (before idle).sweep bare intact sheet.retention
      rw [swept.flush_eq]
      exact ⟨sheet.graph, intact, .refl _, (before idle).delivers.sweep intact (before idle) _⟩

/-! ### Batches -/

/-- Operations make up one outermost batch: a batch is open after each of them but the last. A single
operation outside of any batch is a batch of its own. -/
def Batch (sheet : Sheet) : List Operation → Prop
  | [] => False
  | [last] => (sheet.apply last).batchDepth = 0
  | operation :: next :: rest =>
      (sheet.apply operation).batchDepth ≠ 0 ∧ Batch (sheet.apply operation) (next :: rest)

/-- A batch carries on until its last operation delivers whatever waits. -/
theorem Batch.delivers {operations : List Operation}
    (reachable : Reachable (.catalogued catalogue) sheet)
    (within : ∀ operation ∈ operations, operation.Within (.catalogued catalogue))
    (batch : sheet.Batch operations) :
    ∃ ready : Graph, ready.Intact (.catalogued catalogue) ∧ sheet.graph.Carries ready ∧
      ready.Delivers (sheet.run operations).graph := by
  induction operations generalizing sheet with
  | nil => exact batch.elim
  | cons operation rest inductionHypothesis =>
      obtain ⟨here, later⟩ := List.forall_mem_cons.mp within
      cases rest with
      | nil => exact delivers_apply reachable here batch
      | cons next rest =>
          obtain ⟨stillOpen, goesOn⟩ := batch
          have intact := reachable.intact Vocabulary.closed_catalogued
          have carries := carries_apply Vocabulary.closed_catalogued Vocabulary.faithful_catalogued
            Vocabulary.bare_catalogued.hushed intact here stillOpen
          obtain ⟨ready, readyIntact, more, delivers⟩ :=
            inductionHypothesis (.apply operation reachable here) later goesOn
          exact ⟨ready, readyIntact, carries.trans more, delivers⟩

/-- Whether operations make up a batch can be found out by running them. -/
def decidableBatch (sheet : Sheet) : (operations : List Operation) → Decidable (sheet.Batch operations)
  | [] => inferInstanceAs (Decidable False)
  | [last] => inferInstanceAs (Decidable ((sheet.apply last).batchDepth = 0))
  | operation :: next :: rest =>
      have := decidableBatch (sheet.apply operation) (next :: rest)
      inferInstanceAs (Decidable (_ ∧ _))

instance (sheet : Sheet) (operations : List Operation) : Decidable (sheet.Batch operations) :=
  decidableBatch sheet operations

end Sheet

open CharacterSheet.Graph

/-! ### Any batch after any operations -/

/-- A batch after any operations within a catalogue. If a node answers otherwise after the batch than
before it, any two faults being the same, then whoever watched it all the time is told once. Nobody
is told twice. And all replies that subscribers read are those that the same reads have afterwards. -/
theorem batch_tells_each_change_once (catalogue : StatId → Stat) (settings : Settings)
    (retention : Retention) (before operations : List Operation)
    (within : ∀ operation ∈ before ++ operations, operation.Within (.catalogued catalogue)) :
    let sheet := Sheet.run { settings, retention } before
    let closed := sheet.run operations
    sheet.batchDepth = 0 → sheet.Batch operations →
      (∀ node, ∀ id ∈ sheet.graph.readers node, id ∈ closed.graph.readers node →
        borne (sheet.graph.valueOf node).1 ≠ borne (closed.graph.valueOf node).1 →
          closed.graph.heard id = sheet.graph.heard id + 1) ∧
      (∀ id, closed.graph.heard id ≤ sheet.graph.heard id + 1) ∧
      ∃ told, closed.graph.news = sheet.graph.news ++ told ∧
        ∀ id name replies, .valueChanged id name replies ∈ told → ∃ node present subscriber,
          closed.graph.nodes.get? node = some present ∧ subscriber ∈ present.subscribers ∧
            subscriber.id = id ∧ present.address.name = name ∧
              replies = subscriber.reads.map fun reading =>
                (closed.value reading.stat reading.stage reading.path).1 := by
  intro sheet closed idle batch
  obtain ⟨early, late⟩ := List.forall_mem_append.mp within
  have reachable : Sheet.Reachable (.catalogued catalogue) sheet :=
    Sheet.reachable_run (.new settings retention) early
  have intact := reachable.intact Vocabulary.closed_catalogued
  have closedIntact : closed.graph.Intact (.catalogued catalogue) :=
    (Sheet.reachable_run reachable late).intact Vocabulary.closed_catalogued
  obtain ⟨ready, -, carries, delivers⟩ := Sheet.Batch.delivers reachable late batch
  refine ⟨fun node id watches stays differs => ?_, fun id => ?_, ?_⟩
  · exact delivers.told_of_change intact closedIntact (reachable.attentive Vocabulary.closed_catalogued
      Vocabulary.faithful_catalogued Vocabulary.bare_catalogued.hushed)
      (reachable.calm Vocabulary.closed_catalogued Vocabulary.bare_catalogued idle) carries watches
      stays differs
  · rw [← heard_of_announcements carries.announcements]
    exact delivers.once id
  · obtain ⟨nodes, news⟩ := delivers.news
    refine ⟨nodes.flatMap closed.graph.reports, ?_, fun id name replies member => ?_⟩
    · rw [news, news_of_announcements carries.announcements]
    · obtain ⟨node, _, inside⟩ := List.mem_flatMap.mp member
      exact ⟨node, mem_reports inside⟩

/-- A total is watched by a subscriber that reads it. -/
def watchingPower : List Operation :=
  [.add (.baseAdd ⟨1⟩ (.named "Power") 5),
    .subscribe (.named "Power") .total .main [⟨.named "Power", .total, .main⟩]]

/-- A modifier takes the place of another, and the total is read in between. -/
def replacingPower : List Operation :=
  [.beginBatch, .add (.baseAdd ⟨2⟩ (.named "Power") 3), .value (.named "Power") .total .main,
    .remove ⟨1⟩, .endBatch]

/-- Modifiers of this one stat are within the catalogue of plain stats. -/
theorem powerModifier_within {modifier : Modifier} (stats : modifier.stats = [.named "Power"])
    (heeds : modifier.value.heeds) (plain : modifier.value.Within (.catalogued Stat.plain))
    (always : modifier.condition = none) : modifier.Within (.catalogued Stat.plain) where
  stats := by
    rw [stats]
    exact fun stat member => List.mem_singleton.mp member ▸ (named_within_plain "Power").headWithin
  value := ⟨Formula.propagates_of_heeds _ heeds, plain⟩
  condition := by
    rw [always]
    exact fun _ none => absurd none (Option.not_mem_none _)

theorem readingPower_within :
    (Operation.subscribe (.named "Power") .total .main [⟨.named "Power", .total, .main⟩]).Within
      (.catalogued Stat.plain) := by
  have power := (named_within_plain "Power").headWithin
  exact ⟨power, .main, fun reading member => List.mem_singleton.mp member ▸ ⟨power, .main⟩⟩

theorem replacingPower_within :
    ∀ operation ∈ watchingPower ++ replacingPower, operation.Within (.catalogued Stat.plain) := by
  have adds (id : ModifierId) (amount : Number) :
      (Modifier.baseAdd id (.named "Power") amount).Within (.catalogued Stat.plain) :=
    powerModifier_within rfl rfl trivial rfl
  simp only [watchingPower, replacingPower, List.cons_append, List.nil_append, List.forall_mem_cons]
  exact ⟨adds _ _, readingPower_within, trivial, adds _ _,
    ⟨(named_within_plain "Power").headWithin, .main⟩, trivial, trivial,
    fun _ none => absurd none List.not_mem_nil⟩

theorem replacingPower_told :
    let sheet := Sheet.run {} watchingPower
    let closed := sheet.run replacingPower
    sheet.batchDepth = 0 ∧ sheet.Batch replacingPower ∧
      borne (sheet.graph.valueOf ⟨7⟩).1 = some (some (.scalar 5)) ∧
        borne (closed.graph.valueOf ⟨7⟩).1 = some (some (.scalar 3)) ∧
          closed.graph.heard ⟨1⟩ = sheet.graph.heard ⟨1⟩ + 1 := by
  have idle : (Sheet.run {} watchingPower).batchDepth = 0 := by decide +kernel
  have batch : (Sheet.run {} watchingPower).Batch replacingPower := by decide +kernel
  have first : borne ((Sheet.run {} watchingPower).graph.valueOf ⟨7⟩).1 = some (some (.scalar 5)) := by
    decide +kernel
  have last : borne (((Sheet.run {} watchingPower).run replacingPower).graph.valueOf ⟨7⟩).1 =
      some (some (.scalar 3)) := by decide +kernel
  have watches : ⟨1⟩ ∈ (Sheet.run {} watchingPower).graph.readers ⟨7⟩ := by decide +kernel
  have stays : ⟨1⟩ ∈ ((Sheet.run {} watchingPower).run replacingPower).graph.readers ⟨7⟩ := by
    decide +kernel
  have told := (batch_tells_each_change_once Stat.plain {} {} watchingPower replacingPower
    replacingPower_within idle batch).1 ⟨7⟩ ⟨1⟩ watches stays
  rw [first, last] at told
  exact ⟨idle, batch, first, last, told (by decide +kernel)⟩

/-- A base value that names a bound which no value has. -/
def faultyBase (id : ModifierId) (item : String) (index : Nat) : Modifier where
  id := id
  stats := [.named "Power"]
  form := .baseAdd
  value := .component (.constant (some (.scalar 5))) index
  source := .item item

/-- A modifier brings the path of an item to the front; two others on two paths are at fault. -/
def watchingFault : List Operation :=
  [.add { id := ⟨1⟩, stats := [.named "Power"], form := .more,
          value := .constant (some (.scalar 10)), source := .item "Sword" },
    .add (faultyBase ⟨2⟩ "Ring" 9), .add (faultyBase ⟨3⟩ "Sword" 7),
    .subscribe (.named "Power") .total .main [⟨.named "Power", .total, .main⟩]]

theorem watchingFault_within : ∀ operation ∈ watchingFault ++ [.remove ⟨1⟩],
    operation.Within (.catalogued Stat.plain) := by
  have adds (id : ModifierId) (item : String) (index : Nat) :
      (faultyBase id item index).Within (.catalogued Stat.plain) :=
    powerModifier_within rfl rfl trivial rfl
  simp only [watchingFault, List.cons_append, List.nil_append, List.forall_mem_cons]
  exact ⟨powerModifier_within rfl rfl trivial rfl, adds _ _ _, adds _ _ _, readingPower_within,
    trivial, fun _ none => absurd none List.not_mem_nil⟩

/-- When the first path gives way to the other, another fault comes first; nobody is told. -/
theorem other_fault_untold : ¬ ∀ catalogue settings retention before operations,
    (∀ operation ∈ before ++ operations, operation.Within (.catalogued catalogue)) →
      let sheet := Sheet.run { settings, retention } before
      let closed := sheet.run operations
      sheet.batchDepth = 0 → sheet.Batch operations →
        ∀ node, ∀ id ∈ sheet.graph.readers node, id ∈ closed.graph.readers node →
          (sheet.graph.valueOf node).1 ≠ (closed.graph.valueOf node).1 →
            closed.graph.heard id = sheet.graph.heard id + 1 := by
  intro told
  have once := told Stat.plain {} {} watchingFault [.remove ⟨1⟩] watchingFault_within
    (by decide +kernel) (by decide +kernel) ⟨20⟩ ⟨1⟩ (by decide +kernel) (by decide +kernel)
    (by decide +kernel)
  exact absurd once (by decide +kernel)

end CharacterSheet
