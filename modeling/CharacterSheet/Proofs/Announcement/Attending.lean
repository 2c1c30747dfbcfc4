import CharacterSheet.Proofs.Announcement.Hushing

/-!
Contract: watched nodes are never forgotten by an announcement or a sweep.

Owns:
- the order of announcements, in which every node stands that is to be announced;
- attentive graphs, in which each watched node bears something or waits to be announced;
- an announcement calculates every watched node that waits, and leaves a graph attentive;
- a sweep leaves alone what needed nodes bear, apart from what lifted behaviors applied to.
-/

namespace CharacterSheet

/-! ### Every node is announced -/

section Order

variable {next : NodeId → List NodeId} (pairs : List (NodeId × NodeId)) (places : List NodeId)

/-- The number of places that a walk has not seen yet. -/
def unseen (seen : NodeSet) : Nat := places.countP fun node => !seen.contains node

theorem unseen_insert {seen : NodeSet} {node : NodeId} (new : seen.contains node = false)
    (place : node ∈ places) : unseen places (seen.insert node) < unseen places seen := by
  induction places with
  | nil => contradiction
  | cons other rest inductionHypothesis =>
      have fewer : unseen rest (seen.insert node) ≤ unseen rest seen :=
        List.countP_mono_left fun place _ => by
          simp only [NodeSet.contains_insert, Bool.not_or, Bool.and_eq_true]
          exact And.left
      simp only [unseen, List.countP_cons, NodeSet.contains_insert] at fewer inductionHypothesis ⊢
      by_cases same : other = node
      · subst same
        simp only [new, decide_true, Bool.or_true, Bool.not_true, Bool.false_eq_true, ↓reduceIte,
          Bool.not_false]
        omega
      · have later := inductionHypothesis ((List.mem_cons.mp place).resolve_left (Ne.symm same))
        simp only [show ¬ node = other from Ne.symm same, decide_false, Bool.or_false]
        omega

/-- With enough fuel a walk leaves every node that it has seen or is to enter. The walk enters each
place once, and follows each pair once. -/
theorem mem_finish {fuel : Nat} {seen : NodeSet} {finished : List NodeId} {stack : List Visit}
    (follows : ∀ node, next node = (pairs.filter (·.1 = node)).map (·.2))
    (inside : ∀ pair ∈ pairs, pair.2 ∈ places)
    (entered : ∀ node, .enter node ∈ stack → node ∈ places)
    (met : ∀ node, seen.contains node = true → node ∈ finished ∨ .leave node ∈ stack)
    (enough : stack.length + unfollowed pairs seen + unseen places seen ≤ fuel)
    {node : NodeId} (waiting : node ∈ finished ∨ .leave node ∈ stack ∨ .enter node ∈ stack) :
    node ∈ finish next fuel seen finished stack := by
  induction fuel generalizing seen finished stack with
  | zero =>
      have empty : stack = [] := List.eq_nil_of_length_eq_zero (by omega)
      subst empty
      simpa [finish] using waiting
  | succ fuel inductionHypothesis =>
      match stack with
      | [] => simpa [finish] using waiting
      | .leave own :: rest =>
          rw [List.length_cons] at enough
          apply inductionHypothesis
          · exact fun other member => entered other (List.mem_cons_of_mem _ member)
          · intro other known
            have due := met other known
            simp only [List.mem_cons, Visit.leave.injEq] at due ⊢
            tauto
          · omega
          · simp only [List.mem_cons, Visit.leave.injEq, reduceCtorEq, false_or] at waiting ⊢
            tauto
      | .enter own :: rest =>
          rw [List.length_cons] at enough
          unfold finish
          split
          · next known =>
            apply inductionHypothesis
            · exact fun other member => entered other (List.mem_cons_of_mem _ member)
            · intro other also
              simpa using met other also
            · omega
            · have again := met own known
              simp only [List.mem_cons, Visit.enter.injEq, reduceCtorEq, false_or] at waiting again
              rcases waiting with left | due | rfl | later
              · exact Or.inl left
              · exact Or.inr (Or.inl due)
              · exact again.imp_right Or.inl
              · exact Or.inr (Or.inr later)
          · next new =>
            have place := entered own List.mem_cons_self
            have fresh : seen.contains own = false := by simpa using new
            have fewer := unseen_insert places fresh place
            have followed := unfollowed_insert pairs fresh
            apply inductionHypothesis
            · intro other member
              rcases List.mem_append.mp member with below | behind
              · obtain ⟨target, listed, same⟩ := List.mem_map.mp below
                cases same
                rw [follows] at listed
                obtain ⟨pair, kept, rfl⟩ := List.mem_map.mp listed
                exact inside pair (List.mem_filter.mp kept).1
              · exact entered other (List.mem_cons_of_mem _ (by simpa using behind))
            · intro other known
              rw [NodeSet.contains_insert, Bool.or_eq_true, decide_eq_true_eq] at known
              rcases known with before | rfl
              · have due := met other before
                simp only [List.mem_cons, reduceCtorEq, false_or] at due
                simp only [List.mem_append, List.mem_cons]
                tauto
              · exact Or.inr (List.mem_append_right _ List.mem_cons_self)
            · rw [List.length_append, List.length_map, List.length_cons, follows]
              omega
            · simp only [List.mem_cons, Visit.enter.injEq, reduceCtorEq, false_or] at waiting
              simp only [List.mem_append, List.mem_cons, Visit.leave.injEq, reduceCtorEq, false_or]
              tauto

end Order

namespace Graph

variable {vocabulary : Vocabulary} {graph middle other : Graph}

theorem mem_nodesByPlace {node : NodeId} :
    node ∈ graph.nodesByPlace ↔ ∃ present, graph.nodes.get? node = some present := by
  simp [nodesByPlace, List.mem_mergeSort, Table.get?_eq_some_iff]

/-- A walk from all nodes leaves every node. -/
theorem mem_walked (joined : graph.Joined) {node : NodeId} {present : Node}
    (found : graph.nodes.get? node = some present) :
    node ∈ graph.walked graph.nodesByPlace := by
  have places (own : NodeId) : own ∈ graph.nodesByPlace ↔ .enter own ∈ graph.nodesByPlace.map
      Visit.enter := by simp
  apply mem_finish (graph.edges.map fun edge => (edge.producer, edge.consumer)) graph.nodesByPlace
  · exact fun start => by simp [consumption, Adjacency.next_ofPairs]
  · intro pair member
    obtain ⟨edge, listed, rfl⟩ := List.mem_map.mp member
    obtain ⟨-, address, there⟩ := joined edge.producer edge.consumer listed
    obtain ⟨here, found, -⟩ := Option.map_eq_some_iff.mp there
    exact mem_nodesByPlace.mpr ⟨here, found⟩
  · exact fun own => (places own).mpr
  · exact fun own known => by simp at known
  · have size : graph.nodesByPlace.length = graph.nodes.size := by
      simp [nodesByPlace, Table.size]
    simp [unfollowed, unseen, size]
    omega
  · exact Or.inr (Or.inr ((places node).mp (mem_nodesByPlace.mpr ⟨present, found⟩)))

/-- If there is no circle, every node stands in the order. -/
theorem mem_dependencyOrder? (joined : graph.Joined) {order : List NodeId}
    (ordered : graph.dependencyOrder? = some order) {node : NodeId} {present : Node}
    (found : graph.nodes.get? node = some present) : node ∈ order := by
  obtain ⟨rfl, -⟩ := dependencyOrder?_eq_some_iff.mp ordered
  exact mem_walked joined found

/-- Every node that is to be announced stands in the order of announcements. -/
theorem mem_announcementOrder_iff (joined : graph.Joined) {nodes : List NodeId}
    (present : ∀ node ∈ nodes, ∃ present, graph.nodes.get? node = some present) {node : NodeId} :
    node ∈ (graph.announcementOrder nodes).1 ↔ node ∈ nodes := by
  refine ⟨mem_announcementOrder, fun member => ?_⟩
  unfold announcementOrder
  split
  · exact member
  · split
    · next order ordered =>
      obtain ⟨_, found⟩ := present node member
      exact List.mem_filter.mpr ⟨mem_dependencyOrder? joined ordered found, by simpa using member⟩
    · exact member

/-! ### Attentive graphs -/

/-- Whether a node has subscribers. -/
def Followed (graph : Graph) (node : NodeId) : Prop :=
  ∃ present, graph.nodes.get? node = some present ∧ present.subscribers ≠ []

/-- Whether a node bears something or waits to be announced. -/
def Tended (graph : Graph) (node : NodeId) : Prop :=
  (∃ outcome, graph.Bears node outcome) ∨ node ∈ graph.pending.nodes

/-- Each node with subscribers bears something or waits to be announced. -/
def Attentive (graph : Graph) : Prop := ∀ node, graph.Followed node → graph.Tended node

theorem Followed.staged {node : NodeId} (followed : graph.Followed node)
    (intact : graph.Intact vocabulary) : graph.Staged node := by
  obtain ⟨present, found, heard⟩ := followed
  exact intact.watched.attended node present found heard

theorem Audience.followed (audience : graph.Audience other) {node : NodeId}
    (followed : other.Followed node) : graph.Followed node := by
  obtain ⟨present, found, heard⟩ := followed
  obtain ⟨cache, before⟩ := audience.watched node present found heard
  exact ⟨_, before, heard⟩

theorem Extends.followed (larger : graph.Extends other) {node : NodeId}
    (followed : other.Followed node) : graph.Followed node := by
  obtain ⟨present, found, heard⟩ := followed
  cases before : graph.nodes.get? node with
  | none => exact absurd (larger.unwatched node present found before) heard
  | some earlier =>
      obtain ⟨cache, later⟩ := larger.nodes node earlier before
      rw [found] at later
      cases later
      exact ⟨earlier, before, heard⟩

/-- One stage stays, and goes on bearing what it bore unless a change of it waits to be announced. -/
structure MindsAt (graph other : Graph) (node : NodeId) : Prop where
  staged : other.Staged node
  bears : ∀ outcome, graph.Bears node outcome →
    other.Bears node outcome ∨ node ∈ other.pending.nodes
  waits : node ∈ graph.pending.nodes → node ∈ other.pending.nodes

theorem Minds.at (minds : graph.Minds other) {node : NodeId} (staged : graph.Staged node) :
    graph.MindsAt other node :=
  ⟨minds.staged node staged, fun outcome => minds.bears node outcome staged,
    fun waits => minds.waits node waits staged⟩

theorem MindsAt.trans {node : NodeId} (first : graph.MindsAt middle node)
    (second : middle.MindsAt other node) : graph.MindsAt other node where
  staged := second.staged
  bears := fun outcome bears =>
    (first.bears outcome bears).elim (second.bears outcome) fun waits => Or.inr (second.waits waits)
  waits := fun waits => second.waits (first.waits waits)

theorem MindsAt.tended {node : NodeId} (minds : graph.MindsAt other node)
    (tended : graph.Tended node) : other.Tended node := by
  rcases tended with ⟨outcome, bears⟩ | waits
  · exact (minds.bears outcome bears).imp_left fun kept => ⟨outcome, kept⟩
  · exact Or.inr (minds.waits waits)

theorem Minds.tended (minds : graph.Minds other) {node : NodeId} (staged : graph.Staged node)
    (tended : graph.Tended node) : other.Tended node := (minds.at staged).tended tended

/-- A mindful change that brings no subscribers keeps a graph attentive. -/
theorem Attentive.minds (attentive : graph.Attentive) (intact : graph.Intact vocabulary)
    (minds : graph.Minds other) (followed : ∀ node, other.Followed node → graph.Followed node) :
    other.Attentive := fun node there =>
  minds.tended ((followed node there).staged intact) (attentive node (followed node there))

/-! ### Announcements -/

section Announcements

variable (faithful : vocabulary.Faithful) (hushed : vocabulary.Hushed)
  (intact : graph.Intact vocabulary)
include faithful hushed intact

/-- Whatever happens in the course of an announcement is mindful. -/
theorem Speaks.minds (speaks : Speaks vocabulary graph other) : graph.Minds other := by
  induction speaks with
  | refl => exact .refl graph
  | explore before explores inductionHypothesis =>
      exact inductionHypothesis.trans (explores.minds faithful hushed (before.intact intact).toSound)
  | record entry before inductionHypothesis =>
      exact inductionHypothesis.trans (.record (before.intact intact).formed entry)

/-- A node that is settled bears its value or its fault. -/
theorem tended_settle {node : NodeId} (staged : graph.Staged node) :
    (graph.settle node).Tended node := by
  obtain ⟨stat, stage, path, found⟩ := staged
  have calculates := explores_valueOf intact.toResting ⟨_, found⟩
  have bears := bears_valueOf faithful.propagating hushed intact.toResting ⟨_, found⟩
  have calculated := calculates.resting intact.toResting
  unfold settle
  split
  · next outcome =>
    rw [outcome] at bears
    exact Or.inl ⟨_, bears⟩
  · next outcome =>
    rw [outcome] at bears calculated
    split
    · exact Or.inl ⟨_, bears.alter calculated.formed (alters_record _ _) id⟩
    · exact Or.inl ⟨_, bears⟩

/-- A node that is announced is settled, and stays tended while its subscribers read. -/
theorem tended_announceNode {node : NodeId} (staged : graph.Staged node) :
    (graph.announceNode node).Tended node := by
  have tended := tended_settle faithful hushed intact staged
  obtain ⟨stat, stage, path, address⟩ := staged
  obtain ⟨present, found, -⟩ := Option.map_eq_some_iff.mp address
  obtain ⟨settles, announces, within⟩ := announceNode_eq intact found
  have settled := intact.explore settles
  have tells := tells_foldl settled present.address.name within
  rw [announces]
  exact (tells.speaks.minds faithful hushed settled).tended
    ((settles.minds faithful hushed intact.toSound).staged node ⟨stat, stage, path, address⟩) tended

theorem tended_announceNodes {nodes : List NodeId} (staged : ∀ node ∈ nodes, graph.Staged node) :
    ∀ node ∈ nodes, (nodes.foldl announceNode graph).Tended node := by
  induction nodes generalizing graph with
  | nil => exact fun _ none => absurd none List.not_mem_nil
  | cons node rest inductionHypothesis =>
      have here := staged node List.mem_cons_self
      have tended := tended_announceNode faithful hushed intact here
      have present {graph : Graph} {other : NodeId} (there : graph.Staged other) :
          ∃ present, graph.nodes.get? other = some present := by
        obtain ⟨stat, stage, path, address⟩ := there
        obtain ⟨present, found, -⟩ := Option.map_eq_some_iff.mp address
        exact ⟨present, found⟩
      obtain ⟨_, found⟩ := present here
      have first := tells_announceNode intact found
      have minds := first.speaks.minds faithful hushed intact
      have later : ∀ other ∈ rest, (graph.announceNode node).Staged other := fun other member =>
        minds.staged other (staged other (List.mem_cons_of_mem node member))
      have rests := tells_announceNodes first.intact fun other member => present (later other member)
      intro other member
      rcases List.mem_cons.mp member with rfl | inside
      · exact (rests.speaks.minds faithful hushed first.intact).tended (minds.staged other here) tended
      · exact inductionHypothesis first.intact later other inside

end Announcements

theorem announceRosters_journal (changes : List (SlotId × Delta ModifierId)) (graph : Graph) :
    ∃ added, changes.foldl announceRoster graph = { graph with journal := graph.journal ++ added } ∧
      ∀ entry ∈ added, entry.isReport = false := by
  have told (change : SlotId × Delta ModifierId) (subscribers : List SubscriptionId)
      (graph : Graph) : ∃ added, subscribers.foldl (fun told id => told.record
        (.rosterChanged id change.1.stat change.1.form change.1.path change.2)) graph =
          { graph with journal := graph.journal ++ added } ∧
            ∀ entry ∈ added, entry.isReport = false := by
    induction subscribers generalizing graph with
    | nil => exact ⟨[], by rw [List.append_nil]; rfl, fun _ none => absurd none List.not_mem_nil⟩
    | cons id rest inductionHypothesis =>
        obtain ⟨added, later, others⟩ := inductionHypothesis (graph.record
          (.rosterChanged id change.1.stat change.1.form change.1.path change.2))
        refine ⟨.rosterChanged id change.1.stat change.1.form change.1.path change.2 :: added, ?_,
          List.forall_mem_cons.mpr ⟨rfl, others⟩⟩
        rw [List.foldl_cons, later, record, List.append_assoc]
        rfl
  induction changes generalizing graph with
  | nil => exact ⟨[], by rw [List.append_nil]; rfl, fun _ none => absurd none List.not_mem_nil⟩
  | cons change rest inductionHypothesis =>
      obtain ⟨before, first, ones⟩ : ∃ added, graph.announceRoster change =
          { graph with journal := graph.journal ++ added } ∧
            ∀ entry ∈ added, entry.isReport = false := by
        unfold announceRoster
        split
        · exact ⟨[], by rw [List.append_nil], fun _ none => absurd none List.not_mem_nil⟩
        · exact told change _ graph
      obtain ⟨after, later, others⟩ := inductionHypothesis (graph.announceRoster change)
      refine ⟨before ++ after, ?_, fun entry member =>
        (List.mem_append.mp member).elim (ones entry) (others entry)⟩
      rw [List.foldl_cons, later, first, List.append_assoc]

/-- Up to the first announced node only the journal grows, and nobody is told of a changed value. -/
theorem announced_journal (announceRosters : Bool) (graph : Graph) :
    ∃ added, (graph.announced announceRosters).2 =
        { graph.modifyPending Pending.cleared with journal := graph.journal ++ added } ∧
      ∀ entry ∈ added, entry.isReport = false := by
  let begins : Record :=
    .flushing graph.pending.nodes.length graph.pending.changedSlots.length
  obtain ⟨added, told, rosters⟩ : ∃ added, graph.informed announceRosters =
      { graph.modifyPending Pending.cleared with journal := graph.journal ++ begins :: added } ∧
        ∀ entry ∈ added, entry.isReport = false := by
    unfold informed
    split
    · obtain ⟨added, told, rosters⟩ := announceRosters_journal graph.pending.changedSlots graph.begun
      refine ⟨added, ?_, rosters⟩
      rw [told, begun, record, List.append_assoc]
      rfl
    · exact ⟨[], rfl, fun _ none => absurd none List.not_mem_nil⟩
  have first : ∀ entry ∈ begins :: added, entry.isReport = false :=
    List.forall_mem_cons.mpr ⟨rfl, rosters⟩
  rcases announcementOrder_graph (graph.informed announceRosters) (graph.pending.nodes.filter
    fun node => 0 < (graph.informed announceRosters).subscriberCount node) with same | same
  · exact ⟨begins :: added, by rw [announced, same, told], first⟩
  · refine ⟨begins :: added ++ [.circularOrder], ?_, fun entry member => ?_⟩
    · rw [announced, same, told, record, ← List.append_assoc]
    · rcases List.mem_append.mp member with before | last
      · exact first entry before
      · exact List.mem_singleton.mp last ▸ rfl

/-- The nodes that are followed and wait are announced. -/
theorem mem_announced_iff (intact : graph.Intact vocabulary) (announceRosters : Bool)
    {node : NodeId} : node ∈ (graph.announced announceRosters).1 ↔
      graph.Followed node ∧ node ∈ graph.pending.nodes := by
  obtain ⟨told, nodes⟩ := tells_informed intact announceRosters
  have counts (other : NodeId) :
      0 < (graph.informed announceRosters).subscriberCount other ↔ graph.Followed other := by
    rw [subscriberCount, nodes, Followed]
    cases graph.nodes.get? other with
    | none => simp
    | some present => simp [List.length_pos_iff]
  refine (mem_announcementOrder_iff told.intact.wired.joined fun other member => ?_).trans ?_
  · have counted := (List.mem_filter.mp member).2
    obtain ⟨present, found, -⟩ := (counts other).mp (by simpa using counted)
    exact ⟨present, by rw [nodes]; exact found⟩
  · rw [List.mem_filter, decide_eq_true_eq, counts]
    exact And.comm

theorem announced_settled (intact : graph.Intact vocabulary) (announceRosters : Bool)
    (settled : graph.Settled) : (graph.announced announceRosters).1 = [] := by
  refine List.eq_nil_iff_forall_not_mem.mpr fun node member => ?_
  have waits := ((mem_announced_iff intact announceRosters).mp member).2
  rw [settled.2] at waits
  exact List.not_mem_nil waits

/-! ### Sweeps -/

/-- New rosters with the same members change no node. -/
theorem minds_refit (formed : graph.WellFormed vocabulary) {stat : StatId}
    {slots : Pipeline → Table (Form × PathId) Slot}
    (refits : ∀ pipeline, graph.pipelines.get? stat = some pipeline →
      Refits vocabulary graph.modifiers stat pipeline (slots pipeline)) :
    graph.Minds (graph.modifyPipeline stat fun old => { old with slots := slots old }) :=
  .of_alters formed (alters_refit refits formed) fun _ => id

theorem minds_removeSlots (intact : graph.Intact vocabulary) {slots : List SlotId}
    (vacant : ∀ slot ∈ slots, graph.Vacant slot) :
    graph.Minds (slots.foldl removeSlot graph) ∧
      (slots.foldl removeSlot graph).nodes = graph.nodes := by
  induction slots generalizing graph with
  | nil => exact ⟨.refl graph, rfl⟩
  | cons slot rest inductionHypothesis =>
      have refits := (vacant slot List.mem_cons_self).refits intact.formed
      have first : graph.Minds (graph.removeSlot slot) := minds_refit intact.formed refits
      obtain ⟨later, nodes⟩ := inductionHypothesis (Intact.refit refits intact)
        fun other member => by
          rw [Vacant, members_refit refits]
          exact vacant other (List.mem_cons_of_mem slot member)
      exact ⟨first.trans later, nodes⟩

/-- A change that is announced to all whom it affects. -/
theorem Minds.of_loud {affected : NodeId → Prop} (formed : graph.WellFormed vocabulary)
    (alters : graph.Alters other affected Clean)
    (staged : ∀ node, graph.Staged node → other.Staged node)
    (loud : ∀ node, affected node → node ∈ other.pending.nodes)
    (waits : ∀ node ∈ graph.pending.nodes, node ∈ other.pending.nodes) : graph.Minds other where
  staged := staged
  bears := fun node _ _ bears =>
    (em (affected node)).elim (fun reached => Or.inr (loud node reached))
      fun spared => Or.inl (bears.alter formed alters spared)
  waits := fun node waiting _ => waits node waiting

/-- Where lifted behaviors applied, something waits to be announced. -/
theorem minds_lift (formed : graph.WellFormed vocabulary) {stat : StatId}
    {behaviors : List Behavior} (force : graph.behaviors.get? stat = some behaviors)
    (entry : Record) :
    graph.Minds (((graph.lift stat).record entry).invalidateTargets behaviors) := by
  have alters := (alters_lift formed force).record entry
  rw [invalidateTargets_eq]
  refine .of_loud formed (alters.invalidate _ fun _ _ _ => Or.inl) ?_ ?_ ?_
  · rintro node ⟨own, stage, path, found⟩
    refine ⟨own, stage, path, ?_⟩
    rw [addressOf?_of_shape (fades_invalidateAll _ _).shape]
    exact found
  · exact fun node reached => (pending_invalidateAll _ _ node).mpr (Or.inr reached)
  · exact fun node waiting => (pending_invalidateAll _ _ node).mpr (Or.inl waiting)

theorem minds_removePipeline (formed : graph.WellFormed vocabulary) {stat : StatId}
    (hollow : graph.Hollow stat) :
    graph.Minds (graph.removePipeline stat) ∧
      ∀ node, (graph.removePipeline stat).Followed node → graph.Followed node := by
  have closes : graph.Minds (graph.close stat) :=
    .of_alters formed (alters_close hollow formed) fun _ => id
  have closed := formed.close hollow
  rw [removePipeline_eq]
  split
  · split
    · exact ⟨closes, fun _ => id⟩
    · next behaviors force =>
      have force' : (graph.close stat).behaviors.get? stat = some behaviors := force
      split
      · next empty =>
        rw [List.isEmpty_iff] at empty
        have alters := alters_lift closed force'
        have clean : (fun node => node ∈ behaviors.flatMap (graph.close stat).behaviorTargets) =
            Clean := by
          funext node
          simp [empty, Clean]
        rw [clean] at alters
        exact ⟨closes.trans (.of_alters closed alters fun _ => id), fun _ => id⟩
      · refine ⟨closes.trans (minds_lift closed force' _), fun node followed => ?_⟩
        rw [invalidateTargets_eq] at followed
        have faded (start : Graph) (targets : List NodeId)
            (there : (start.invalidateAll targets).Followed node) : start.Followed node :=
          (Grows.of_fades (start.fades_invalidateAll targets)).toExtends.followed there
        have before := faded _ _ followed
        exact before
  · exact ⟨.refl graph, fun _ => id⟩

theorem minds_removePipelines (intact : graph.Intact vocabulary) {stats : List StatId}
    (hollow : ∀ stat ∈ stats, graph.Hollow stat) :
    graph.Minds (stats.foldl removePipeline graph) ∧
      ∀ node, (stats.foldl removePipeline graph).Followed node → graph.Followed node := by
  induction stats generalizing graph with
  | nil => exact ⟨.refl graph, fun _ => id⟩
  | cons stat rest inductionHypothesis =>
      have here := hollow stat List.mem_cons_self
      obtain ⟨first, before⟩ := minds_removePipeline intact.formed here
      obtain ⟨later, followed⟩ := inductionHypothesis (intact_removePipeline intact here) (by
        intro other member pipeline found
        rw [pipelines_removePipeline] at found
        split at found
        · contradiction
        · exact hollow other (List.mem_cons_of_mem stat member) pipeline found)
      exact ⟨first.trans later, fun node there => before node (followed node there)⟩

/-- Up to the removal of pipelines, a sweep is mindful of needed nodes. -/
theorem mindsAt_relaxed (rules : Retention) (intact : graph.Intact vocabulary) {node : NodeId}
    (staged : graph.Staged node) (needed : graph.Needed node) :
    graph.MindsAt (graph.relaxed rules) node := by
  have discards := discards_sweep rules intact
  have apart : ¬ graph.Below (· ∈ graph.sweptNodes rules) node := fun ⟨_, leaves, reaches⟩ =>
    (mem_sweptNodes leaves).1 (needed.reaches reaches)
  have stays : node ∉ graph.sweptNodes rules := fun leaves => (mem_sweptNodes leaves).1 needed
  have alters := discards.alters intact.formed fun _ _ leaves _ =>
    staged_sweptNodes rules intact.formed leaves
  have removes : graph.MindsAt (graph.removeNodes (graph.sweptNodes rules)) node := by
    obtain ⟨stat, stage, path, found⟩ := staged
    exact ⟨⟨stat, stage, path, alters.addressed node _ apart found⟩,
      fun _ bears => Or.inl (bears.alter intact.formed alters apart), (discards.pending node stays).mpr⟩
  obtain ⟨thins, -⟩ := minds_removeSlots (intact_removeSwept rules intact)
    fun _ => vacant_sweptSlots rules intact
  have thinned : graph.MindsAt (graph.thinned rules) node := removes.trans (thins.at removes.staged)
  have relaxes : (graph.thinned rules).Relaxes (graph.relaxed rules) _ := relaxes_relaxed rules
  have spared : node ∉ (graph.thinned rules).nodes.keys.filter
      fun node => !graph.needed.contains node := by
    intro member
    have unneeded := (List.mem_filter.mp member).2
    rw [show graph.needed.contains node = true from needed] at unneeded
    contradiction
  obtain ⟨own, level, place, address⟩ := thinned.staged
  refine thinned.trans ⟨⟨own, level, place, ?_⟩, fun outcome bears => Or.inl ?_, fun waits => ?_⟩
  · rw [addressOf?_of_shape relaxes.shape]
    exact address
  · exact bears.alter (intact_thinned rules intact).1.formed
      (relaxes.alters fun _ _ => unneeded_closed rules intact) spared
  · rw [relaxes.rest]
    exact waits

theorem followed_relaxed (rules : Retention) (intact : graph.Intact vocabulary) {node : NodeId}
    (followed : (graph.relaxed rules).Followed node) : graph.Followed node := by
  obtain ⟨present, found, heard⟩ := followed
  obtain ⟨cache, thinned⟩ := (relaxes_relaxed rules).node_before found
  rw [Graph.thinned, (minds_removeSlots (intact_removeSwept rules intact) fun _ =>
    vacant_sweptSlots rules intact).2] at thinned
  obtain ⟨_, before⟩ := (discards_sweep rules intact).node_before thinned
  exact ⟨_, before, heard⟩

/-- A sweep is mindful of needed nodes. -/
theorem mindsAt_sweep (rules : Retention) (intact : graph.Intact vocabulary) {node : NodeId}
    (staged : graph.Staged node) (needed : graph.Needed node) :
    graph.MindsAt (graph.sweep rules).2 node := by
  have relaxes := mindsAt_relaxed rules intact staged needed
  have removes : (graph.relaxed rules).Minds (graph.swept rules) :=
    (minds_removePipelines (intact_relaxed rules intact)
      fun _ member => hollow_removablePipelines rules member).1
  have sweeps := relaxes.trans (removes.at relaxes.staged)
  refine (sweep_induction (motive := fun other => other.Intact vocabulary ∧ graph.MindsAt other node)
    ⟨intact, (Minds.refl graph).at staged⟩ ⟨intact_swept rules intact, sweeps⟩ ?_).2
  rintro middle entry ⟨ready, minds⟩
  exact ⟨ready.record entry, minds.trans ((Minds.record ready.formed entry).at minds.staged)⟩

theorem followed_sweep (rules : Retention) (intact : graph.Intact vocabulary) {node : NodeId}
    (followed : (graph.sweep rules).2.Followed node) : graph.Followed node := by
  have before (there : (graph.swept rules).Followed node) : graph.Followed node :=
    followed_relaxed rules intact ((minds_removePipelines (intact_relaxed rules intact)
      fun _ member => hollow_removablePipelines rules member).2 node there)
  exact sweep_induction (motive := fun other => other.Followed node → graph.Followed node) id before
    (fun _ _ before => before) followed

/-- A sweep keeps whatever something followed depends on. -/
theorem attentive_sweep (rules : Retention) (intact : graph.Intact vocabulary)
    (attentive : graph.Attentive) : (graph.sweep rules).2.Attentive := by
  intro node followed
  have before := followed_sweep rules intact followed
  exact (mindsAt_sweep rules intact (before.staged intact) (Rooted.needed (.inl before))).tended
    (attentive node before)

section Moves

variable (faithful : vocabulary.Faithful) (hushed : vocabulary.Hushed)
  (intact : graph.Intact vocabulary) (attentive : graph.Attentive)
include faithful hushed intact attentive

omit attentive in
/-- An announcement is mindful of whatever does not wait. -/
theorem bears_flush (announceRosters : Bool) {node : NodeId} {outcome : Option (Option Value)}
    (staged : graph.Staged node) (bears : graph.Bears node outcome) :
    (graph.flush announceRosters).Bears node outcome ∨
      node ∈ (graph.flush announceRosters).pending.nodes := by
  by_cases settled : graph.Settled
  · rw [flush_settled settled]
    exact Or.inl (bears.alter intact.formed (.of_shape rfl rfl rfl) id)
  · have begun : graph.begun.Intact vocabulary := (intact_cleared intact).record _
    have tells := tells_flush intact announceRosters settled
    exact (tells.speaks.minds faithful hushed begun).bears node outcome staged
      (bears.alter intact.formed (.of_shape rfl rfl rfl) id)

/-- An announcement calculates whatever is followed and waits. -/
theorem attentive_flush (announceRosters : Bool) : (graph.flush announceRosters).Attentive := by
  intro node followed
  have before := (extends_flush intact announceRosters).followed followed
  rcases attentive node before with ⟨outcome, bears⟩ | waits
  · exact (bears_flush faithful hushed intact announceRosters (before.staged intact)
      bears).imp_left fun kept => ⟨outcome, kept⟩
  · have unsettled : ¬ graph.Settled := fun settled => by
      rw [settled.2] at waits
      exact absurd waits List.not_mem_nil
    obtain ⟨added, begun, -⟩ := announced_journal announceRosters graph
    have ready : (graph.announced announceRosters).2.Intact vocabulary := by
      rw [begun]
      exact intact.aside rfl rfl rfl rfl rfl rfl rfl List.nodup_nil
    have staged : ∀ other ∈ (graph.announced announceRosters).1,
        (graph.announced announceRosters).2.Staged other := by
      intro other member
      obtain ⟨stat, stage, path, found⟩ :=
        ((mem_announced_iff intact announceRosters).mp member).1.staged intact
      exact ⟨stat, stage, path, by rw [begun]; exact found⟩
    rw [flush_unsettled unsettled]
    exact tended_announceNodes faithful hushed ready staged node
      ((mem_announced_iff intact announceRosters).mpr ⟨before, waits⟩)

omit hushed intact attentive in
/-- A new subscriber makes its node followed, and nothing else. -/
theorem minds_obtainWatched (sound : graph.Sound vocabulary) {stat : Stat} (stage : Stage)
    {path : Path} (reads : List Reading) (resolved : stat.isResolved)
    (within : stat.HeadWithin vocabulary) (route : path.Within vocabulary) :
    graph.Minds (graph.obtainWatched stat stage path reads) ∧
      ∀ node, (graph.obtainWatched stat stage path reads).Followed node →
        graph.Followed node ∨ node = (graph.obtain stat stage path).1 := by
  have obtains : Turns vocabulary graph (graph.obtain stat stage path).2 :=
    turns_obtain sound resolved within route
  refine ⟨(Minds.of_turn faithful obtains).trans ?_, ?_⟩
  · exact .of_alters obtains.sound.formed (alters_obtainWatched graph stat stage path reads)
      fun _ => id
  · rintro node ⟨present, found, heard⟩
    rw [obtainWatched, get?_enlist] at found
    split at found
    · next same => exact Or.inr same
    · exact Or.inl (obtains.audience.followed ⟨present, found, heard⟩)

omit attentive in
/-- A new subscriber has its node calculated. -/
theorem minds_watch {stat : Stat} {stage : Stage} {path : Path} {reads : List Reading}
    (resolved : stat.isResolved) (within : stat.HeadWithin vocabulary)
    (route : path.Within vocabulary) (readings : ∀ reading ∈ reads, reading.Within vocabulary) :
    graph.Minds ((graph.obtainWatched stat stage path reads).settle
      (graph.obtain stat stage path).1) := by
  have watched : (graph.obtainWatched stat stage path reads).Intact vocabulary :=
    intact_obtainWatched intact resolved within route readings
  have explores : Explores vocabulary (graph.obtainWatched stat stage path reads) _ :=
    explores_settleWatched intact resolved within route readings
  exact (minds_obtainWatched faithful intact.toSound stage reads resolved within route).1.trans
    (explores.minds faithful hushed watched.toSound)

theorem attentive_watch {stat : Stat} {stage : Stage} {path : Path} {reads : List Reading}
    (resolved : stat.isResolved) (within : stat.HeadWithin vocabulary)
    (route : path.Within vocabulary) (readings : ∀ reading ∈ reads, reading.Within vocabulary) :
    ((graph.obtainWatched stat stage path reads).settle (graph.obtain stat stage path).1).Attentive := by
  intro node followed
  have watched : (graph.obtainWatched stat stage path reads).Intact vocabulary :=
    intact_obtainWatched intact resolved within route readings
  have explores : Explores vocabulary (graph.obtainWatched stat stage path reads) _ :=
    explores_settleWatched intact resolved within route readings
  have before := (explores.advances watched.toResting).grows.toExtends.followed followed
  rcases (minds_obtainWatched faithful intact.toSound stage reads resolved within route).2 node
    before with already | rfl
  · exact (minds_watch faithful hushed intact resolved within route readings).tended
      (already.staged intact) (attentive node already)
  · exact tended_settle faithful hushed watched
      (staged_obtainWatched intact.toResting resolved within route reads)

omit hushed attentive in
theorem minds_watchRoster {stat : Stat} {form : Form} {path : Path}
    (within : stat.HeadWithin vocabulary) (route : path.Within vocabulary) :
    graph.Minds (graph.subscribeRoster stat form path).2 ∧
      ∀ node, (graph.subscribeRoster stat form path).2.Followed node → graph.Followed node := by
  rw [subscribeRoster_eq]
  split
  · next resolved =>
    have opens := turns_ensurePipeline intact.toSound resolved within
    have ready := intact_ensurePipeline intact resolved within
    have formed := (intact_newSubscription ready
      (.slot ⟨stat.id, form, (path.at form.stage).id⟩)).formed
    have numbers : (graph.ensurePipeline stat).Minds ((graph.ensurePipeline stat).newSubscription
        (.slot ⟨stat.id, form, (path.at form.stage).id⟩)).2 :=
      .of_shape ready.formed rfl rfl rfl fun _ => id
    refine ⟨((Minds.of_turn faithful opens).trans numbers).trans
      (minds_refit formed fun pipeline here => ?_), fun node followed => ?_⟩
    · exact refits_seated (ready.formed.pipelines stat.id pipeline here) form _ route
    · have before : (graph.ensurePipeline stat).Followed node := followed
      exact opens.audience.followed before
  · exact ⟨.refl graph, fun _ => id⟩

omit faithful hushed attentive in
theorem minds_unwatch (id : SubscriptionId) :
    graph.Minds (graph.unsubscribe id).2 ∧
      ∀ node, (graph.unsubscribe id).2.Followed node → graph.Followed node := by
  unfold unsubscribe
  split
  · exact ⟨.refl graph, fun _ followed => followed⟩
  · split
    · next node _ =>
      show graph.Minds (graph.strike id node) ∧
        ∀ other, (graph.strike id node).Followed other → graph.Followed other
      refine ⟨.of_alters intact.formed (graph.alters_strike id node) fun _ waits => waits, ?_⟩
      · rintro other ⟨present, found, heard⟩
        rw [get?_strike] at found
        split at found
        · obtain ⟨before, there, rfl⟩ := Option.map_eq_some_iff.mp found
          refine ⟨before, there, fun silent => heard ?_⟩
          simp only [silent, List.filter_nil]
        · exact ⟨present, found, heard⟩
    · next slot _ =>
      let ended : Graph := { graph with subscriptions := graph.subscriptions.erase id }
      have ends : graph.Minds ended := .of_shape intact.formed rfl rfl rfl fun _ waits => waits
      have formed : ended.WellFormed vocabulary :=
        intact.formed.of_shape (show ended.shape = graph.shape from rfl)
      refine ⟨ends.trans (minds_refit formed fun pipeline here => ?_), fun _ followed => followed⟩
      exact refits_unseated (intact.formed.pipelines slot.stat pipeline here) slot.form id slot.path

omit attentive in
/-- Every stir is mindful. -/
theorem minds_stir (stir : Stir vocabulary graph other) : graph.Minds other := by
  have formed := intact.formed
  cases stir with
  | explore explores => exact explores.minds faithful hushed intact.toSound
  | deepen depth => exact .of_shape formed rfl rfl rfl fun _ => id
  | register registered => exact .of_shape formed rfl rfl rfl fun _ => id
  | watch resolved within route readings =>
      exact minds_watch faithful hushed intact resolved within route readings
  | watchRoster within route => exact (minds_watchRoster faithful intact within route).1
  | unwatch id => exact (minds_unwatch intact id).1

/-- Every stir keeps a graph attentive. -/
theorem attentive_stir (stir : Stir vocabulary graph other) : other.Attentive := by
  have minds := attentive.minds intact (minds_stir faithful hushed intact stir)
  cases stir with
  | explore explores => exact minds fun _ =>
      (explores.advances intact.toResting).grows.toExtends.followed
  | deepen depth => exact minds fun _ followed => followed
  | register registered => exact minds fun _ followed => followed
  | watch resolved within route readings =>
      exact attentive_watch faithful hushed intact attentive resolved within route readings
  | watchRoster within route => exact minds (minds_watchRoster faithful intact within route).2
  | unwatch id => exact minds (minds_unwatch intact id).2

theorem attentive_move (move : Move vocabulary graph other) : other.Attentive := by
  cases move with
  | stir stir => exact attentive_stir faithful hushed intact attentive stir
  | flush announceRosters => exact attentive_flush faithful hushed intact attentive announceRosters
  | sweep rules => exact attentive_sweep rules intact attentive

end Moves

end Graph

namespace Sheet

open CharacterSheet.Graph

variable {vocabulary : Vocabulary} {sheet : Sheet} (closed : vocabulary.Closed)
  (faithful : vocabulary.Faithful) (hushed : vocabulary.Hushed)
include closed faithful hushed

/-- Every operation keeps a sheet attentive: modifiers come and go by turns, and all else is moves. -/
theorem attentive_apply (intact : sheet.graph.Intact vocabulary)
    (attentive : sheet.graph.Attentive) {operation : Operation}
    (within : operation.Within vocabulary) : (sheet.apply operation).graph.Attentive := by
  have keeps {graph other : Graph} (moves : Moves vocabulary graph other)
      (intact : graph.Intact vocabulary) (attentive : graph.Attentive) : other.Attentive := by
    induction moves with
    | refl => exact attentive
    | tail before move inductionHypothesis =>
        exact attentive_move faithful hushed (Moves.intact before intact) inductionHypothesis move
  obtain ⟨start, before, after⟩ := moves_apply closed intact within
  have began := before.intact intact
  obtain ⟨turns, -⟩ := turns_turnover closed began within
  exact keeps after (intact_turnover closed began within)
    ((keeps before intact attentive).minds began (.of_turn faithful turns)
      fun _ => turns.audience.followed)

theorem Reachable.attentive (reachable : Reachable vocabulary sheet) : sheet.graph.Attentive := by
  induction reachable with
  | new settings retention =>
      rintro node ⟨present, found, -⟩
      exact absurd found (by simp)
  | apply operation before within inductionHypothesis =>
      exact attentive_apply closed faithful hushed (before.intact closed) inductionHypothesis within

end Sheet

/-! ### Any operations on a new sheet -/

/-- The vocabulary in which no fault is swallowed, paths for what comes from a single stat have the
global source, and stats that are read inside of calculations carry no behaviors. -/
def Vocabulary.outward : Vocabulary where
  head stat := stat.ends?.isSome → stat.behaviors = []
  stat stat := stat.behaviors = []
  path path := path.convertedStat?.isSome → path.source = .global
  formula := Formula.Propagates
  behavior behavior := behavior.transform.Propagates
  main := PathOf.main_unconverted
  head_of_stat _ silent _ := silent

theorem Vocabulary.closed_outward : Vocabulary.outward.Closed where
  item _ converted := by simp [PathOf.convertedStat?] at converted
  convertedFrom _ _ _ := rfl
  linking _ silent linked := silent linked

theorem Vocabulary.faithful_outward : Vocabulary.outward.Faithful :=
  ⟨⟨fun _ heeds => heeds, fun _ heeds => heeds⟩, fun _ global => global⟩

theorem Vocabulary.hushed_outward : Vocabulary.outward.Hushed := fun _ within => within.stat

/-- After any operations in the course of which no calculation puts behaviors in force, a node with
subscribers has its value, or to calculate it gives a fault, or it waits to be announced. Outside of
any batch it waits only if behaviors came into force after the last announcement had begun. -/
theorem watched_nodes_never_forgotten (settings : Settings) (retention : Retention)
    (operations : List Operation) (within : ∀ operation ∈ operations, operation.Within .outward)
    (node : NodeId) (present : Node) :
    let sheet := Sheet.run { settings, retention } operations
    sheet.graph.nodes.get? node = some present → present.subscribers ≠ [] →
      (∃ value, present.cache = .ready value) ∨
        (∃ fault, (sheet.graph.valueOf node).1 = .error fault) ∨
          node ∈ sheet.graph.pending.nodes ∧
            (sheet.batchDepth = 0 → ∃ before entry after,
              sheet.graph.journal = before ++ entry :: after ∧
                entry.isRegistration = true ∧ ∀ later ∈ after, later.isFlush = false) := by
  intro sheet found watched
  have reachable : Sheet.Reachable .outward sheet :=
    Sheet.reachable_run (.new settings retention) within
  have intact := reachable.intact Vocabulary.closed_outward
  have tended : sheet.graph.Tended node := reachable.attentive Vocabulary.closed_outward
    Vocabulary.faithful_outward Vocabulary.hushed_outward node ⟨present, found, watched⟩
  rcases tended with ⟨value | _, bears⟩ | waits
  · right; left
    have fails := bears.answers Vocabulary.faithful_outward.propagating Vocabulary.hushed_outward
      intact.toResting
    cases answer : (sheet.graph.valueOf node).1 with
    | ok value =>
        rw [answer] at fails
        contradiction
    | error fault => exact ⟨fault, rfl⟩
  · left
    obtain ⟨same, there, ready⟩ := Graph.known_eq_some_iff.mp bears
    rw [found] at there
    cases there
    exact ⟨_, ready⟩
  · right; right
    refine ⟨waits, fun idle => ?_⟩
    rcases (Sheet.quiet_run Vocabulary.closed_outward reachable idle).2 with none | behaviors
    · rw [none] at waits
      exact absurd waits List.not_mem_nil
    · exact behaviors

/-- A total is watched, then the stat that sets it is read. -/
def settingPower : List Operation :=
  [.subscribe (.named "Power") .total .main [], .value aura .total .main]

theorem settingPower_within : ∀ operation ∈ settingPower, operation.Within .outward := by
  have power : (Stat.named "Power").Within .outward := by
    simp [Stat.named, Stat.plain, Stat.Within, Role.Within, BoundWithin, BehaviorsWithin,
      Vocabulary.outward]
  rintro operation (_ | ⟨_, _ | ⟨_, ⟨⟩⟩⟩)
  · exact ⟨power.headWithin, .main, fun _ none => absurd none List.not_mem_nil⟩
  · refine ⟨⟨fun linked => absurd linked (by decide), trivial, trivial, trivial, ?_⟩, .main⟩
    exact ⟨⟨aura_propagates _ List.mem_cons_self, trivial⟩, trivial⟩

theorem Graph.followed_of_cache {graph : Graph} {node : NodeId} {cache : Cache}
    (seen : (graph.nodes.get? node).any fun present =>
      !present.subscribers.isEmpty && present.cache == cache) :
    ∃ present, graph.nodes.get? node = some present ∧ present.subscribers ≠ [] ∧
      present.cache = cache := by
  obtain ⟨present, found, holds⟩ := (Option.any_eq_true ..).mp seen
  simp only [Bool.and_eq_true, Bool.not_eq_true', List.isEmpty_eq_false_iff, beq_iff_eq] at holds
  exact ⟨present, found, holds⟩

/-- The watched total is calculated anew when the behavior comes into force. -/
theorem power_never_forgotten :
    let sheet := Sheet.run {} settingPower
    ∃ node present, sheet.graph.nodes.get? node = some present ∧ present.subscribers ≠ [] ∧
      present.cache = .ready (some (.scalar 1)) ∧
        ((∃ value, present.cache = .ready value) ∨
          (∃ fault, (sheet.graph.valueOf node).1 = .error fault) ∨
            node ∈ sheet.graph.pending.nodes ∧
              (sheet.batchDepth = 0 → ∃ before entry after,
                sheet.graph.journal = before ++ entry :: after ∧
                  entry.isRegistration = true ∧ ∀ later ∈ after, later.isFlush = false)) := by
  have never := watched_nodes_never_forgotten {} {} settingPower settingPower_within ⟨0⟩
  have seen : ((Sheet.run {} settingPower).graph.nodes.get? ⟨0⟩).any fun present =>
      !present.subscribers.isEmpty && present.cache == .ready (some (.scalar 1)) := by
    decide +kernel
  obtain ⟨present, found, heard, ready⟩ := Graph.followed_of_cache seen
  exact ⟨⟨0⟩, present, found, heard, ready, never present found heard⟩

/-- A followed node without a value that answers one. -/
theorem Graph.forgotten_of_answer {graph : Graph} {node : NodeId}
    (seen : (graph.nodes.get? node).any fun present =>
      !present.subscribers.isEmpty && present.cache == .stale)
    (answers : (graph.valueOf node).1.toBool = true) :
    ¬ ∀ present, graph.nodes.get? node = some present → present.subscribers ≠ [] →
      (∃ value, present.cache = .ready value) ∨ ∃ fault, (graph.valueOf node).1 = .error fault := by
  intro settled
  obtain ⟨present, found, heard, stale⟩ := followed_of_cache seen
  rcases settled present found heard with ⟨value, ready⟩ | ⟨fault, fails⟩
  · rw [stale] at ready
    contradiction
  · rw [fails] at answers
    contradiction

/-- A watched total that read a stat before another read put a behavior on it in force is left
without a value. -/
theorem reader_forgotten : ¬ ∀ settings retention operations,
    (∀ operation ∈ operations, operation.Within .heeding) →
      let sheet := Sheet.run { settings, retention } operations
      sheet.batchDepth = 0 → ∀ node present, sheet.graph.nodes.get? node = some present →
        present.subscribers ≠ [] → (∃ value, present.cache = .ready value) ∨
          ∃ fault, (sheet.graph.valueOf node).1 = .error fault := by
  intro settled
  have early := settled {} {} [.add auraReader, .subscribe (.named "Reader") .total .main []] (by
    rintro operation (_ | ⟨_, _ | ⟨_, ⟨⟩⟩⟩)
    · exact auraReader_within_bounding aura_propagates auraReader_propagates
    · exact ⟨(named_within_bounding _).headWithin, .main, fun _ none => absurd none List.not_mem_nil⟩)
    (by decide +kernel) ⟨7⟩
  exact Graph.forgotten_of_answer (by decide +kernel) (by decide +kernel) early

end CharacterSheet
