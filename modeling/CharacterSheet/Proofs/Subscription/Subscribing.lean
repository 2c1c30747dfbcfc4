import CharacterSheet.Proofs.Change.Integrity

/-!
Contract: subscribing and unsubscribing leave a graph intact.

Owns:
- a pipeline in which one roster is replaced by one with the same members;
- a new subscriber of a node, and a new subscriber of a roster;
- the end of either subscription.
-/

namespace CharacterSheet

theorem Table.modify_of_present {κ α : Type} [DecidableEq κ] {table : Table κ α} {key : κ}
    {value : α} (found : table.get? key = some value) (change : α → α) :
    table.modify key change = table.insert key (change value) := by
  obtain ⟨entries, distinct⟩ := table
  have general : changeIn (decide <| · = key) change entries =
      putIn key (change value) entries := by
    induction entries with
    | nil => contradiction
    | cons entry rest inductionHypothesis =>
        obtain ⟨absent, restDistinct⟩ := List.nodup_cons.mp distinct
        by_cases own : entry.1 = key
        · subst own
          have kept : changeIn (decide <| · = entry.1) change rest = rest := by
            refine List.map_congr_left (fun other member => if_neg ?_) |>.trans (List.map_id' rest)
            rw [decide_eq_true_eq]
            exact fun same => absent (same ▸ List.mem_map_of_mem member)
          simp only [get?, findIn, ↓reduceIte, Option.some.injEq] at found
          subst found
          simpa [changeIn, putIn] using kept
        · simp only [get?, findIn, own, ↓reduceIte] at found
          simpa [changeIn, putIn, own] using inductionHypothesis restDistinct found
  simp only [modify, modifyWhere, insert, general]

theorem Table.modify_of_absent {κ α : Type} [DecidableEq κ] {table : Table κ α} {key : κ}
    (absent : table.get? key = none) (change : α → α) : table.modify key change = table := by
  obtain ⟨entries, distinct⟩ := table
  have kept : changeIn (decide <| · = key) change entries = entries := by
    refine List.map_congr_left (fun other member => if_neg ?_) |>.trans (List.map_id' entries)
    rw [decide_eq_true_eq]
    rintro rfl
    have present := (get?_eq_some_iff ⟨entries, distinct⟩ other.1 other.2).mpr member
    rw [absent] at present
    contradiction
  simp only [modify, modifyWhere, kept]

namespace Graph

variable {vocabulary : Vocabulary} {graph : Graph}

/-! ### One roster replaced -/

section Replacing

variable {modifiers : Table ModifierId Modifier} {stat : StatId} {pipeline : Pipeline}

theorem Refits.refl (formed : pipeline.WellFormed vocabulary modifiers stat) :
    Refits vocabulary modifiers stat pipeline pipeline.slots :=
  ⟨formed.slots, fun _ _ => rfl, rfl⟩

/-- A roster may be replaced by one with the same members. -/
theorem refits_insert (formed : pipeline.WellFormed vocabulary modifiers stat) {form : Form}
    {path : PathId} {slot : Slot} (fits : slot.WellFormed vocabulary modifiers stat form path)
    (missing : pipeline.slots.get? (form, path) = none → slot.roster.members = [])
    (same : ∀ old, pipeline.slots.get? (form, path) = some old →
      slot.roster.members = old.roster.members ∧ slot.path = old.path) :
    Refits vocabulary modifiers stat pipeline (pipeline.slots.insert (form, path) slot) where
  formed := by
    intro other place present found
    rw [Table.get?_insert] at found
    split at found
    · next equal =>
      cases equal
      cases found
      exact fits
    · exact formed.slots other place present found
  members := by
    intro other place
    simp only [Pipeline.members, Table.get?_insert]
    by_cases own : (other, place) = (form, path)
    · cases own
      rw [if_pos rfl]
      cases old : pipeline.slots.get? (form, path) with
      | none => exact missing old
      | some before => exact (same before old).1
    · rw [if_neg own]
  filled := by
    apply Table.filterMap_insert
    cases old : pipeline.slots.get? (form, path) with
    | none => simp [missing old]
    | some before => simp [(same before old).1, (same before old).2]

end Replacing

/-! ### New subscriptions -/

/-- The number of a new subscription is not in use. -/
theorem Watched.fresh (watched : graph.Watched vocabulary) {id : SubscriptionId} {target : Target}
    (listed : graph.subscriptions.get? id = some target) : id ≠ ⟨graph.lastSubscription + 1⟩ := by
  rintro rfl
  have bounded := watched.numbered _ target listed
  simp only at bounded
  omega

theorem intact_newSubscription (intact : graph.Intact vocabulary) (target : Target) :
    (graph.newSubscription target).2.Intact vocabulary where
  toSound := intact.toSound.of_view rfl rfl (fun _ => rfl) rfl rfl
  wired := intact.wired.keep (fun _ _ feeds => feeds) (fun _ _ _ => ⟨rfl, rfl⟩)
    fun _ _ _ _ _ _ => (enrolls_of_shape rfl).mpr
  watched :=
    { intact.watched with
      enlisted := by
        intro node present found subscriber member
        obtain ⟨listed, reads⟩ := intact.watched.enlisted node present found subscriber member
        exact ⟨(Table.get?_insert_other _ (intact.watched.fresh listed) _).trans listed, reads⟩
      numbered := by
        intro id other listed
        show id.number ≤ graph.lastSubscription + 1
        rw [newSubscription, Table.get?_insert] at listed
        split at listed
        · next same =>
          subst same
          exact Nat.le_refl _
        · exact Nat.le_succ_of_le (intact.watched.numbered id other listed) }

/-! ### Subscribing to a node -/

/-- List a subscriber at a node. -/
def enlist (graph : Graph) (node : NodeId) (subscriber : Subscriber) : Graph :=
  graph.modifyNode node fun old => { old with subscribers := old.subscribers ++ [subscriber] }

theorem get?_enlist (graph : Graph) (node other : NodeId) (subscriber : Subscriber) :
    (graph.enlist node subscriber).nodes.get? other =
      if other = node then
        (graph.nodes.get? other).map fun old =>
          { old with subscribers := old.subscribers ++ [subscriber] }
      else graph.nodes.get? other :=
  graph.nodes.get?_modify _ _ _

theorem shape_enlist (graph : Graph) (node : NodeId) (subscriber : Subscriber) :
    (graph.enlist node subscriber).shape = graph.shape :=
  shape_modifyNode _ node fun _ => rfl

theorem alters_enlist (graph : Graph) (node : NodeId) (subscriber : Subscriber) :
    graph.Alters (graph.enlist node subscriber) Clean Clean := by
  refine .of_shape (graph.shape_enlist node subscriber) rfl (funext fun other => ?_)
  rw [known, known, get?_enlist]
  split
  · cases graph.nodes.get? other <;> rfl
  · rfl

section Enlisting

variable {node : NodeId} {subscriber : Subscriber} (staged : graph.Staged node)
  (listed : graph.subscriptions.get? subscriber.id = some (.node node))
  (new : ∀ present, graph.nodes.get? node = some present →
    subscriber.id ∉ present.subscribers.map (·.id))
  (within : ∀ reading ∈ subscriber.reads, reading.Within vocabulary)
include staged listed new within

theorem Watched.enlist (watched : graph.Watched vocabulary) :
    (graph.enlist node subscriber).Watched vocabulary where
  attended := by
    intro other present found some
    rw [Staged, addressOf?_of_shape (graph.shape_enlist node subscriber)]
    by_cases same : other = node
    · exact same ▸ staged
    · rw [get?_enlist, if_neg same] at found
      exact watched.attended other present found some
  enlisted := by
    intro other present found reader member
    rw [get?_enlist] at found
    split at found
    · next same =>
      rw [Option.map_eq_some_iff] at found
      obtain ⟨old, before, rfl⟩ := found
      rcases List.mem_append.mp member with earlier | added
      · exact watched.enlisted other old before reader earlier
      · rw [List.mem_singleton.mp added, same]
        exact ⟨listed, within⟩
    · exact watched.enlisted other present found reader member
  distinct := by
    intro other present found
    rw [get?_enlist] at found
    split at found
    · next same =>
      rw [Option.map_eq_some_iff] at found
      obtain ⟨old, before, rfl⟩ := found
      rw [List.map_append, List.map_singleton, List.nodup_append]
      refine ⟨watched.distinct other old before, by simp, ?_⟩
      intro id member added single
      rw [List.mem_singleton.mp single]
      rintro rfl
      exact new old (same ▸ before) member
    · exact watched.distinct other present found
  numbered := watched.numbered
  once := watched.once

theorem intact_enlist (intact : graph.Intact vocabulary) :
    (graph.enlist node subscriber).Intact vocabulary := by
  have shape := graph.shape_enlist node subscriber
  refine ⟨intact.toSound.of_view shape rfl (fun other => ?_) rfl rfl, ?_,
    intact.watched.enlist staged listed new within⟩
  · rw [get?_enlist]
    split
    · cases graph.nodes.get? other <;> rfl
    · rfl
  · refine intact.wired.keep (fun _ _ feeds => feeds) (fun _ _ _ => ?_) fun _ _ _ _ _ _ =>
      (enrolls_of_shape shape).mpr
    rw [addressOf?_of_shape shape]
    exact ⟨rfl, rfl⟩

end Enlisting

/-- An obtained node is the node of a stage. -/
theorem staged_obtain (resting : graph.Resting vocabulary) {stat : Stat} {stage : Stage}
    {path : Path} (resolved : stat.isResolved) (within : stat.HeadWithin vocabulary)
    (route : path.Within vocabulary) :
    (graph.obtain stat stage path).2.Staged (graph.obtain stat stage path).1 := by
  have grown := (graph.explores_obtain resolved stage within route).resting resting
  obtain ⟨full, address, _⟩ := grown.formed.address_of_node?
    (node?_obtain resting.formed resting.stacked resolved within route)
  exact ⟨_, _, full, address⟩

/-- A node that was obtained, with a new subscriber. -/
def obtainWatched (graph : Graph) (stat : Stat) (stage : Stage) (path : Path)
    (reads : List Reading) : Graph :=
  let grown := (graph.obtain stat stage path).2
  let node := (graph.obtain stat stage path).1
  (grown.newSubscription (.node node)).2.enlist node
    { id := ⟨grown.lastSubscription + 1⟩, reads }

theorem alters_obtainWatched (graph : Graph) (stat : Stat) (stage : Stage) (path : Path)
    (reads : List Reading) : (graph.obtain stat stage path).2.Alters
      (graph.obtainWatched stat stage path reads) Clean Clean := by
  have numbered : (graph.obtain stat stage path).2.Alters ((graph.obtain stat stage path).2.newSubscription
      (.node (graph.obtain stat stage path).1)).2 Clean Clean := .of_shape rfl rfl rfl
  exact numbered.clean_trans (alters_enlist _ _ _)

theorem subscribe_eq (graph : Graph) (stat : Stat) (stage : Stage) (path : Path)
    (reads : List Reading) :
    graph.subscribe stat stage path reads =
      if stat.isResolved then
        (.ok ⟨(graph.obtain stat stage path).2.lastSubscription + 1⟩,
          (graph.obtainWatched stat stage path reads).settle (graph.obtain stat stage path).1)
      else (.error (.unresolvedReference stat.id), graph) := by
  unfold subscribe obtain?
  by_cases resolved : stat.isResolved = true
  · simp only [resolved, ↓reduceIte]
    rfl
  · simp only [resolved, Bool.false_eq_true, ↓reduceIte]

theorem staged_obtainWatched (resting : graph.Resting vocabulary) {stat : Stat} {stage : Stage}
    {path : Path} (resolved : stat.isResolved) (within : stat.HeadWithin vocabulary)
    (route : path.Within vocabulary) (reads : List Reading) :
    (graph.obtainWatched stat stage path reads).Staged (graph.obtain stat stage path).1 := by
  obtain ⟨own, level, place, address⟩ :
      (graph.obtain stat stage path).2.Staged (graph.obtain stat stage path).1 :=
    staged_obtain resting resolved within route
  refine ⟨own, level, place, ?_⟩
  rw [obtainWatched, addressOf?_of_shape (shape_enlist _ _ _)]
  exact address

theorem intact_obtainWatched (intact : graph.Intact vocabulary) {stat : Stat} {stage : Stage}
    {path : Path} {reads : List Reading} (resolved : stat.isResolved)
    (within : stat.HeadWithin vocabulary) (route : path.Within vocabulary)
    (readings : ∀ reading ∈ reads, reading.Within vocabulary) :
    (graph.obtainWatched stat stage path reads).Intact vocabulary := by
  have grown := intact.explore (graph.explores_obtain resolved stage within route)
  refine intact_enlist (staged_obtain intact.toResting resolved within route)
    (Table.get?_insert_self _ _ _) ?_ readings (intact_newSubscription grown _)
  intro present found member
  obtain ⟨earlier, inside, same⟩ := List.mem_map.mp member
  exact grown.watched.fresh (grown.watched.enlisted _ present found earlier inside).1 same

/-! ### Subscribing to a roster -/

/-- The rosters of a pipeline with a subscription listed at one of them, which is made if it is
missing. -/
def seated (pipeline : Pipeline) (form : Form) (place : Path) (id : SubscriptionId) :
    Table (Form × PathId) Slot :=
  let slot := (pipeline.slots.get? (form, place.id)).getD { path := place }
  let roster := { slot.roster with subscribers := slot.roster.subscribers ++ [id] }
  pipeline.slots.insert (form, place.id) { slot with roster }

theorem subscribeRoster_eq (graph : Graph) (stat : Stat) (form : Form) (path : Path) :
    graph.subscribeRoster stat form path =
      if stat.isResolved then
        let place := path.at form.stage
        let ready := graph.ensurePipeline stat
        let id : SubscriptionId := ⟨ready.lastSubscription + 1⟩
        (.ok id, (ready.newSubscription (.slot ⟨stat.id, form, place.id⟩)).2.modifyPipeline stat.id
          fun pipeline => { pipeline with slots := seated pipeline form place id })
      else (.error (.unresolvedReference stat.id), graph) := by
  unfold subscribeRoster
  split <;> rfl

/-- The rosters of a pipeline with a subscription taken out of one of them. -/
def unseated (pipeline : Pipeline) (form : Form) (path : PathId) (id : SubscriptionId) :
    Table (Form × PathId) Slot :=
  pipeline.slots.modify (form, path) fun old =>
    { old with
      roster := { old.roster with subscribers := old.roster.subscribers.filter (· ≠ id) } }

section Seats

variable {modifiers : Table ModifierId Modifier} {stat : StatId} {pipeline : Pipeline}
  (formed : pipeline.WellFormed vocabulary modifiers stat) (form : Form) (id : SubscriptionId)
include formed

theorem refits_seated {path : Path} (route : path.Within vocabulary) :
    Refits vocabulary modifiers stat pipeline (seated pipeline form (path.at form.stage) id) := by
  refine refits_insert formed ?_ ?_ ?_
  · cases there : pipeline.slots.get? (form, (path.at form.stage).id) with
    | none =>
        exact ⟨rfl, by rw [← PathOf.id_at, PathOf.at_at], route.at form.stage, List.nodup_nil,
          by simp⟩
    | some slot =>
        have fits := formed.slots _ _ slot there
        exact ⟨fits.path_id, fits.place, fits.within, fits.distinct, fits.enrolled⟩
  · intro missing
    rw [missing]
    rfl
  · intro old there
    rw [there]
    exact ⟨rfl, rfl⟩

theorem refits_unseated (path : PathId) :
    Refits vocabulary modifiers stat pipeline (unseated pipeline form path id) := by
  unfold unseated
  cases there : pipeline.slots.get? (form, path) with
  | none =>
      rw [Table.modify_of_absent there]
      exact .refl formed
  | some old =>
      have fits := formed.slots _ _ old there
      rw [Table.modify_of_present there]
      refine refits_insert formed
        ⟨fits.path_id, fits.place, fits.within, fits.distinct, fits.enrolled⟩ ?_ ?_
      · intro missing
        rw [there] at missing
        contradiction
      · intro other found
        rw [there] at found
        cases found
        exact ⟨rfl, rfl⟩

end Seats

section Refitting

/-- New rosters for a pipeline, if it is there. -/
theorem refit_cases (graph : Graph) (stat : StatId) (slots : Pipeline → Table (Form × PathId) Slot) :
    (graph.modifyPipeline stat fun old => { old with slots := slots old }) = graph ∨
      ∃ pipeline, graph.pipelines.get? stat = some pipeline ∧
        (graph.modifyPipeline stat fun old => { old with slots := slots old }) =
          graph.reslot stat (slots pipeline) := by
  cases here : graph.pipelines.get? stat with
  | none => exact Or.inl (by rw [modifyPipeline, Table.modify_of_absent here])
  | some pipeline =>
      have same : (graph.pipelines.modify stat fun old => { old with slots := slots old }) =
          graph.pipelines.modify stat fun old => { old with slots := slots pipeline } :=
        (Table.modify_of_found here _).trans
          (Table.modify_of_found here fun old => { old with slots := slots pipeline }).symm
      exact Or.inr ⟨pipeline, rfl, by rw [modifyPipeline, same, reslot, modifyPipeline]⟩

variable {stat : StatId} {slots : Pipeline → Table (Form × PathId) Slot}
  (refits : ∀ pipeline, graph.pipelines.get? stat = some pipeline →
    Refits vocabulary graph.modifiers stat pipeline (slots pipeline))
include refits

theorem Intact.refit (intact : graph.Intact vocabulary) :
    (graph.modifyPipeline stat fun old => { old with slots := slots old }).Intact vocabulary := by
  rcases graph.refit_cases stat slots with same | ⟨pipeline, here, same⟩
  · rwa [same]
  · rw [same]
    exact Intact.reslot here (refits pipeline here) intact

theorem alters_refit (formed : graph.WellFormed vocabulary) :
    graph.Alters (graph.modifyPipeline stat fun old => { old with slots := slots old })
      Clean Clean := by
  rcases graph.refit_cases stat slots with same | ⟨pipeline, here, same⟩
  · rw [same]
    exact .of_shape rfl rfl rfl
  · rw [same]
    exact alters_reslot here (refits pipeline here) formed

/-- The members of all rosters stay the same then. -/
theorem members_refit (own : StatId) (form : Form) (path : PathId) :
    (graph.modifyPipeline stat fun old => { old with slots := slots old }).members own form path =
      graph.members own form path := by
  rcases graph.refit_cases stat slots with same | ⟨pipeline, here, same⟩
  · rw [same]
  · rw [same]
    exact members_reslot here (refits pipeline here) own form path

theorem filled_refit (own : StatId) :
    (graph.modifyPipeline stat fun old => { old with slots := slots old }).filled own =
      graph.filled own := by
  rcases graph.refit_cases stat slots with same | ⟨pipeline, here, same⟩
  · rw [same]
  · rw [same]
    exact filled_reslot here (refits pipeline here) own

end Refitting

theorem intact_subscribeRoster (intact : graph.Intact vocabulary) {stat : Stat} {form : Form}
    {path : Path} (within : stat.HeadWithin vocabulary) (route : path.Within vocabulary) :
    (graph.subscribeRoster stat form path).2.Intact vocabulary := by
  rw [subscribeRoster_eq]
  split
  · next resolved =>
    have ready := intact_ensurePipeline intact resolved within
    refine Intact.refit (fun pipeline here => ?_) (intact_newSubscription ready _)
    exact refits_seated (ready.formed.pipelines _ pipeline here) form _ route
  · exact intact

/-! ### Unsubscribing -/

/-- Take a subscription out of the table and its subscriber out of its node. -/
def strike (graph : Graph) (id : SubscriptionId) (node : NodeId) : Graph :=
  { graph with subscriptions := graph.subscriptions.erase id }.modifyNode node fun old =>
    { old with subscribers := old.subscribers.filter (·.id ≠ id) }

theorem get?_strike (graph : Graph) (id : SubscriptionId) (node other : NodeId) :
    (graph.strike id node).nodes.get? other =
      if other = node then
        (graph.nodes.get? other).map fun old =>
          { old with subscribers := old.subscribers.filter (·.id ≠ id) }
      else graph.nodes.get? other :=
  graph.nodes.get?_modify _ _ _

theorem shape_strike (graph : Graph) (id : SubscriptionId) (node : NodeId) :
    (graph.strike id node).shape = graph.shape :=
  shape_modifyNode _ node fun _ => rfl

theorem alters_strike (graph : Graph) (id : SubscriptionId) (node : NodeId) :
    graph.Alters (graph.strike id node) Clean Clean := by
  refine .of_shape (graph.shape_strike id node) rfl (funext fun other => ?_)
  rw [known, known, get?_strike]
  split
  · cases graph.nodes.get? other <;> rfl
  · rfl

/-- No other node has a subscriber of a subscription that is listed under one node. -/
theorem Watched.strike (watched : graph.Watched vocabulary) {id : SubscriptionId} {node : NodeId}
    (listed : graph.subscriptions.get? id = some (.node node)) :
    (graph.strike id node).Watched vocabulary := by
  have before {other : NodeId} {present : Node}
      (found : (graph.strike id node).nodes.get? other = some present) :
      ∃ old, graph.nodes.get? other = some old ∧
        present.subscribers.Sublist old.subscribers ∧
          ∀ subscriber ∈ present.subscribers, subscriber.id ≠ id := by
    rw [get?_strike] at found
    split at found
    · rw [Option.map_eq_some_iff] at found
      obtain ⟨old, there, rfl⟩ := found
      exact ⟨old, there, List.filter_sublist, fun subscriber member => by
        simpa using (List.mem_filter.mp member).2⟩
    · next apart =>
      refine ⟨present, found, .refl _, ?_⟩
      rintro subscriber member rfl
      have own := (watched.enlisted other present found subscriber member).1
      rw [listed] at own
      cases own
      exact apart rfl
  constructor
  · intro other present found some
    obtain ⟨old, there, fewer, _⟩ := before found
    rw [Staged, addressOf?_of_shape (graph.shape_strike id node)]
    refine watched.attended other old there ?_
    rintro none
    rw [none] at fewer
    exact some (List.sublist_nil.mp fewer)
  · intro other present found subscriber member
    obtain ⟨old, there, fewer, apart⟩ := before found
    obtain ⟨enlisted, reads⟩ := watched.enlisted other old there subscriber (fewer.subset member)
    refine ⟨?_, reads⟩
    show (graph.subscriptions.erase id).get? _ = _
    rw [Table.get?_erase, if_neg (apart subscriber member)]
    exact enlisted
  · intro other present found
    obtain ⟨old, there, fewer, _⟩ := before found
    exact (watched.distinct other old there).sublist (fewer.map _)
  · intro other target enlisted
    rw [show (graph.strike id node).subscriptions = graph.subscriptions.erase id from rfl,
      Table.get?_erase] at enlisted
    split at enlisted
    · contradiction
    · exact watched.numbered other target enlisted
  · exact watched.once

/-- The end of a subscription changes nothing that nodes calculate. -/
theorem alters_unsubscribe (formed : graph.WellFormed vocabulary) (id : SubscriptionId) :
    graph.Alters (graph.unsubscribe id).2 Clean Clean := by
  unfold unsubscribe
  split
  · exact .of_shape rfl rfl rfl
  · split
    · next node _ => exact graph.alters_strike id node
    · next slot _ =>
      have ends : graph.Alters { graph with subscriptions := graph.subscriptions.erase id }
          Clean Clean := .of_shape rfl rfl rfl
      have ended : ({ graph with subscriptions := graph.subscriptions.erase id } : Graph).WellFormed
          vocabulary := formed.of_shape (show _ = graph.shape from rfl)
      exact ends.clean_trans (alters_refit (fun pipeline here =>
        refits_unseated (ended.pipelines slot.stat pipeline here) slot.form id slot.path) ended)

theorem intact_unsubscribe (intact : graph.Intact vocabulary) (id : SubscriptionId) :
    (graph.unsubscribe id).2.Intact vocabulary := by
  unfold unsubscribe
  cases listed : graph.subscriptions.get? id with
  | none => exact intact
  | some target =>
      cases target with
      | node node =>
          have shape := graph.shape_strike id node
          refine ⟨intact.toSound.of_view shape rfl (fun other => ?_) rfl rfl, ?_,
            intact.watched.strike listed⟩
          · show ((graph.strike id node).nodes.get? other).map _ = _
            rw [get?_strike]
            split
            · cases graph.nodes.get? other <;> rfl
            · rfl
          · refine intact.wired.keep (fun _ _ feeds => feeds) (fun _ _ _ => ?_)
              fun _ _ _ _ _ _ => (enrolls_of_shape shape).mpr
            show (graph.strike id node).addressOf? _ = _ ∧ (graph.strike id node).addressOf? _ = _
            rw [addressOf?_of_shape shape]
            exact ⟨rfl, rfl⟩
      | slot slot =>
          refine Intact.refit
            (fun pipeline here => refits_unseated (intact.formed.pipelines _ pipeline here) _ _ _) ?_
          -- No node has a subscriber of this subscription, since it is listed under a roster.
          have apart {node : NodeId} {present : Node} (found : graph.nodes.get? node = some present)
              {subscriber : Subscriber} (member : subscriber ∈ present.subscribers) :
              subscriber.id ≠ id := by
            rintro rfl
            rw [(intact.watched.enlisted node present found subscriber member).1] at listed
            cases listed
          refine ⟨intact.toSound.of_view rfl rfl (fun _ => rfl) rfl rfl,
            intact.wired.keep (fun _ _ feeds => feeds) (fun _ _ _ => ⟨rfl, rfl⟩)
              fun _ _ _ _ _ _ => (enrolls_of_shape rfl).mpr, ?_⟩
          refine { intact.watched with enlisted := ?_, numbered := ?_ }
          · intro node present found subscriber member
            obtain ⟨enlisted, reads⟩ :=
              intact.watched.enlisted node present found subscriber member
            refine ⟨?_, reads⟩
            rw [Table.get?_erase, if_neg (apart found member)]
            exact enlisted
          · intro other target enlisted
            rw [Table.get?_erase] at enlisted
            split at enlisted
            · contradiction
            · exact intact.watched.numbered other target enlisted

end Graph
end CharacterSheet
