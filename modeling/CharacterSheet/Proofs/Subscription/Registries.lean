import CharacterSheet.Proofs.Membership.Accounting
import CharacterSheet.Proofs.Subscription.Seating
import Mathlib.Data.List.Forall2

/-!
Contract: subscriptions last from the answer that hands them out to the one that ends them.

Owns:
- the registry of a run: which subscriptions its answers handed out, on what, and which they ended;
- graphs in which the subscribers of each node and of each roster are those that the table of
  subscriptions lists for it, in the order in which they came;
- after any run, the table and the lists are those of the registry; to end a live subscription takes
  this one out and nothing else, and to end any other changes nothing.

A subscriber of a node is in the list of the node and in the table, and in neither more than once.
-/

namespace CharacterSheet

/-! ### Registries -/

/-- What a subscription is about, by name. -/
inductive Topic where
  | node (name : NodeName)
  | roster (slot : SlotId)
deriving DecidableEq, Repr

/-- The subscriptions of a run, as its answers tell. -/
structure Registry where
  /-- The subscriptions that were handed out, in order. -/
  handed : List SubscriptionId := []
  /-- Those of them that have not been ended, with what they are about. -/
  live : List (SubscriptionId × Topic) := []
  /-- Those that have been ended, in order. -/
  ended : List SubscriptionId := []
deriving DecidableEq, Repr

namespace Registry

/-- A subscription is handed out. -/
def hand (registry : Registry) (id : SubscriptionId) (topic : Topic) : Registry :=
  { registry with
    handed := registry.handed ++ [id]
    live := registry.live ++ [(id, topic)] }

/-- A subscription is ended. -/
def strike (registry : Registry) (id : SubscriptionId) : Registry :=
  { registry with
    live := registry.live.filter (·.1 ≠ id)
    ended := registry.ended ++ [id] }

/-- The live subscriptions, in the order in which they were handed out. -/
def ids (registry : Registry) : List SubscriptionId := registry.live.map (·.1)

/-- The live subscriptions on a topic, in the order in which they were handed out. -/
def on (registry : Registry) (topic : Topic) : List SubscriptionId :=
  (registry.live.filter (·.2 = topic)).map (·.1)

/-- Take in the answer that a sheet gives to an operation. -/
def note (registry : Registry) (sheet : Sheet) : Operation → Registry
  | .subscribe stat stage path reads =>
      match (sheet.subscribe stat stage path reads).1 with
      | .ok id => registry.hand id (.node (.ofStage stat.id stage path.id))
      | .error _ => registry
  | .subscribeRoster stat form path =>
      match (sheet.subscribeRoster stat form path).1 with
      | .ok id => registry.hand id (.roster ⟨stat.id, form, path.id.at form.stage⟩)
      | .error _ => registry
  | .unsubscribe id =>
      match (sheet.unsubscribe id).1 with
      | .ok _ => registry.strike id
      | .error _ => registry
  | _ => registry

/-- Unless an operation makes or ends a subscription, there is nothing to take in. -/
theorem note_aside (registry : Registry) (sheet : Sheet) {operation : Operation}
    (aside : operation.subscribes = false) : registry.note sheet operation = registry := by
  cases operation <;> first | rfl | cases aside

end Registry

/-- The registry after some operations on a sheet, one after the other. -/
def Sheet.registry (sheet : Sheet) (registry : Registry) : List Operation → Registry
  | [] => registry
  | operation :: rest => (sheet.apply operation).registry (registry.note sheet operation) rest

/-! ### Lists and tables -/

/-- Lists that correspond are filtered and named alike. -/
theorem map_filter_of_forall₂ {α β γ : Type} {related : α → β → Prop} {first : List α}
    {second : List β} (corresponds : List.Forall₂ related first second) {keep : α → Bool}
    {keeps : β → Bool} {name : α → γ} {names : β → γ}
    (same : ∀ item other, related item other → keep item = keeps other ∧ name item = names other) :
    (first.filter keep).map name = (second.filter keeps).map names := by
  induction corresponds with
  | nil => rfl
  | @cons item other rest more here _ inductionHypothesis =>
      obtain ⟨kept, named⟩ := same item other here
      cases keeping : keeps other with
      | true => simp only [List.filter_cons, kept, keeping, ↓reduceIte, List.map_cons, named,
          inductionHypothesis]
      | false => simp only [List.filter_cons, kept, keeping, Bool.false_eq_true, ↓reduceIte,
          inductionHypothesis]

/-- Each item of a list has a counterpart. -/
theorem exists_of_forall₂ {α β : Type} {related : α → β → Prop} {first : List α} {second : List β}
    (corresponds : List.Forall₂ related first second) {other : β} (member : other ∈ second) :
    ∃ item ∈ first, related item other := by
  induction corresponds with
  | nil => cases member
  | @cons item next rest more here _ inductionHypothesis =>
      rcases List.mem_cons.mp member with rfl | later
      · exact ⟨item, List.mem_cons_self, here⟩
      · obtain ⟨found, inside, there⟩ := inductionHypothesis later
        exact ⟨found, List.mem_cons_of_mem item inside, there⟩

namespace Table

variable {κ α : Type} [DecidableEq κ] {table : Table κ α}

/-- Changes that agree on the entries of a table change it alike. -/
theorem modifyWhere_congr {selects others : κ → Bool} {change changes : α → α}
    (same : ∀ key value, table.get? key = some value →
      (if selects key then change value else value) = if others key then changes value else value) :
    table.modifyWhere selects change = table.modifyWhere others changes := by
  rw [modifyWhere, modifyWhere, mk.injEq]
  refine List.map_congr_left fun entry member => ?_
  have equal := same entry.1 entry.2 ((table.get?_eq_some_iff _ _).mpr member)
  calc (if selects entry.1 then (entry.1, change entry.2) else entry)
      = (entry.1, if selects entry.1 then change entry.2 else entry.2) :=
        (apply_ite (Prod.mk entry.1) _ _ _).symm
    _ = (entry.1, if others entry.1 then changes entry.2 else entry.2) := by rw [equal]
    _ = if others entry.1 then (entry.1, changes entry.2) else entry :=
        apply_ite (Prod.mk entry.1) _ _ _

/-- A change that leaves each selected entry as it is leaves the table as it is. -/
theorem modifyWhere_unchanged {selects : κ → Bool} {change : α → α}
    (same : ∀ key value, selects key = true → table.get? key = some value → change value = value) :
    table.modifyWhere selects change = table := by
  obtain ⟨entries, distinct⟩ := table
  rw [modifyWhere, mk.injEq]
  refine (List.map_congr_left fun entry member => ?_).trans entries.map_id
  split
  · next selected =>
    rw [same entry.1 entry.2 selected ((get?_eq_some_iff _ _ _).mpr member), id_eq]
  · rfl

end Table

namespace Graph

variable {vocabulary : Vocabulary} {graph other : Graph} {registry : Registry}

/-- The subscriptions that the table lists for a target. -/
def holders (graph : Graph) (target : Target) : List SubscriptionId :=
  (graph.subscriptions.entries.filter (·.2 = target)).map (·.1)

theorem mem_holders_iff (graph : Graph) (target : Target) (id : SubscriptionId) :
    id ∈ graph.holders target ↔ graph.subscriptions.get? id = some target := by
  rw [Table.get?_eq_some_iff]
  simp [holders]

/-- The subscribers of each node and each roster are those that the table lists. -/
structure Agrees (graph : Graph) : Prop where
  readers : ∀ node, graph.readers node = graph.holders (.node node)
  rosters : ∀ slot, graph.rosterAudience slot = graph.holders (.slot slot)

theorem Agrees.keep (agrees : graph.Agrees) (same : graph.SameSeats other) : other.Agrees where
  readers := by
    intro node
    rw [same.readers, agrees.readers, holders, holders, same.subscriptions]
  rosters := by
    intro slot
    rw [same.rosters, agrees.rosters, holders, holders, same.subscriptions]

theorem Agrees.before (agrees : other.Agrees) (same : graph.SameSeats other) : graph.Agrees where
  readers := by
    intro node
    rw [← same.readers, agrees.readers, holders, holders, same.subscriptions]
  rosters := by
    intro slot
    rw [← same.rosters, agrees.rosters, holders, holders, same.subscriptions]

/-- A node that the table lists is there, with a subscriber. -/
theorem Agrees.followed (agrees : graph.Agrees) {id : SubscriptionId} {node : NodeId}
    (listed : graph.subscriptions.get? id = some (.node node)) : graph.Followed node :=
  followed_of_reader ((agrees.readers node).symm ▸ (graph.mem_holders_iff _ id).mpr listed)

/-- Whoever is in a list stands in the table under it. -/
theorem Agrees.listed (agrees : graph.Agrees) {id : SubscriptionId} {node : NodeId} {present : Node}
    (found : graph.nodes.get? node = some present) (inside : id ∈ present.subscribers.map (·.id)) :
    graph.subscriptions.get? id = some (.node node) := by
  rw [← mem_holders_iff, ← agrees.readers, Graph.readers, found]
  exact inside

theorem Agrees.seated (agrees : graph.Agrees) {id : SubscriptionId} {stat : StatId}
    {pipeline : Pipeline} {key : Form × PathId} {filled : Slot}
    (here : graph.pipelines.get? stat = some pipeline)
    (found : pipeline.slots.get? key = some filled) (inside : id ∈ filled.roster.subscribers) :
    graph.subscriptions.get? id = some (.slot ⟨stat, key.1, key.2⟩) := by
  rw [← mem_holders_iff, ← agrees.rosters]
  exact (mem_rosterAudience_iff _ _ id).mpr ⟨pipeline, filled, here, found, inside⟩

/-! ### The end of a subscription -/

/-- A graph without a subscription, wherever it stands. -/
def without (graph : Graph) (id : SubscriptionId) : Graph :=
  { graph with
    subscriptions := graph.subscriptions.erase id
    nodes := graph.nodes.modifyWhere (fun _ => true) fun node =>
      { node with subscribers := node.subscribers.filter (·.id ≠ id) }
    pipelines := graph.pipelines.modifyWhere (fun _ => true) fun pipeline =>
      { pipeline with
        slots := pipeline.slots.modifyWhere (fun _ => true) fun slot =>
          { slot with
            roster :=
              { slot.roster with subscribers := slot.roster.subscribers.filter (· ≠ id) } } } }

theorem filter_subscribers {subscribers : List Subscriber} {id : SubscriptionId}
    (absent : id ∉ subscribers.map (·.id)) : subscribers.filter (·.id ≠ id) = subscribers := by
  refine List.filter_eq_self.mpr fun subscriber member => decide_eq_true fun same => ?_
  exact absent (List.mem_map.mpr ⟨subscriber, member, same⟩)

theorem filter_ids {ids : List SubscriptionId} {id : SubscriptionId} (absent : id ∉ ids) :
    ids.filter (· ≠ id) = ids :=
  List.filter_eq_self.mpr fun _ member => decide_eq_true fun same => absent (same ▸ member)

section Ending

variable {id : SubscriptionId} (agrees : graph.Agrees)
include agrees

/-- A subscription of a node stands in no other list. -/
theorem Agrees.nodes_without {node : NodeId} (listed : graph.subscriptions.get? id = some (.node node)) :
    (graph.without id).nodes = graph.nodes.modify node (fun old =>
      { old with subscribers := old.subscribers.filter (·.id ≠ id) }) := by
  refine Table.modifyWhere_congr fun other present found => ?_
  by_cases same : other = node
  · simp only [same, ↓reduceIte, decide_true]
  · have absent : id ∉ present.subscribers.map (·.id) := by
      intro inside
      rw [agrees.listed found inside] at listed
      cases listed
      exact same rfl
    simp only [filter_subscribers absent, ite_self]

/-- A subscription of a roster stands in no list of a node. -/
theorem Agrees.nodes_without_of_slot {slot : SlotId}
    (listed : graph.subscriptions.get? id = some (.slot slot)) :
    (graph.without id).nodes = graph.nodes := by
  refine Table.modifyWhere_unchanged fun node present _ found => ?_
  have absent : id ∉ present.subscribers.map (·.id) := by
    intro inside
    rw [agrees.listed found inside] at listed
    cases listed
  rw [filter_subscribers absent]

/-- A subscription of a node stands in no list of a roster. -/
theorem Agrees.pipelines_without_of_node {node : NodeId}
    (listed : graph.subscriptions.get? id = some (.node node)) :
    (graph.without id).pipelines = graph.pipelines := by
  refine Table.modifyWhere_unchanged fun stat pipeline _ here => ?_
  have slots : pipeline.slots.modifyWhere (fun _ => true) (fun slot =>
      { slot with roster := { slot.roster with
          subscribers := slot.roster.subscribers.filter (· ≠ id) } }) = pipeline.slots := by
    refine Table.modifyWhere_unchanged fun key filled _ found => ?_
    have absent : id ∉ filled.roster.subscribers := by
      intro inside
      rw [agrees.seated here found inside] at listed
      cases listed
    rw [filter_ids absent]
  rw [slots]

/-- A subscription of a roster stands in the list of no other roster. -/
theorem Agrees.pipelines_without {slot : SlotId}
    (listed : graph.subscriptions.get? id = some (.slot slot)) :
    (graph.without id).pipelines = graph.pipelines.modify slot.stat (fun pipeline =>
      { pipeline with
        slots := pipeline.slots.modify (slot.form, slot.path) fun old =>
          { old with
            roster := { old.roster with
              subscribers := old.roster.subscribers.filter (· ≠ id) } } }) := by
  refine Table.modifyWhere_congr fun stat pipeline here => ?_
  have absent {key : Form × PathId} {filled : Slot}
      (found : pipeline.slots.get? key = some filled) (apart : slot ≠ ⟨stat, key.1, key.2⟩) :
      id ∉ filled.roster.subscribers := by
    intro inside
    rw [agrees.seated here found inside] at listed
    cases listed
    exact apart rfl
  by_cases same : stat = slot.stat
  · simp only [same, ↓reduceIte, decide_true]
    congr 1
    refine Table.modifyWhere_congr fun key filled found => ?_
    by_cases own : key = (slot.form, slot.path)
    · simp only [own, ↓reduceIte, decide_true]
    · have apart : slot ≠ ⟨stat, key.1, key.2⟩ := by
        rintro rfl
        exact own rfl
      simp only [filter_ids (absent found apart), ite_self]
  · have slots : pipeline.slots.modifyWhere (fun _ => true) (fun slot =>
        { slot with roster := { slot.roster with
            subscribers := slot.roster.subscribers.filter (· ≠ id) } }) = pipeline.slots :=
      Table.modifyWhere_unchanged fun key filled _ found => by
        rw [filter_ids (absent found fun equal => same (equal ▸ rfl))]
    simp only [slots, same, decide_false, Bool.false_eq_true, ↓reduceIte]

/-- To end a subscription takes it out wherever it stands, and changes nothing else. -/
theorem Agrees.unsubscribe_eq (id : SubscriptionId) :
    graph.unsubscribe id =
      match graph.subscriptions.get? id with
      | none => (.error (.unknownSubscription id), graph)
      | some _ => (.ok (), graph.without id) := by
  unfold unsubscribe
  cases listed : graph.subscriptions.get? id with
  | none => rfl
  | some target =>
      have same (nodes pipelines) (kept : (graph.without id).nodes = nodes)
          (left : (graph.without id).pipelines = pipelines) :
          graph.without id =
            { graph with subscriptions := graph.subscriptions.erase id, nodes, pipelines } := by
        subst kept left
        rfl
      cases target with
      | node node =>
          rw [same _ _ (agrees.nodes_without listed) (agrees.pipelines_without_of_node listed)]
          rfl
      | slot slot =>
          rw [same _ _ (agrees.nodes_without_of_slot listed) (agrees.pipelines_without listed)]
          rfl

end Ending

/-! ### Tables and registries -/

/-- Whether a target is what a topic names. -/
def Meets (graph : Graph) : Topic → Target → Prop
  | .node name, .node node => graph.nameOf? node = some name
  | .roster named, .slot slot => named = slot
  | _, _ => False

/-- A graph keeps the subscriptions of a registry: its table lists the live ones, each with what it is
about, and its lists agree with its table. -/
structure Honors (graph : Graph) (registry : Registry) : Prop extends graph.Agrees where
  entries : List.Forall₂ (fun entry live => entry.1 = live.1 ∧ graph.Meets live.2 entry.2)
    graph.subscriptions.entries registry.live
  numbered : ∀ id ∈ registry.handed, id.number ≤ graph.lastSubscription
  distinct : registry.handed.Nodup
  balanced : (registry.ids ++ registry.ended).Perm registry.handed

/-- The node that a subscription is about keeps its name as long as it has subscribers. -/
theorem Meets.keep {topic : Topic} {target : Target} {id : SubscriptionId}
    (meets : graph.Meets topic target) (agrees : graph.Agrees)
    (listed : graph.subscriptions.get? id = some target) (same : graph.SameSeats other) :
    other.Meets topic target := by
  cases topic <;> cases target
  case node.node name node =>
    obtain ⟨present, found, heard⟩ := agrees.followed listed
    obtain ⟨cache, there⟩ := same.kept node present found heard
    have named : graph.nameOf? node = some name := meets
    rw [nameOf?, found] at named
    show other.nameOf? node = some name
    rw [nameOf?, there]
    exact named
  all_goals exact meets

namespace Honors

theorem initial : ({} : Graph).Honors {} where
  readers := fun _ => rfl
  rosters := fun _ => rfl
  entries := .nil
  numbered := fun _ none => nomatch none
  distinct := List.nodup_nil
  balanced := .refl _

section Reading

variable (honors : graph.Honors registry)
include honors

theorem keys : graph.subscriptions.keys = registry.ids := by
  have same : (graph.subscriptions.entries.filter fun _ => true).map Prod.fst =
      (registry.live.filter fun _ => true).map Prod.fst :=
    map_filter_of_forall₂ honors.entries fun _ _ pair => ⟨rfl, pair.1⟩
  rwa [List.filter_true, List.filter_true] at same

theorem mem_ids_iff (id : SubscriptionId) :
    id ∈ registry.ids ↔ (graph.subscriptions.get? id).isSome := by
  rw [← honors.keys, Table.mem_keys_iff]

/-- Each live subscription stands in the table with what it is about. -/
theorem meets {id : SubscriptionId} {topic : Topic} (live : (id, topic) ∈ registry.live) :
    ∃ target, graph.subscriptions.get? id = some target ∧ graph.Meets topic target := by
  obtain ⟨⟨_, target⟩, member, rfl, meets⟩ := exists_of_forall₂ honors.entries live
  exact ⟨target, (Table.get?_eq_some_iff _ _ _).mpr member, meets⟩

/-- The table lists for a node the live subscriptions on its name. -/
theorem holders_node (formed : graph.WellFormed vocabulary) {node : NodeId} {name : NodeName}
    (named : graph.nameOf? node = some name) :
    graph.holders (.node node) = registry.on (.node name) := by
  refine map_filter_of_forall₂ honors.entries fun entry live pair => ⟨?_, pair.1⟩
  obtain ⟨_, target⟩ := entry
  obtain ⟨_, topic⟩ := live
  have meets : graph.Meets topic target := pair.2
  refine decide_eq_decide.mpr ⟨?_, ?_⟩
  · rintro rfl
    cases topic with
    | roster _ => exact meets.elim
    | node other =>
        have again : graph.nameOf? node = some other := meets
        rw [named] at again
        cases again
        rfl
  · rintro rfl
    cases target with
    | slot _ => exact meets.elim
    | node other => exact congrArg Target.node (formed.named_once meets named)

/-- The table lists for a roster the live subscriptions on it. -/
theorem holders_slot (slot : SlotId) : graph.holders (.slot slot) = registry.on (.roster slot) := by
  refine map_filter_of_forall₂ honors.entries fun entry live pair => ⟨?_, pair.1⟩
  obtain ⟨_, target⟩ := entry
  obtain ⟨_, topic⟩ := live
  have meets : graph.Meets topic target := pair.2
  refine decide_eq_decide.mpr ⟨?_, ?_⟩
  · rintro rfl
    cases topic with
    | node _ => exact meets.elim
    | roster named => exact congrArg Topic.roster meets
  · rintro rfl
    cases target with
    | node _ => exact meets.elim
    | slot other => exact congrArg Target.slot meets.symm

/-- As long as the seats stay the same, the registry is kept. -/
theorem keep (same : graph.SameSeats other) : other.Honors registry where
  toAgrees := honors.toAgrees.keep same
  entries := by
    have listed : List.Forall₂ (fun entry live => graph.subscriptions.get? entry.1 = some entry.2 ∧
        entry.1 = live.1 ∧ graph.Meets live.2 entry.2) graph.subscriptions.entries registry.live :=
      (List.forall₂_and_left _ _).mpr
        ⟨fun entry member => (Table.get?_eq_some_iff _ _ _).mpr member, honors.entries⟩
    rw [same.subscriptions]
    exact listed.imp fun entry live pair =>
      ⟨pair.2.1, pair.2.2.keep honors.toAgrees pair.1 same⟩
  numbered := by
    rw [same.lastSubscription]
    exact honors.numbered
  distinct := honors.distinct
  balanced := honors.balanced

end Reading

/-- A new subscription is listed under its target and in the table. -/
theorem hand (honors : graph.Honors registry) {id : SubscriptionId} {topic : Topic} {target : Target}
    (number : id = ⟨graph.lastSubscription + 1⟩) (fresh : graph.subscriptions.get? id = none)
    (names : other.nameOf? = graph.nameOf?) (meets : graph.Meets topic target)
    (subscriptions : other.subscriptions = graph.subscriptions.insert id target)
    (lastSubscription : other.lastSubscription = graph.lastSubscription + 1)
    (readers : ∀ node, other.readers node =
      graph.readers node ++ if target = .node node then [id] else [])
    (rosters : ∀ slot, other.rosterAudience slot =
      graph.rosterAudience slot ++ if target = .slot slot then [id] else []) :
    other.Honors (registry.hand id topic) := by
  have entries : other.subscriptions.entries = graph.subscriptions.entries ++ [(id, target)] := by
    rw [subscriptions, Table.entries_insert_of_absent fresh]
  have holders (own : Target) : other.holders own =
      graph.holders own ++ if target = own then [id] else [] := by
    rw [Graph.holders, Graph.holders, entries, List.filter_append, List.map_append]
    by_cases same : target = own <;> simp [same]
  have later (topic : Topic) (target : Target) (meets : graph.Meets topic target) :
      other.Meets topic target := by
    cases topic <;> cases target <;> first | exact meets | exact (congrFun names _).trans meets
  have unused : id ∉ registry.handed := by
    intro member
    have bounded := honors.numbered id member
    rw [number] at bounded
    exact Nat.not_succ_le_self _ bounded
  refine ⟨⟨fun node => ?_, fun slot => ?_⟩, ?_, fun own member => ?_, ?_, ?_⟩
  · rw [readers, honors.readers, holders]
  · rw [rosters, honors.rosters, holders]
  · rw [entries]
    exact List.rel_append (honors.entries.imp fun _ _ pair => ⟨pair.1, later _ _ pair.2⟩)
      (.cons ⟨rfl, later _ _ meets⟩ .nil)
  · rw [lastSubscription]
    rcases List.mem_append.mp member with before | new
    · exact Nat.le_succ_of_le (honors.numbered own before)
    · rw [List.mem_singleton.mp new, number]
  · exact List.nodup_append.mpr ⟨honors.distinct, List.nodup_singleton id,
      fun own member new last same => unused (List.mem_singleton.mp last ▸ same ▸ member)⟩
  · have grown : ((registry.ids ++ [id]) ++ registry.ended).Perm (registry.handed ++ [id]) := by
      have swapped : (registry.ids ++ [id] ++ registry.ended).Perm
          (registry.ids ++ registry.ended ++ [id]) := by
        rw [List.append_assoc, List.append_assoc]
        exact List.perm_append_comm.append_left _
      exact swapped.trans (honors.balanced.append_right [id])
    simpa only [Registry.ids, Registry.hand, List.map_append, List.map_cons, List.map_nil] using grown

end Honors

/-! ### Graphs without a subscription -/

theorem nameOf?_without (graph : Graph) (id : SubscriptionId) :
    (graph.without id).nameOf? = graph.nameOf? := by
  funext node
  rw [nameOf?, nameOf?, without, Table.get?_modifyWhere, if_pos rfl, Option.map_map]
  rfl

theorem readers_without (graph : Graph) (id : SubscriptionId) (node : NodeId) :
    (graph.without id).readers node = (graph.readers node).filter (· ≠ id) := by
  rw [readers, readers, without, Table.get?_modifyWhere, if_pos rfl]
  cases graph.nodes.get? node with
  | none => rfl
  | some present =>
      simp only [Option.map_some, Option.elim_some, List.filter_map, Function.comp_def]

theorem rosterAudience_without (graph : Graph) (id : SubscriptionId) (slot : SlotId) :
    (graph.without id).rosterAudience slot = (graph.rosterAudience slot).filter (· ≠ id) := by
  rw [rosterAudience, rosterAudience, roster?, roster?, without, Table.get?_modifyWhere, if_pos rfl]
  cases graph.pipelines.get? slot.stat with
  | none => rfl
  | some pipeline =>
      simp only [Option.map_some, Option.bind_some, Table.get?_modifyWhere, ↓reduceIte]
      cases pipeline.slots.get? (slot.form, slot.path) <;> rfl

theorem holders_without (graph : Graph) (id : SubscriptionId) (target : Target) :
    (graph.without id).holders target = (graph.holders target).filter (· ≠ id) := by
  rw [holders, holders, List.filter_map, List.filter_filter]
  simp only [without, Table.erase, Table.eraseWhere, List.filter_filter, Function.comp_def,
    decide_not, Bool.and_comm]

/-- To end a live subscription leaves the others where they are. -/
theorem Honors.strike (honors : graph.Honors registry) {id : SubscriptionId}
    (live : id ∈ registry.ids) : (graph.without id).Honors (registry.strike id) where
  readers := fun node => by rw [readers_without, holders_without, honors.readers]
  rosters := fun slot => by rw [rosterAudience_without, holders_without, honors.rosters]
  entries := by
    have later (topic : Topic) (target : Target) (meets : graph.Meets topic target) :
        (graph.without id).Meets topic target := by
      cases topic <;> cases target <;>
        first | exact meets | exact (congrFun (graph.nameOf?_without id) _).trans meets
    refine List.rel_filter (fun entry live pair => ?_)
      (honors.entries.imp fun _ _ pair => ⟨pair.1, later _ _ pair.2⟩)
    simp only [pair.1, decide_not]
  numbered := honors.numbered
  distinct := honors.distinct
  balanced := by
    have once : registry.ids.Nodup := honors.keys ▸ graph.subscriptions.nodup_keys
    have left : (registry.strike id).ids = registry.ids.erase id := by
      rw [once.erase_eq_filter, Registry.ids, Registry.ids, List.filter_map]
      simp only [Registry.strike, Function.comp_def, bne, decide_not]
      rfl
    have removed : registry.ids.Perm (registry.ids.erase id ++ [id]) :=
      (List.perm_cons_erase live).trans (List.perm_append_singleton id _).symm
    have moved : (registry.ids.erase id ++ (registry.ended ++ [id])).Perm
        (registry.ids ++ registry.ended) := by
      have swapped : (registry.ids.erase id ++ (registry.ended ++ [id])).Perm
          (registry.ids.erase id ++ [id] ++ registry.ended) := by
        rw [List.append_assoc]
        exact List.perm_append_comm.append_left _
      exact swapped.trans (removed.symm.append_right _)
    rw [left]
    exact moved.trans honors.balanced

end Graph

open CharacterSheet.Graph

namespace Sheet

variable {vocabulary : Vocabulary} {sheet : Sheet} {registry : Registry} {operation : Operation}

/-- A subscription to a node is handed out and listed at the node of its name. -/
theorem honors_obtainWatched {graph : Graph} (intact : graph.Intact vocabulary)
    (honors : graph.Honors registry) {stat : Stat} {stage : Stage} {path : Path}
    (resolved : stat.isResolved = true) (within : stat.HeadWithin vocabulary)
    (route : path.Within vocabulary) (reads : List Reading) :
    (graph.obtainWatched stat stage path reads).Honors
      (registry.hand ⟨(graph.obtain stat stage path).2.lastSubscription + 1⟩
        (.node (.ofStage stat.id stage path.id))) := by
  have obtains : Explores vocabulary graph (graph.obtain stat stage path).2 :=
    explores_obtain graph resolved stage within route
  have grown := intact.explore obtains
  have kept := honors.keep (.of_explores intact obtains)
  have listed : (graph.obtain stat stage path).2.node? stat.id stage path.id =
      some (graph.obtain stat stage path).1 :=
    node?_obtain intact.formed intact.stacked resolved within route
  obtain ⟨full, address, route⟩ := grown.formed.address_of_node? listed
  unfold obtainWatched
  generalize (graph.obtain stat stage path).1 = node at listed address ⊢
  generalize (graph.obtain stat stage path).2 = ready at grown kept listed address ⊢
  obtain ⟨present, found, placed⟩ := Option.map_eq_some_iff.mp address
  have fresh : ready.subscriptions.get? ⟨ready.lastSubscription + 1⟩ = none := by
    rw [Option.eq_none_iff_forall_ne_some]
    exact fun target there => grown.watched.fresh there rfl
  have named : ready.nameOf? node = some (.ofStage stat.id stage path.id) := by
    rw [nameOf?, found, Option.map_some, placed]
    exact congrArg (fun place => some (NodeName.pipeline stat.id stage place)) route
  have meets : ready.Meets (.node (.ofStage stat.id stage path.id)) (.node node) := named
  refine kept.hand rfl fresh ?_ meets rfl rfl (fun other => ?_) fun slot => ?_
  · funext other
    rw [nameOf?, nameOf?, get?_enlist]
    split
    · rw [Option.map_map]
      rfl
    · rfl
  · rw [readers, readers, get?_enlist]
    by_cases same : other = node
    · rw [if_pos same, if_pos (congrArg Target.node same.symm), same, show (ready.newSubscription _).2.nodes.get? node = _ from found]
      simp [found]
    · rw [if_neg same, if_neg fun equal => same (Target.node.inj equal).symm, List.append_nil]
      rfl
  · rw [if_neg (by simp), List.append_nil]
    rfl

theorem rosterAudience_seated (graph : Graph) {own : StatId} {pipeline : Pipeline}
    (here : graph.pipelines.get? own = some pipeline) (form : Form) (place : Path)
    (id : SubscriptionId) (slot : SlotId) :
    (graph.modifyPipeline own fun old =>
        { old with slots := seated old form place id }).rosterAudience slot =
      graph.rosterAudience slot ++
        if Target.slot ⟨own, form, place.id⟩ = .slot slot then [id] else [] := by
  obtain ⟨stat, other, path⟩ := slot
  rw [rosterAudience, rosterAudience, roster?, roster?, modifyPipeline, Table.get?_modify]
  by_cases same : stat = own
  · subst same
    rw [if_pos rfl, here]
    simp only [Option.map_some, Option.bind_some, seated, Table.get?_insert, Target.slot.injEq,
      SlotId.mk.injEq, true_and, Prod.mk.injEq]
    by_cases there : other = form ∧ path = place.id
    · obtain ⟨rfl, rfl⟩ := there
      simp only [and_self, ↓reduceIte, Option.map_some]
      cases pipeline.slots.get? (other, place.id) <;> rfl
    · have apart : ¬ (form = other ∧ place.id = path) := fun equal => there ⟨equal.1.symm, equal.2.symm⟩
      rw [if_neg there, if_neg apart, List.append_nil]
  · have apart : Target.slot ⟨own, form, place.id⟩ ≠ .slot ⟨stat, other, path⟩ := by
      rintro ⟨⟩
      exact same rfl
    rw [if_neg same, if_neg apart, List.append_nil]

/-- A subscription to a roster is handed out and listed at the roster. -/
theorem honors_subscribeRoster {graph : Graph} (intact : graph.Intact vocabulary)
    (honors : graph.Honors registry) {stat : Stat} (form : Form) (path : Path)
    (within : stat.HeadWithin vocabulary) :
    (graph.subscribeRoster stat form path).2.Honors
      (match (graph.subscribeRoster stat form path).1 with
        | .ok id => registry.hand id (.roster ⟨stat.id, form, path.id.at form.stage⟩)
        | .error _ => registry) := by
  rw [subscribeRoster_eq]
  split
  · next resolved =>
    have opens := advances_ensurePipeline intact.formed intact.stacked resolved within
    have grown := intact_ensurePipeline intact resolved within
    have kept := honors.keep (.of_extends opens.grows.toExtends)
    obtain ⟨pipeline, here⟩ := graph.pipeline_ensurePipeline stat
    generalize graph.ensurePipeline stat = ready at kept grown here ⊢
    have fresh : ready.subscriptions.get? ⟨ready.lastSubscription + 1⟩ = none := by
      rw [Option.eq_none_iff_forall_ne_some]
      exact fun target there => grown.watched.fresh there rfl
    have meets : ready.Meets (.roster ⟨stat.id, form, path.id.at form.stage⟩)
        (.slot ⟨stat.id, form, (path.at form.stage).id⟩) :=
      congrArg (SlotId.mk stat.id form) (PathOf.id_at path form.stage).symm
    refine kept.hand rfl fresh rfl meets rfl rfl (fun node => ?_) fun slot => ?_
    · rw [if_neg (by simp), List.append_nil]
      rfl
    · exact rosterAudience_seated (ready.newSubscription _).2 here form _ _ slot
  · exact honors

/-- After a subscription to a node, the node is calculated and what waits may be announced; neither
moves a subscriber. -/
theorem sameSeats_subscribe (intact : sheet.graph.Intact vocabulary) {stat : Stat} (stage : Stage)
    {path : Path} {reads : List Reading} (resolved : stat.isResolved = true)
    (within : stat.HeadWithin vocabulary) (route : path.Within vocabulary)
    (readings : ∀ reading ∈ reads, reading.Within vocabulary) :
    (sheet.subscribe stat stage path reads).1 =
        .ok ⟨(sheet.graph.obtain stat stage path).2.lastSubscription + 1⟩ ∧
      (sheet.graph.obtainWatched stat stage path reads).SameSeats
        (sheet.subscribe stat stage path reads).2.graph := by
  have watched : (sheet.graph.obtainWatched stat stage path reads).Intact vocabulary :=
    intact_obtainWatched intact resolved within route readings
  have settles : Explores vocabulary (sheet.graph.obtainWatched stat stage path reads)
      ((sheet.graph.obtainWatched stat stage path reads).settle
        (sheet.graph.obtain stat stage path).1) :=
    explores_settleWatched intact resolved within route readings
  have settled : (sheet.withGraph ((sheet.graph.obtainWatched stat stage path reads).settle
      (sheet.graph.obtain stat stage path).1)).graph.Intact vocabulary := watched.explore settles
  unfold subscribe
  rw [subscribe_eq, if_pos resolved]
  exact ⟨rfl, (SameSeats.of_explores watched settles).trans (sameSeats_flushIfIdle settled)⟩

theorem subscribe_unresolved {stat : Stat} {stage : Stage} {path : Path} {reads : List Reading}
    (unresolved : ¬ stat.isResolved = true) :
    sheet.subscribe stat stage path reads = (.error (.unresolvedReference stat.id), sheet) := by
  unfold subscribe
  rw [subscribe_eq, if_neg unresolved]
  rfl

/-- What the answer of an operation tells about subscriptions is what it does to them. -/
theorem honors_apply (closed : vocabulary.Closed) (intact : sheet.graph.Intact vocabulary)
    (honors : sheet.graph.Honors registry) (within : operation.Within vocabulary) :
    (sheet.apply operation).graph.Honors (registry.note sheet operation) := by
  by_cases aside : operation.subscribes = false
  · rw [registry.note_aside sheet aside]
    exact honors.keep (sameSeats_apply closed intact within aside)
  cases operation <;> try exact absurd rfl aside
  case subscribe stat stage path reads =>
    obtain ⟨named, route, readings⟩ := within
    by_cases resolved : stat.isResolved = true
    · obtain ⟨answer, same⟩ := sameSeats_subscribe intact stage resolved named route readings
      show (sheet.subscribe stat stage path reads).2.graph.Honors (registry.note sheet _)
      simp only [Registry.note, answer]
      exact (honors_obtainWatched intact honors resolved named route reads).keep same
    · show (sheet.subscribe stat stage path reads).2.graph.Honors (registry.note sheet _)
      simp only [Registry.note, subscribe_unresolved resolved]
      exact honors
  case subscribeRoster stat form path =>
    exact honors_subscribeRoster intact honors form path within.1
  case unsubscribe id =>
    have answer := honors.toAgrees.unsubscribe_eq id
    show (sheet.graph.unsubscribe id).2.Honors (registry.note sheet _)
    simp only [Registry.note, unsubscribe, answer]
    cases listed : sheet.graph.subscriptions.get? id with
    | none => exact honors
    | some target => exact honors.strike ((honors.mem_ids_iff id).mpr (listed ▸ rfl))

/-- A subscription stays about the same node or roster until it is ended. -/
theorem listed_apply (closed : vocabulary.Closed) (intact : sheet.graph.Intact vocabulary)
    (agrees : sheet.graph.Agrees) (within : operation.Within vocabulary) {id : SubscriptionId}
    {target : Target} (listed : sheet.graph.subscriptions.get? id = some target)
    (other : operation ≠ .unsubscribe id) :
    (sheet.apply operation).graph.subscriptions.get? id = some target := by
  by_cases aside : operation.subscribes = false
  · rw [(sameSeats_apply closed intact within aside).subscriptions, listed]
  cases operation <;> try exact absurd rfl aside
  case subscribe stat stage path reads =>
    obtain ⟨named, route, readings⟩ := within
    by_cases resolved : stat.isResolved = true
    · have same := (sameSeats_subscribe intact stage resolved named route readings).2
      have obtains := explores_obtain sheet.graph resolved stage named route
      have before := (SameSeats.of_explores intact obtains).subscriptions
      have grown := intact.explore obtains
      rw [← before] at listed
      refine (congrArg (·.get? id) same.subscriptions).trans ?_
      exact (Table.get?_insert_other _ (grown.watched.fresh listed) _).trans listed
    · show (sheet.subscribe stat stage path reads).2.graph.subscriptions.get? id = some target
      rwa [subscribe_unresolved resolved]
  case subscribeRoster stat form path =>
    show (sheet.graph.subscribeRoster stat form path).2.subscriptions.get? id = some target
    rw [subscribeRoster_eq]
    split
    · next resolved =>
      have opens := advances_ensurePipeline intact.formed intact.stacked resolved within.1
      have grown := intact_ensurePipeline intact resolved within.1
      rw [← (SameSeats.of_extends opens.grows.toExtends).subscriptions] at listed
      exact (Table.get?_insert_other _ (grown.watched.fresh listed) _).trans listed
    · exact listed
  case unsubscribe own =>
    show (sheet.graph.unsubscribe own).2.subscriptions.get? id = some target
    rw [agrees.unsubscribe_eq]
    split
    · exact listed
    · have apart : id ≠ own := fun same => other (same ▸ rfl)
      exact ((Table.get?_erase _ _ _).trans (if_neg apart)).trans listed

/-- So it is after any number of operations. -/
theorem honors_run (closed : vocabulary.Closed) {operations : List Operation}
    (intact : sheet.graph.Intact vocabulary) (honors : sheet.graph.Honors registry)
    (within : ∀ operation ∈ operations, operation.Within vocabulary) :
    (sheet.run operations).graph.Honors (sheet.registry registry operations) := by
  induction operations generalizing sheet registry with
  | nil => exact honors
  | cons operation rest inductionHypothesis =>
      have here := within operation List.mem_cons_self
      exact inductionHypothesis (intact_apply closed intact here) (honors_apply closed intact honors here)
        fun other member => within other (List.mem_cons_of_mem operation member)

/-- Whatever is done with a new sheet, its subscriptions are those that were handed out and not ended. -/
theorem honors_everything (settings : Settings) (retention : Retention) (operations : List Operation) :
    (run { settings, retention } operations).graph.Honors
      (Sheet.registry { settings, retention } {} operations) :=
  honors_run Vocabulary.closed_everything .initial .initial (Operation.all_within_everything operations)

theorem listed_run (closed : vocabulary.Closed) {operations : List Operation}
    (intact : sheet.graph.Intact vocabulary) (honors : sheet.graph.Honors registry)
    (within : ∀ operation ∈ operations, operation.Within vocabulary) {id : SubscriptionId}
    {target : Target} (listed : sheet.graph.subscriptions.get? id = some target)
    (unended : .unsubscribe id ∉ operations) :
    (sheet.run operations).graph.subscriptions.get? id = some target := by
  induction operations generalizing sheet registry with
  | nil => exact listed
  | cons operation rest inductionHypothesis =>
      have here := within operation List.mem_cons_self
      obtain ⟨other, later⟩ := not_or.mp (mt List.mem_cons.mpr unended)
      exact inductionHypothesis (intact_apply closed intact here) (honors_apply closed intact honors here)
        (fun other member => within other (List.mem_cons_of_mem operation member))
        (listed_apply closed intact honors.toAgrees here listed (Ne.symm other)) later

/-! ### What is there for the subscribers -/

/-- Whether a sheet has what a topic names. -/
def contains (sheet : Sheet) : Topic → Bool
  | .node (.pipeline stat stage path) => sheet.containsStage stat stage path
  | .node (.contribution _) => false
  | .roster slot => (sheet.graph.roster? slot).isSome

/-- Nothing is taken away that has a subscriber. -/
theorem contains_of_live (intact : sheet.graph.Intact vocabulary)
    (honors : sheet.graph.Honors registry) {id : SubscriptionId} {topic : Topic}
    (live : (id, topic) ∈ registry.live) : sheet.contains topic = true := by
  obtain ⟨target, listed, meets⟩ := honors.meets live
  cases topic with
  | roster slot =>
      cases target with
      | node _ => exact meets.elim
      | slot other =>
          cases (meets : slot = other)
          have inside : id ∈ sheet.graph.rosterAudience slot :=
            honors.rosters slot ▸ (mem_holders_iff _ _ _).mpr listed
          show (sheet.graph.roster? slot).isSome = true
          unfold rosterAudience at inside
          split at inside
          · next there => rw [there, Option.isSome_some]
          · cases inside
  | node name =>
      cases target with
      | slot _ => exact meets.elim
      | node node =>
          obtain ⟨present, found, heard⟩ := honors.followed listed
          obtain ⟨stat, stage, path, address⟩ := intact.watched.attended node present found heard
          have named : sheet.graph.nameOf? node = some name := meets
          rw [addressOf?, found, Option.map_some, Option.some.injEq] at address
          rw [nameOf?, found, Option.map_some, address, Option.some.injEq] at named
          cases named
          have address : sheet.graph.addressOf? node = some (.pipeline stat stage path) := by
            rw [addressOf?, found, Option.map_some, address]
          exact Option.isSome_iff_exists.mpr ⟨node, (intact.formed.node?_of_address address).1⟩

/-- The number of subscribers of a stage is that of the live subscriptions on it. -/
theorem subscriberCount_eq (intact : sheet.graph.Intact vocabulary)
    (honors : sheet.graph.Honors registry) (stat : StatId) (stage : Stage) (path : PathId) :
    sheet.subscriberCount stat stage path =
      (registry.on (.node (.ofStage stat stage path))).length := by
  unfold subscriberCount stageSubscribers
  cases located : sheet.graph.node? stat stage path with
  | some node =>
      obtain ⟨full, address, place⟩ := intact.formed.address_of_node? located
      obtain ⟨present, found, address⟩ := Option.map_eq_some_iff.mp address
      have named : sheet.graph.nameOf? node = some (.ofStage stat stage path) := by
        rw [nameOf?, found, Option.map_some, address, Address.name, place, NodeName.ofStage]
      rw [← honors.holders_node intact.formed named, ← honors.readers]
      simp [Graph.subscriberCount, readers, found]
  | none =>
      refine (List.length_eq_zero_iff.mpr (List.eq_nil_iff_forall_not_mem.mpr fun id member => ?_)).symm
      obtain ⟨⟨_, topic⟩, inside, rfl⟩ := List.mem_map.mp member
      obtain ⟨live, same⟩ := List.mem_filter.mp inside
      cases (of_decide_eq_true same : topic = _)
      have there : sheet.containsStage stat stage (path.at stage) = true :=
        contains_of_live intact honors live
      rw [containsStage, node?, PathOf.at_at] at there
      rw [node?] at located
      rw [located] at there
      cases there

theorem rosterSubscriberCount_eq (honors : sheet.graph.Honors registry) (stat : StatId) (form : Form)
    (path : PathId) : sheet.rosterSubscriberCount stat form path =
      (registry.on (.roster ⟨stat, form, path.at form.stage⟩)).length := by
  rw [← honors.holders_slot, ← honors.rosters]
  unfold rosterSubscriberCount rosterSubscribers rosterAudience
  cases sheet.graph.roster? ⟨stat, form, path.at form.stage⟩ <;> rfl

end Sheet

/-! ### Runs -/

/-- What is live stays live until it is ended. -/
theorem Registry.live_note {registry : Registry} {entry : SubscriptionId × Topic}
    (live : entry ∈ registry.live) (sheet : Sheet) {operation : Operation}
    (other : operation ≠ .unsubscribe entry.1) : entry ∈ (registry.note sheet operation).live := by
  have handed (id : SubscriptionId) (topic : Topic) : entry ∈ (registry.hand id topic).live :=
    List.mem_append_left _ live
  cases operation <;> try exact live
  case subscribe | subscribeRoster =>
    simp only [note]
    split
    · exact handed _ _
    · exact live
  case unsubscribe id =>
    have apart : entry.1 ≠ id := fun same => other (same ▸ rfl)
    simp only [note]
    split
    · exact List.mem_filter.mpr ⟨live, decide_eq_true apart⟩
    · exact live

theorem Registry.live_later {registry : Registry} {entry : SubscriptionId × Topic}
    (live : entry ∈ registry.live) (sheet : Sheet) {operations : List Operation}
    (unended : .unsubscribe entry.1 ∉ operations) :
    entry ∈ (sheet.registry registry operations).live := by
  induction operations generalizing sheet registry with
  | nil => exact live
  | cons operation rest inductionHypothesis =>
      obtain ⟨other, later⟩ := not_or.mp (mt List.mem_cons.mpr unended)
      exact inductionHypothesis (live_note live sheet (Ne.symm other)) (sheet.apply operation) later

/-- A sheet keeps the subscriptions of a registry, and neither more nor fewer. -/
structure Sheet.Observes (sheet : Sheet) (registry : Registry) : Prop extends
    sheet.graph.Honors registry where
  /-- What a live subscription is about is there. -/
  placed : ∀ id topic, (id, topic) ∈ registry.live → sheet.contains topic = true
  subscribers : ∀ stat stage path, sheet.subscriberCount stat stage path =
    (registry.on (.node (.ofStage stat stage path))).length
  rosterSubscribers : ∀ stat form path, sheet.rosterSubscriberCount stat form path =
    (registry.on (.roster ⟨stat, form, path.at form.stage⟩)).length
  /-- A live subscription can be ended, which takes it out and nothing else; nothing else can. -/
  ends : ∀ id, sheet.unsubscribe id =
    if id ∈ registry.ids then (.ok (), sheet.withGraph (sheet.graph.without id))
    else (.error (.unknownSubscription id), sheet)

theorem Sheet.observes {vocabulary : Vocabulary} {sheet : Sheet} {registry : Registry}
    (intact : sheet.graph.Intact vocabulary) (honors : sheet.graph.Honors registry) :
    sheet.Observes registry where
  toHonors := honors
  placed := fun _ _ live => contains_of_live intact honors live
  subscribers := subscriberCount_eq intact honors
  rosterSubscribers := rosterSubscriberCount_eq honors
  ends := by
    intro id
    unfold unsubscribe
    rw [honors.toAgrees.unsubscribe_eq]
    cases listed : sheet.graph.subscriptions.get? id with
    | none => rw [if_neg (by rw [honors.mem_ids_iff, listed]; exact Bool.false_ne_true)]
              rfl
    | some target => rw [if_pos (by rw [honors.mem_ids_iff, listed]; rfl)]

/-- After any run a sheet keeps the subscriptions that its answers handed out and did not end, whatever
was swept in between. As long as one is not ended, it stays in the table under the same node or roster,
and what it is about stays there. -/
theorem subscriptions_follow_answers (settings : Settings) (retention : Retention)
    (operations : List Operation) :
    let new : Sheet := { settings, retention }
    let sheet := new.run operations
    let registry := new.registry {} operations
    sheet.Observes registry ∧
      ∀ id topic, (id, topic) ∈ registry.live → ∀ later, .unsubscribe id ∉ later →
        (id, topic) ∈ (sheet.registry registry later).live ∧
          (sheet.run later).graph.subscriptions.get? id = sheet.graph.subscriptions.get? id ∧
          (sheet.run later).contains topic = true := by
  intro new sheet registry
  have everything := Operation.all_within_everything
  have reachable : Sheet.Reachable .everything sheet :=
    Sheet.reachable_everything settings retention operations
  have intact := reachable.intact Vocabulary.closed_everything
  have honors : sheet.graph.Honors registry := Sheet.honors_everything settings retention operations
  refine ⟨Sheet.observes intact honors, fun id topic live later unended => ?_⟩
  have stays := Registry.live_later live sheet unended
  obtain ⟨target, listed, _⟩ := honors.meets live
  have listed' : (sheet.run later).graph.subscriptions.get? id = some target :=
    Sheet.listed_run Vocabulary.closed_everything intact honors (everything later) listed unended
  have intact' := (Sheet.reachable_run reachable (everything later)).intact Vocabulary.closed_everything
  have honors' : (sheet.run later).graph.Honors (sheet.registry registry later) :=
    Sheet.honors_run Vocabulary.closed_everything intact honors (everything later)
  exact ⟨stays, listed'.trans listed.symm, Sheet.contains_of_live intact' honors' stays⟩

/-- Two watch the total of a stat and one its base additions; the first of them leaves, and so does the
modifier. -/
def leavingPower : List Operation :=
  [.add (.baseAdd ⟨1⟩ (.named "Power") 5), .subscribe (.named "Power") .total .main [],
    .subscribe (.named "Power") .total .main [], .subscribeRoster (.named "Power") .baseAdd .main,
    .unsubscribe ⟨1⟩, .remove ⟨1⟩]

/-- A sweep that may take everything leaves the total and the roster to those who stay. -/
theorem leavingPower_stays :
    let sheet := Sheet.run {} leavingPower
    let registry := Sheet.registry {} {} leavingPower
    let total : Topic := .node (.ofStage (Stat.named "Power").id .total .main)
    registry = ⟨[⟨1⟩, ⟨2⟩, ⟨3⟩],
        [(⟨2⟩, total), (⟨3⟩, .roster ⟨(Stat.named "Power").id, .baseAdd, .main⟩)], [⟨1⟩]⟩ ∧
      sheet.subscriberCount (Stat.named "Power").id .total .main = 1 ∧
        sheet.unsubscribe ⟨1⟩ = (.error (.unknownSubscription ⟨1⟩), sheet) ∧
          (sheet.run [.retain {}, .sweep]).contains total = true := by
  intro sheet registry total
  have told : registry = ⟨[⟨1⟩, ⟨2⟩, ⟨3⟩],
      [(⟨2⟩, total), (⟨3⟩, .roster ⟨(Stat.named "Power").id, .baseAdd, .main⟩)], [⟨1⟩]⟩ := by decide +kernel
  have held : sheet.Observes registry ∧ _ := subscriptions_follow_answers {} {} leavingPower
  obtain ⟨observes, stays⟩ := held
  have live : (⟨2⟩, total) ∈ registry.live := by
    rw [told]
    exact List.mem_cons_self
  refine ⟨told, ?_, ?_, (stays ⟨2⟩ total live [.retain {}, .sweep] (by simp)).2.2⟩
  · rw [observes.subscribers, told]
    rfl
  · rw [observes.ends, told]
    rfl

end CharacterSheet
