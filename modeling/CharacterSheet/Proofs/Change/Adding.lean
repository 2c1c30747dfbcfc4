import CharacterSheet.Graph.Modify
import CharacterSheet.Proofs.Change.Linking
import CharacterSheet.Proofs.Change.Wiring

/-!
Contract: adding a modifier is a turn.

Owns:
- gathering graphs, which keep their edges, their nodes and the members of their rosters;
- entering a modifier into the roster of one stat;
- adding a modifier with the node that calculates its contribution.
-/

namespace CharacterSheet

theorem Slot.WellFormed.add {vocabulary : Vocabulary} {modifiers : Table ModifierId Modifier}
    {stat : StatId} {slot : Slot} {modifier : Modifier} {roster : Roster ModifierId}
    {change : Delta ModifierId} (known : modifiers.get? modifier.id = some modifier)
    (named : ∃ other ∈ modifier.stats, other.id = stat)
    (formed : slot.WellFormed vocabulary modifiers stat modifier.form modifier.path.id)
    (added : slot.roster.add? modifier.id = some (roster, change)) :
    Slot.WellFormed vocabulary modifiers stat modifier.form modifier.path.id
      { slot with roster } ∧ roster.subscribers = slot.roster.subscribers ∧
        roster.members = slot.roster.members ++ [modifier.id] := by
  have distinct := Roster.nodup_add? formed.distinct added
  unfold Roster.add? at added
  split at added
  · contradiction
  · cases added
    refine ⟨⟨formed.path_id, formed.place, formed.within, distinct, ?_⟩, rfl, rfl⟩
    intro member inside
    rcases List.mem_append.mp inside with before | new
    · exact formed.enrolled member before
    · rw [List.mem_singleton.mp new]
      exact ⟨modifier, known, rfl, rfl, named⟩

/-- A pipeline has members on a path if one of its rosters there has. -/
theorem Pipeline.hasMembersOn_of_mem {pipeline : Pipeline} {form : Form} {path : PathId}
    {slot : Slot} {member : ModifierId} (filled : pipeline.slots.get? (form, path) = some slot)
    (inside : member ∈ slot.roster.members) : pipeline.hasMembersOn path = true := by
  unfold hasMembersOn
  rw [List.any_eq_true]
  refine ⟨((form, path), slot), (pipeline.slots.get?_eq_some_iff _ _).mp filled, ?_⟩
  simp [List.ne_nil_of_mem inside]

theorem Table.modify_of_found {κ α : Type} [DecidableEq κ] {table : Table κ α} {key : κ}
    {value : α} (found : table.get? key = some value) (change : α → α) :
    table.modify key change = table.modify key fun _ => change value := by
  simp only [modify, modifyWhere, Table.mk.injEq, changeIn]
  apply List.map_congr_left
  rintro ⟨other, own⟩ member
  by_cases same : other = key
  · subst same
    rw [(table.get?_eq_some_iff _ _).mpr member] at found
    cases found
    rfl
  · simp [same]

theorem Modifier.path_at (modifier : Modifier) :
    modifier.path.id.at modifier.form.stage = modifier.path.id := by
  rw [← PathOf.id_at, Modifier.path, PathOf.at_at]

namespace Graph

variable {vocabulary : Vocabulary} {graph : Graph} {modifier : Modifier} {stat : Stat}

/-! ### Joining -/

/-- What a graph is when modifiers join rosters: it keeps its edges, its nodes, its modifiers and
their nodes, and rosters keep their members. -/
structure Gathers (graph other : Graph) : Prop where
  edges : other.edges = graph.edges
  addressed : ∀ node address, graph.addressOf? node = some address →
    other.addressOf? node = some address
  modifiers : other.modifiers = graph.modifiers
  contributions : other.contributions = graph.contributions
  members : ∀ own form path member, member ∈ graph.members own form path →
    member ∈ other.members own form path

theorem Gathers.refl (graph : Graph) : graph.Gathers graph :=
  ⟨rfl, fun _ _ found => found, rfl, rfl, fun _ _ _ _ inside => inside⟩

theorem Gathers.trans {middle other : Graph} (first : graph.Gathers middle)
    (second : middle.Gathers other) : graph.Gathers other where
  edges := second.edges.trans first.edges
  addressed := fun node address found => second.addressed node address (first.addressed _ _ found)
  modifiers := second.modifiers.trans first.modifiers
  contributions := second.contributions.trans first.contributions
  members := fun own form path member inside =>
    second.members own form path member (first.members own form path member inside)

theorem Gathers.wired {other : Graph} (gathers : graph.Gathers other) (wired : graph.Wired) :
    other.Wired := by
  refine wired.keep (fun _ _ feeds => ?_) (fun producer consumer feeds => ?_) ?_
  · rw [Feeds, gathers.edges] at feeds
    exact feeds
  · rw [Feeds, gathers.edges] at feeds
    obtain ⟨first, here⟩ := wired.producer producer consumer feeds
    obtain ⟨second, there, _⟩ := wired.enrolled producer consumer feeds
    exact ⟨(gathers.addressed _ _ here).trans here.symm,
      (gathers.addressed _ _ there).trans there.symm⟩
  · rintro producer consumer (⟨own, stage, path⟩ | own) member _ _ enrolls
    · obtain ⟨form, collects, inside⟩ := enrolls
      exact ⟨form, collects, gathers.members own form path.id member inside⟩
    · exact enrolls

theorem gathers_obtain {stage : Stage} {path : Path}
    (grows : graph.Grows (graph.obtain stat stage path).2) :
    graph.Gathers (graph.obtain stat stage path).2 where
  edges := graph.edges_obtain stat stage path
  addressed := fun _ _ found => grows.addressed found
  modifiers := grows.modifiers
  contributions := grows.contributions
  members := by
    intro own form path member inside
    rw [grows.members]
    exact inside

theorem members_changeRoster {slot : SlotId} {filled : Slot} {pipeline : Pipeline}
    (here : graph.pipelines.get? slot.stat = some pipeline) (memberships : Nat)
    (change : Delta ModifierId) (widens : Bool) (own : StatId) (form : Form) (path : PathId) :
    (graph.changeRoster slot filled memberships change widens).members own form path =
      if own = slot.stat ∧ form = slot.form ∧ path = slot.path then filled.roster.members
      else graph.members own form path := by
  rw [← members_enterRoster here, members, show (graph.changeRoster slot filled memberships change
    widens).pipelines = (graph.enterRoster slot filled memberships).pipelines from
      congrArg Shape.pipelines (graph.shape_changeRoster slot filled memberships change widens)]
  rfl

theorem gathers_changeRoster {slot : SlotId} {filled : Slot} {pipeline : Pipeline}
    (here : graph.pipelines.get? slot.stat = some pipeline) (memberships : Nat)
    (more : ∀ member ∈ graph.members slot.stat slot.form slot.path, member ∈ filled.roster.members)
    (change : Delta ModifierId) (widens : Bool) :
    graph.Gathers (graph.changeRoster slot filled memberships change widens) := by
  have shape := graph.shape_changeRoster slot filled memberships change widens
  refine ⟨(fades_invalidateAll _ _).edges, ?_, congrArg Shape.modifiers shape,
    congrArg Shape.contributions shape, ?_⟩
  · intro node address found
    rw [addressOf?_of_shape shape]
    exact found
  · intro own form path member inside
    rw [members_changeRoster here]
    split
    · next equal =>
      obtain ⟨rfl, rfl, rfl⟩ := equal
      exact more member inside
    · exact inside

theorem gathers_relink (graph : Graph) (links : Links) (entry : Record) (source target : StatId) :
    graph.Gathers (graph.relink links entry source target) := by
  have shape := graph.shape_relink links entry source target
  refine ⟨?_, ?_, congrArg Shape.modifiers shape, congrArg Shape.contributions shape, ?_⟩
  · rw [relink, linkChanged_eq]
    exact (fades_invalidateAll _ _).edges
  · intro node address found
    rw [addressOf?_of_shape shape]
    exact found
  · intro own form path member inside
    rw [members, show (graph.relink links entry source target).pipelines = graph.pipelines from
      congrArg Shape.pipelines shape]
    exact inside

/-- To put a roster in its place and invalidate the stages one after the other is one change of
the roster. -/
theorem changeRoster_eq (graph : Graph) (slot : SlotId) (filled : Slot) (memberships : Nat)
    (change : Delta ModifierId) (widens : Bool) :
    graph.changeRoster slot filled memberships change widens =
      let changed := ((graph.enterRoster slot filled memberships).modifyPending
        (·.submitSlot slot change)).invalidateStage slot.stat slot.form.stage slot.path
      if widens then changed.invalidateStage slot.stat .uncappedSubtotal .main else changed := by
  have kept : ((graph.enterRoster slot filled memberships).modifyPending
      (·.submitSlot slot change)).node? = graph.node? :=
    graph.node?_enterRoster slot filled memberships
  simp only [invalidateStage_eq, node?_invalidateAll, kept]
  cases widens with
  | false => simp [changeRoster, rosterStarts]
  | true => simp [changeRoster, rosterStarts, invalidateAll_append]

theorem invalidateStage_of_found {other : Graph} (same : other.node? = graph.node?) {own : StatId}
    {stage : Stage} {path : PathId} {node : NodeId}
    (found : graph.node? own stage path = some node) :
    other.invalidateStage own stage path = other.invalidate node := by
  rw [invalidateStage, same, found]

/-- Link the ends of a stat that a first modifier contributes to. -/
def linkIf (graph : Graph) (first : Prop) [Decidable first] (stat : Stat) : Graph :=
  if first then
    match stat.ends? with
    | some (source, target) =>
        graph.relink (graph.links.register stat) (.linked source.id target.id) source.id target.id
    | none => graph
  else graph

/-- The roster that a modifier enters, which is empty if it is missing. -/
def seat (modifier : Modifier) (pipeline : Pipeline) : Slot :=
  (pipeline.slots.get? (modifier.form, modifier.path.id)).getD { path := modifier.path }

/-- The change of a roster that a modifier enters. -/
def receive (graph : Graph) (modifier : Modifier) (stat : StatId) (pipeline : Pipeline)
    (roster : Roster ModifierId) (change : Delta ModifierId) : Graph :=
  graph.changeRoster ⟨stat, modifier.form, modifier.path.id⟩
    { seat modifier pipeline with roster } (pipeline.memberships + 1) change
    (!modifier.path.isMain && !pipeline.hasMembersOn modifier.path.id)

/-- A modifier that is new to a roster enters it by one change of the roster and, if it is the
first of its stat, one of the links. -/
theorem joinRoster_eq {node : NodeId} {ready : Graph} {pipeline : Pipeline}
    {roster : Roster ModifierId} {change : Delta ModifierId}
    (obtained : graph.obtain stat modifier.form.stage modifier.path = (node, ready))
    (collects : ready.node? stat.id modifier.form.stage modifier.path.id = some node)
    (here : ready.pipelines.get? stat.id = some pipeline)
    (added : (seat modifier pipeline).roster.add? modifier.id = some (roster, change)) :
    joinRoster modifier graph stat =
      (ready.receive modifier stat.id pipeline roster change).linkIf
        (pipeline.memberships + 1 = 1) pipeline.stat := by
  have kept (slot : SlotId) (filled : Slot) (memberships : Nat) :
      ((ready.enterRoster slot filled memberships).modifyPending
        (·.submitSlot slot change)).node? = ready.node? :=
    ready.node?_enterRoster slot filled memberships
  rw [seat] at added
  rw [receive, changeRoster_eq, invalidateStage_of_found (kept _ _ _) collects]
  simp only [joinRoster, obtained, here, added, seat]
  rfl

/-- A modifier that joins a roster finds itself there already, or it enters the roster. -/
theorem joinRoster_cases (formed : graph.WellFormed vocabulary) (stacked : graph.Stacked)
    (resolved : stat.isResolved = true) (within : stat.HeadWithin vocabulary)
    (route : modifier.path.Within vocabulary) :
    ∃ ready pipeline, ready = (graph.obtain stat modifier.form.stage modifier.path).2 ∧
      ready.pipelines.get? stat.id = some pipeline ∧
        (joinRoster modifier graph stat = ready ∧
            modifier.id ∈ (seat modifier pipeline).roster.members ∨
          ∃ roster change,
            (seat modifier pipeline).roster.add? modifier.id = some (roster, change) ∧
              joinRoster modifier graph stat =
                (ready.receive modifier stat.id pipeline roster change).linkIf
                  (pipeline.memberships + 1 = 1) pipeline.stat) := by
  have collects : (graph.obtain stat modifier.form.stage modifier.path).2.node? stat.id
      modifier.form.stage modifier.path.id =
        some (graph.obtain stat modifier.form.stage modifier.path).1 :=
    node?_obtain formed stacked resolved within route
  rcases obtained : graph.obtain stat modifier.form.stage modifier.path with ⟨node, ready⟩
  rw [obtained] at collects
  obtain ⟨pipeline, here, _⟩ := Option.bind_eq_some_iff.mp collects
  refine ⟨ready, pipeline, rfl, here, ?_⟩
  cases added : (seat modifier pipeline).roster.add? modifier.id with
  | none =>
      left
      refine ⟨?_, by simpa [Roster.add?] using added⟩
      rw [seat] at added
      simp only [joinRoster, obtained, here, added]
  | some outcome =>
      right
      exact ⟨outcome.1, outcome.2, rfl, joinRoster_eq obtained collects here added⟩

theorem turns_linkIf (closed : vocabulary.Closed)
    (sound : graph.Sound vocabulary) (first : Prop) [Decidable first]
    (within : stat.HeadWithin vocabulary) :
    Turns vocabulary graph (graph.linkIf first stat) := by
  unfold linkIf
  split
  · split
    · next source target ends =>
      exact turns_relink sound (Links.relinks_register _ ends)
        (sound.formed.links.register closed within) rfl
    · exact .refl sound
  · exact .refl sound

theorem gathers_linkIf (graph : Graph) (first : Prop) [Decidable first] (stat : Stat) :
    graph.Gathers (graph.linkIf first stat) := by
  unfold linkIf
  split
  · split
    · exact graph.gathers_relink _ _ _ _
    · exact .refl graph
  · exact .refl graph

theorem rosterAudience_seat {pipeline : Pipeline}
    (here : graph.pipelines.get? stat.id = some pipeline) :
    (seat modifier pipeline).roster.subscribers =
      graph.rosterAudience ⟨stat.id, modifier.form, modifier.path.id⟩ := by
  simp only [rosterAudience, roster?, here, Option.bind_some, seat]
  cases pipeline.slots.get? (modifier.form, modifier.path.id) <;> rfl

/-- The roster that a modifier enters has the members of the graph there. -/
theorem members_seat {pipeline : Pipeline}
    (here : graph.pipelines.get? stat.id = some pipeline) :
    (seat modifier pipeline).roster.members =
      graph.members stat.id modifier.form modifier.path.id := by
  simp only [members, here, Pipeline.members, seat]
  cases pipeline.slots.get? (modifier.form, modifier.path.id) <;> rfl

theorem seat_wellFormed {modifiers : Table ModifierId Modifier} {own : StatId}
    {pipeline : Pipeline} (formed : pipeline.WellFormed vocabulary modifiers own)
    (route : modifier.path.Within vocabulary) :
    (seat modifier pipeline).WellFormed vocabulary modifiers own modifier.form modifier.path.id := by
  unfold seat
  cases there : pipeline.slots.get? (modifier.form, modifier.path.id) with
  | some slot => exact formed.slots _ _ slot there
  | none => exact ⟨rfl, modifier.path_at, route, List.nodup_nil, by simp⟩

/-- To let a modifier into a roster is a turn. -/
theorem turns_receive (sound : graph.Sound vocabulary)
    (known : graph.modifiers.get? modifier.id = some modifier) (member : stat ∈ modifier.stats)
    (route : modifier.path.Within vocabulary) {pipeline : Pipeline} {roster : Roster ModifierId}
    {change : Delta ModifierId} (here : graph.pipelines.get? stat.id = some pipeline)
    (added : (seat modifier pipeline).roster.add? modifier.id = some (roster, change)) :
    Turns vocabulary graph (graph.receive modifier stat.id pipeline roster change) ∧
      graph.Gathers (graph.receive modifier stat.id pipeline roster change) := by
  have fits := seat_wellFormed (sound.formed.pipelines _ pipeline here) route
  obtain ⟨filledFits, subscribers, joined⟩ := fits.add known ⟨stat, member, rfl⟩ added
  have inside : modifier.id ∈ roster.members := by simp [joined]
  constructor
  · refine turns_changeRoster sound here filledFits ?_ (subscribers.trans (rosterAudience_seat here))
    by_cases main : modifier.path.isMain = true
    · right
      left
      rw [PathOf.isMain_iff] at main
      rw [main]
      rfl
    · by_cases before : pipeline.hasMembersOn modifier.path.id = true
      · right
        right
        exact ⟨before, Pipeline.hasMembersOn_of_mem (Table.get?_insert_self _ _ _) inside⟩
      · left
        simp [main, before]
  · apply gathers_changeRoster here _ _ change
    intro old before
    rw [← members_seat here] at before
    simp only [joined, List.mem_append]
    exact Or.inl before

/-- Entering a modifier into a roster is a turn. -/
theorem turns_joinRoster (closed : vocabulary.Closed) (sound : graph.Sound vocabulary)
    (known : graph.modifiers.get? modifier.id = some modifier) (member : stat ∈ modifier.stats)
    (resolved : stat.isResolved = true) :
    Turns vocabulary graph (joinRoster modifier graph stat) ∧
      graph.Gathers (joinRoster modifier graph stat) := by
  have within := (sound.formed.present _ modifier known).2.1.stats stat member
  have route : modifier.path.Within vocabulary := Modifier.Within.path closed modifier
  have obtains : Turns vocabulary graph (graph.obtain stat modifier.form.stage modifier.path).2 :=
    turns_obtain sound resolved within route
  have gathers : graph.Gathers (graph.obtain stat modifier.form.stage modifier.path).2 :=
    gathers_obtain (advances_obtain sound.formed sound.stacked resolved within route).grows
  obtain ⟨ready, pipeline, rfl, here, ⟨same, _⟩ | ⟨roster, change, added, same⟩⟩ :=
    joinRoster_cases sound.formed sound.stacked resolved within route
  · rw [same]
    exact ⟨obtains, gathers⟩
  · rw [same]
    obtain ⟨admits, collects⟩ :=
      turns_receive obtains.sound (gathers.modifiers ▸ known) member route here added
    have kept := obtains.sound.formed.pipelines _ pipeline here
    have links := turns_linkIf closed admits.sound (pipeline.memberships + 1 = 1) kept.within
    exact ⟨(obtains.trans admits).trans links,
      (gathers.trans collects).trans (gathers_linkIf _ _ _)⟩

/-! ### A new modifier -/

/-- Put a modifier into the table of modifiers and make the node of its contribution. -/
def introduce (graph : Graph) (modifier : Modifier) : Graph :=
  { (graph.addNode (.contribution modifier.id)).2 with
    contributions := graph.contributions.insert modifier.id ⟨graph.nextNode⟩
    modifiers := graph.modifiers.insert modifier.id modifier }

section Introduction

variable (formed : graph.WellFormed vocabulary) (absent : graph.modifiers.get? modifier.id = none)

include formed

theorem addressed_introduce {node : NodeId} {address : Address}
    (found : graph.addressOf? node = some address) :
    (graph.introduce modifier).addressOf? node = some address :=
  addressed_addNode (.contribution modifier.id) formed found

omit formed in
theorem address_introduce {node : NodeId} {address : Address}
    (found : (graph.introduce modifier).addressOf? node = some address) :
    (node = ⟨graph.nextNode⟩ ∧ address = .contribution modifier.id) ∨
      graph.addressOf? node = some address :=
  @addressOf?_addNode_cases graph (.contribution modifier.id) address node found

include absent

theorem uncontributed : graph.contributions.get? modifier.id = none := by
  rw [Option.eq_none_iff_forall_ne_some]
  intro node found
  have known := (formed.contributed _ _ (formed.contributing _ _ found)).2
  rw [absent] at known
  contradiction

omit formed in
theorem modifiers_introduce {member : ModifierId} {present : Modifier}
    (found : graph.modifiers.get? member = some present) :
    (graph.introduce modifier).modifiers.get? member = some present := by
  refine (Table.get?_insert _ _ _ _).trans ?_
  rw [if_neg, found]
  rintro rfl
  rw [absent] at found
  contradiction

theorem WellFormed.introduce (within : modifier.Within vocabulary) :
    (graph.introduce modifier).WellFormed vocabulary where
  numbered := fun _ _ found => numbered_addNode (.contribution modifier.id) formed found
  listed := by
    intro own pipeline stage path node here found
    obtain ⟨full, address, rest⟩ := formed.listed own pipeline stage path node here found
    exact ⟨full, addressed_introduce formed address, rest⟩
  named := by
    intro node own stage path found
    rcases address_introduce found with ⟨_, same⟩ | before
    · contradiction
    · exact formed.named node own stage path before
  addressed := by
    intro node own stage path found
    rcases address_introduce found with ⟨_, same⟩ | before
    · contradiction
    · exact formed.addressed node own stage path before
  contributing := by
    intro member node found
    replace found := (Table.get?_insert _ _ _ _).symm.trans found
    split at found
    · next same =>
      cases found
      subst same
      exact (graph.addressOf?_addNode _ _).trans (if_pos rfl)
    · exact addressed_introduce formed (formed.contributing member node found)
  contributed := by
    intro node member found
    rcases address_introduce found with ⟨rfl, same⟩ | before
    · cases same
      exact ⟨Table.get?_insert_self _ _ _, by
        rw [Graph.introduce, Table.get?_insert_self]
        rfl⟩
    · obtain ⟨there, known⟩ := formed.contributed node member before
      obtain ⟨present, known⟩ := Option.isSome_iff_exists.mp known
      refine ⟨(Table.get?_insert_other _ ?_ _).trans there, ?_⟩
      · rintro rfl
        rw [absent] at known
        contradiction
      · rw [modifiers_introduce absent known]
        rfl
  present := by
    intro id present found
    replace found := (Table.get?_insert _ _ _ _).symm.trans found
    split at found
    · next same =>
      cases found
      subst same
      exact ⟨rfl, within, by rw [Graph.introduce, Table.get?_insert_self]; rfl⟩
    · next other =>
      obtain ⟨same, inside, there⟩ := formed.present id present found
      refine ⟨same, inside, ?_⟩
      rw [Graph.introduce, Table.get?_insert_other _ other]
      exact there
  pipelines := by
    intro own pipeline here
    have kept := formed.pipelines own pipeline here
    refine ⟨kept.keyed, kept.resolved, kept.within, ?_⟩
    intro form path slot filled
    have fits := kept.slots form path slot filled
    refine ⟨fits.path_id, fits.place, fits.within, fits.distinct, ?_⟩
    intro member inside
    obtain ⟨present, known, rest⟩ := fits.enrolled member inside
    exact ⟨present, modifiers_introduce absent known, rest⟩
  behaviors := formed.behaviors
  links := formed.links

theorem alters_introduce : graph.Alters (graph.introduce modifier) Clean Clean := by
  have edges : (graph.introduce modifier).edges = graph.edges := rfl
  apply Alters.of_content edges
  · intro node
    refine (congrArg (Option.bind · _) (Table.get?_insert _ _ _ _)).trans ?_
    split
    · next same =>
      rw [same, known, formed.fresh]
      rfl
    · rfl
  · rintro (⟨own, stage, path⟩ | member) node found
    · exact found
    · refine (Table.get?_insert_other _ ?_ _).trans found
      rintro rfl
      have missing := uncontributed formed absent
      rw [located, missing] at found
      contradiction
  · intro node address found
    exact addressed_introduce formed found
  · intro node address _ found
    refine ⟨?_, ?_⟩
    · cases address with
      | contribution member =>
          obtain ⟨present, known⟩ :=
            Option.isSome_iff_exists.mp (formed.contributed node member found).2
          rw [planOf_contribution known, planOf_contribution (modifiers_introduce absent known)]
      | pipeline own stage path =>
          apply planOf_congr _ (formed.node?_of_address found).2
            fun pipeline here => (formed.pipelines own pipeline here).keyed
          refine ⟨rfl, fun _ _ => rfl, ?_, fun _ _ _ => ⟨rfl, Or.inl rfl⟩,
            fun _ _ => ⟨rfl, rfl⟩, fun _ => rfl⟩
          intro _ member inside
          obtain ⟨present, known, _⟩ := formed.enrolled inside
          rw [priorityOf, priorityOf, known, modifiers_introduce absent known]
    · cases address <;> rfl

theorem turns_introduce (sound : graph.Sound vocabulary) (within : modifier.Within vocabulary) :
    Turns vocabulary graph (graph.introduce modifier) := by
  have stacked := Stacked.addNode (.contribution modifier.id) formed sound.stacked
  refine .of_clean sound ⟨formed.introduce absent within, ⟨stacked.computing, stacked.distinct,
    stacked.outdated⟩, sound.idle⟩ ?_ (fun _ => alters_introduce formed absent) fun _ _ none => none.elim
  refine { Audience.of_grows (.refl graph) with staged := ?_, watched := ?_ }
  · intro node present _ found
    exact ⟨present.cache, get?_addNode (.contribution modifier.id) formed found⟩
  · intro node present found watched
    rcases get?_addNode_cases found with unwatched | before
    · exact absurd unwatched watched
    · exact ⟨present.cache, before⟩

end Introduction

/-- A modifier is about to join the roster of one of its stats. -/
structure Joining (vocabulary : Vocabulary) (modifier : Modifier) (graph : Graph) (stat : Stat) :
    Prop where
  sound : graph.Sound vocabulary
  known : graph.modifiers.get? modifier.id = some modifier
  member : stat ∈ modifier.stats
  resolved : stat.isResolved = true

theorem Joining.within (joining : Joining vocabulary modifier graph stat) :
    stat.HeadWithin vocabulary :=
  (joining.sound.formed.present _ modifier joining.known).2.1.stats stat joining.member

/-- What is true of no rosters, and of some more if it is true of the graph on which a modifier joined
the first of them, is true of all rosters that a modifier joins one after the other. -/
@[elab_as_elim]
theorem joinRosters_induct (closed : vocabulary.Closed) {motive : List Stat → Graph → Prop}
    (stats : List Stat) (graph : Graph) (sound : graph.Sound vocabulary)
    (known : graph.modifiers.get? modifier.id = some modifier)
    (named : ∀ stat ∈ stats, stat ∈ modifier.stats ∧ stat.isResolved = true)
    (nil : ∀ graph, graph.Sound vocabulary → motive [] graph)
    (cons : ∀ head rest graph, Joining vocabulary modifier graph head →
      motive rest (joinRoster modifier graph head) → motive (head :: rest) graph) :
    motive stats graph := by
  induction stats generalizing graph with
  | nil => exact nil graph sound
  | cons head rest inductionHypothesis =>
      obtain ⟨member, resolved⟩ := named head List.mem_cons_self
      obtain ⟨turns, gathers⟩ := turns_joinRoster closed sound known member resolved
      exact cons head rest graph ⟨sound, known, member, resolved⟩
        (inductionHypothesis _ turns.sound (gathers.modifiers ▸ known)
          fun stat inside => named stat (List.mem_cons_of_mem head inside))

theorem turns_joinRosters (closed : vocabulary.Closed) {stats : List Stat}
    (sound : graph.Sound vocabulary)
    (known : graph.modifiers.get? modifier.id = some modifier)
    (named : ∀ stat ∈ stats, stat ∈ modifier.stats ∧ stat.isResolved = true) :
    Turns vocabulary graph (stats.foldl (joinRoster modifier) graph) ∧
      graph.Gathers (stats.foldl (joinRoster modifier) graph) := by
  refine joinRosters_induct closed stats graph sound known named ?_ ?_
  · exact fun graph sound => ⟨.refl sound, .refl graph⟩
  · rintro head rest graph ⟨sound, known, member, resolved⟩ ⟨turns, gathers⟩
    obtain ⟨first, collects⟩ := turns_joinRoster closed sound known member resolved
    exact ⟨first.trans turns, collects.trans gathers⟩

/-- Adding a modifier is a turn. -/
theorem turns_addModifier (closed : vocabulary.Closed) (sound : graph.Sound vocabulary)
    (wired : graph.Wired) (within : modifier.Within vocabulary) :
    Turns vocabulary graph (graph.addModifier modifier).2 ∧
      (graph.addModifier modifier).2.Wired := by
  unfold addModifier
  split
  · exact ⟨.refl sound, wired⟩
  · next fresh =>
    split
    · exact ⟨.refl sound, wired⟩
    · next bound =>
      have noted : Turns vocabulary graph
          (graph.record (.adding modifier.id modifier.description)) :=
        .of_advance sound (.record sound.formed sound.stacked rfl) (.of_shape rfl rfl rfl)
      have absent : (graph.record (.adding modifier.id modifier.description)).modifiers.get?
          modifier.id = none := by
        show graph.modifiers.get? modifier.id = none
        simpa [Table.contains] using fresh
      have resolved : ∀ stat ∈ modifier.stats, stat ∈ modifier.stats ∧ stat.isResolved = true := by
        intro stat member
        refine ⟨member, ?_⟩
        simpa using List.find?_eq_none.mp bound stat member
      have introduced := turns_introduce noted.sound.formed absent noted.sound within
      obtain ⟨joined, gathers⟩ := turns_joinRosters closed introduced.sound
        (Table.get?_insert_self _ _ _) resolved
      refine ⟨(noted.trans introduced).trans joined, gathers.wired ?_⟩
      refine wired.keep (fun _ _ feeds => feeds) (fun producer consumer feeds => ?_)
        fun _ _ address _ _ _ enrolls => ?_
      · obtain ⟨first, here⟩ := wired.producer producer consumer feeds
        obtain ⟨second, there, _⟩ := wired.enrolled producer consumer feeds
        exact ⟨(addressed_introduce noted.sound.formed here).trans here.symm,
          (addressed_introduce noted.sound.formed there).trans there.symm⟩
      · cases address <;> exact enrolls

end Graph
end CharacterSheet
