import CharacterSheet.Proofs.Change.Tallying

/-!
Contract: which modifiers stand in which rosters.

Owns:
- the numbers of memberships that pipelines keep, and what they have to do with rosters;
- what joining and leaving do to the members of every roster;
- the roll of the modifiers that a run of operations has added and not removed since: after any
  run, each roster lists the modifiers of the roll that serve there, in the order of the roll;
- what lasts: what no move, no addition and no removal takes away holds after every run.
-/

namespace CharacterSheet

/-- A value that is put into a table counts instead of the one that it replaces. -/
theorem Table.sum_insert {κ α : Type} [DecidableEq κ] (table : Table κ α) (key : κ) (value : α)
    (weight : α → Nat) :
    ((table.insert key value).values.map weight).sum + (table.get? key).elim 0 weight =
      (table.values.map weight).sum + weight value := by
  obtain ⟨entries, distinct⟩ := table
  simp only [insert, values, get?]
  clear distinct
  induction entries with
  | nil => simp [putIn, findIn]
  | cons entry rest inductionHypothesis =>
      by_cases own : entry.1 = key
      · simp only [putIn, findIn, own, ↓reduceIte, List.map_cons, List.sum_cons, Option.elim_some]
        omega
      · simp only [putIn, findIn, own, ↓reduceIte, List.map_cons, List.sum_cons]
        omega

/-! ### Joining and leaving -/

/-- Whether a modifier belongs to a roster of one of some stats: the stat is among them, and the
form and the path are its own. -/
def Modifier.ServesAmong (modifier : Modifier) (stats : List Stat) (stat : StatId) (form : Form)
    (path : PathId) : Prop :=
  (∃ named ∈ stats, named.id = stat) ∧ modifier.form = form ∧ modifier.path.id = path

/-- Whether a modifier belongs to a roster. -/
def Modifier.Serves (modifier : Modifier) (stat : StatId) (form : Form) (path : PathId) : Prop :=
  modifier.ServesAmong modifier.stats stat form path

instance (modifier : Modifier) (stats : List Stat) (stat : StatId) (form : Form) (path : PathId) :
    Decidable (modifier.ServesAmong stats stat form path) :=
  inferInstanceAs (Decidable (_ ∧ _ ∧ _))

instance (modifier : Modifier) (stat : StatId) (form : Form) (path : PathId) :
    Decidable (modifier.Serves stat form path) :=
  inferInstanceAs (Decidable (modifier.ServesAmong _ _ _ _))

theorem Modifier.servesAmong_append {modifier : Modifier} {first second : List Stat} {stat : StatId}
    {form : Form} {path : PathId} :
    modifier.ServesAmong (first ++ second) stat form path ↔
      modifier.ServesAmong first stat form path ∨ modifier.ServesAmong second stat form path := by
  simp only [ServesAmong, List.mem_append, or_and_right, exists_or]

theorem Modifier.servesAmong_singleton {modifier : Modifier} {named : Stat} {stat : StatId}
    {form : Form} {path : PathId} :
    modifier.ServesAmong [named] stat form path ↔
      stat = named.id ∧ form = modifier.form ∧ path = modifier.path.id := by
  simp only [ServesAmong, List.mem_singleton, exists_eq_left]
  exact ⟨fun ⟨first, second, third⟩ => ⟨first.symm, second.symm, third.symm⟩,
    fun ⟨first, second, third⟩ => ⟨first.symm, second.symm, third.symm⟩⟩

theorem Pipeline.length_members (pipeline : Pipeline) (form : Form) (path : PathId) :
    (pipeline.members form path).length =
      (pipeline.slots.get? (form, path)).elim 0 fun slot => slot.roster.members.length := by
  unfold members
  cases pipeline.slots.get? (form, path) <;> rfl

/-- A roster that is put in its place counts instead of the one that was there. -/
theorem Pipeline.enrollment_fill (pipeline : Pipeline) (form : Form) (path : PathId) (filled : Slot)
    (memberships : Nat) :
    (pipeline.fill form path filled memberships).enrollment + (pipeline.members form path).length =
      pipeline.enrollment + filled.roster.members.length := by
  rw [length_members]
  exact pipeline.slots.sum_insert (form, path) filled fun slot => slot.roster.members.length

theorem Pipeline.length_members_le (pipeline : Pipeline) (form : Form) (path : PathId) :
    (pipeline.members form path).length ≤ pipeline.enrollment := by
  have emptied := pipeline.enrollment_fill form path { path := .main } 0
  simp only [List.length_nil] at emptied
  omega

namespace Graph

variable {vocabulary : Vocabulary} {graph middle other : Graph} {modifier : Modifier} {stat : Stat}

/-- A pipeline from which a member can be taken has at least one membership. -/
theorem Counted.positive (counted : graph.Counted) {own : StatId} {pipeline : Pipeline} {form : Form}
    {path : PathId} {slot : Slot} {member : ModifierId}
    {changed : Roster ModifierId × Delta ModifierId}
    (here : graph.pipelines.get? own = some pipeline)
    (filled : pipeline.slots.get? (form, path) = some slot)
    (removed : slot.roster.remove? member = some changed) : 0 < pipeline.memberships := by
  have inside : member ∈ pipeline.members form path := by
    rw [Pipeline.members, filled]
    unfold Roster.remove? at removed
    split at removed
    · assumption
    · contradiction
  rw [counted own pipeline here]
  exact Nat.lt_of_lt_of_le (List.length_pos_of_mem inside) (pipeline.length_members_le form path)

/-- A change of a roster keeps the numbers of memberships right if it changes the number of its
pipeline by as much as the roster. -/
theorem counted_changeRoster {slot : SlotId} {filled : Slot} {pipeline : Pipeline}
    {memberships : Nat} (here : graph.pipelines.get? slot.stat = some pipeline)
    (balanced : memberships + (graph.members slot.stat slot.form slot.path).length =
      pipeline.memberships + filled.roster.members.length) (counted : graph.Counted)
    (change : Delta ModifierId) (widens : Bool) :
    (graph.changeRoster slot filled memberships change widens).Counted := by
  have shape := graph.shape_changeRoster slot filled memberships change widens
  intro own other there
  rw [show (graph.changeRoster slot filled memberships change widens).pipelines =
    (graph.enterRoster slot filled memberships).pipelines from congrArg Shape.pipelines shape,
    pipelines_enterRoster] at there
  split at there
  · next same =>
    rw [same, here, Option.map_some] at there
    cases there
    have moved := pipeline.enrollment_fill slot.form slot.path filled memberships
    have before := counted _ pipeline here
    simp only [members, here] at balanced
    show memberships = _
    omega
  · exact counted own other there

/-- Links do not change which rosters there are. -/
theorem pipelines_relink (graph : Graph) (links : Links) (entry : Record) (source target : StatId) :
    (graph.relink links entry source target).pipelines = graph.pipelines :=
  congrArg Shape.pipelines (graph.shape_relink links entry source target)

theorem pipelines_linkIf (graph : Graph) (first : Prop) [Decidable first] (stat : Stat) :
    (graph.linkIf first stat).pipelines = graph.pipelines := by
  unfold linkIf
  split
  · split
    · exact graph.pipelines_relink _ _ _ _
    · rfl
  · rfl

theorem pipelines_unlinkIf (graph : Graph) (last : Prop) [Decidable last] (stat : Stat) :
    (graph.unlinkIf last stat).pipelines = graph.pipelines := by
  unfold unlinkIf
  split
  · split
    · exact graph.pipelines_relink _ _ _ _
    · rfl
  · rfl

theorem members_of_pipelines (same : other.pipelines = graph.pipelines) (stat : StatId) (form : Form)
    (path : PathId) : other.members stat form path = graph.members stat form path := by
  rw [members, members, same]

/-- What a modifier does when it joins the rosters of some stats: it comes last wherever it was
not yet. -/
structure Joins (modifier : Modifier) (stats : List Stat) (graph other : Graph) : Prop where
  counted : graph.Counted → other.Counted
  members : ∀ stat form path, other.members stat form path =
    if modifier.ServesAmong stats stat form path ∧ modifier.id ∉ graph.members stat form path then
      graph.members stat form path ++ [modifier.id]
    else graph.members stat form path

theorem Joins.trans {first second : List Stat} (joins : Joins modifier first graph middle)
    (more : Joins modifier second middle other) : Joins modifier (first ++ second) graph other where
  counted := more.counted ∘ joins.counted
  members := by
    intro stat form path
    rw [more.members, joins.members]
    simp only [Modifier.servesAmong_append]
    by_cases inside : modifier.id ∈ graph.members stat form path
    · simp [inside]
    · by_cases early : modifier.ServesAmong first stat form path <;>
        by_cases late : modifier.ServesAmong second stat form path <;> simp [inside, early, late]

/-- What a modifier does when it leaves the rosters of some stats. -/
structure Quits (modifier : Modifier) (stats : List Stat) (graph other : Graph) : Prop where
  counted : graph.Counted → other.Counted
  members : ∀ stat form path, other.members stat form path =
    if modifier.ServesAmong stats stat form path then
      (graph.members stat form path).filter (· ≠ modifier.id)
    else graph.members stat form path

theorem Quits.trans {first second : List Stat} (quits : Quits modifier first graph middle)
    (more : Quits modifier second middle other) : Quits modifier (first ++ second) graph other where
  counted := more.counted ∘ quits.counted
  members := by
    intro stat form path
    rw [more.members, quits.members]
    simp only [Modifier.servesAmong_append]
    by_cases early : modifier.ServesAmong first stat form path <;>
      by_cases late : modifier.ServesAmong second stat form path <;> simp [early, late]

/-- A roster lets in a modifier that is not there, and adds it behind its members. -/
theorem members_added {pipeline : Pipeline} {roster : Roster ModifierId} {change : Delta ModifierId}
    (here : graph.pipelines.get? stat.id = some pipeline)
    (added : (seat modifier pipeline).roster.add? modifier.id = some (roster, change)) :
    modifier.id ∉ graph.members stat.id modifier.form modifier.path.id ∧
      roster.members = graph.members stat.id modifier.form modifier.path.id ++ [modifier.id] ∧
        change = { added := [modifier.id] } := by
  have seated : (seat modifier pipeline).roster.members =
      graph.members stat.id modifier.form modifier.path.id := members_seat here
  rw [Roster.add?, seated] at added
  split at added
  · contradiction
  · next outside =>
    cases added
    exact ⟨outside, rfl, rfl⟩

/-- A modifier that a roster lets in counts. -/
theorem joins_receive {pipeline : Pipeline} {roster : Roster ModifierId} {change : Delta ModifierId}
    (here : graph.pipelines.get? stat.id = some pipeline)
    (added : (seat modifier pipeline).roster.add? modifier.id = some (roster, change)) :
    Joins modifier [stat] graph (graph.receive modifier stat.id pipeline roster change) := by
  obtain ⟨outside, joined, _⟩ := members_added here added
  constructor
  · intro counted
    refine counted_changeRoster here ?_ counted change _
    simp only [joined, List.length_append, List.length_singleton]
    omega
  · intro own form path
    rw [receive, members_changeRoster here]
    simp only [Modifier.servesAmong_singleton]
    by_cases same : own = stat.id ∧ form = modifier.form ∧ path = modifier.path.id
    · obtain ⟨rfl, rfl, rfl⟩ := same
      simp [outside, joined]
    · rw [if_neg same, if_neg fun both => same both.1]

theorem joins_joinRoster (sound : graph.Sound vocabulary) (resolved : stat.isResolved = true)
    (within : stat.HeadWithin vocabulary) (route : modifier.path.Within vocabulary) :
    Joins modifier [stat] graph (joinRoster modifier graph stat) := by
  have opens : graph.Undisturbed (graph.obtain stat modifier.form.stage modifier.path).2 :=
    .of_extends (advances_obtain sound.formed sound.stacked resolved within route).grows.toExtends
  obtain ⟨ready, pipeline, rfl, here, ⟨same, inside⟩ | ⟨roster, change, added, same⟩⟩ :=
    joinRoster_cases sound.formed sound.stacked resolved within route
  · rw [same]
    rw [members_seat here, opens.members] at inside
    refine ⟨opens.counted, fun own form path => ?_⟩
    rw [opens.members, if_neg]
    rintro ⟨serves, outside⟩
    obtain ⟨rfl, rfl, rfl⟩ := Modifier.servesAmong_singleton.mp serves
    exact outside inside
  · rw [same]
    have joins := joins_receive here added
    have links := pipelines_linkIf ((graph.obtain stat modifier.form.stage modifier.path).2.receive
      modifier stat.id pipeline roster change) (pipeline.memberships + 1 = 1) pipeline.stat
    refine ⟨fun counted => (joins.counted (opens.counted counted)).of_pipelines links,
      fun own form path => ?_⟩
    rw [members_of_pipelines links, joins.members, opens.members]

theorem joins_foldl (closed : vocabulary.Closed) {stats : List Stat} (sound : graph.Sound vocabulary)
    (known : graph.modifiers.get? modifier.id = some modifier)
    (named : ∀ stat ∈ stats, stat ∈ modifier.stats ∧ stat.isResolved = true) :
    Joins modifier stats graph (stats.foldl (joinRoster modifier) graph) := by
  refine joinRosters_induct closed stats graph sound known named ?_ ?_
  · exact fun graph _ => ⟨id, fun stat form path => by simp [Modifier.ServesAmong]⟩
  · intro head rest graph joining later
    have route : modifier.path.Within vocabulary := Modifier.Within.path closed modifier
    exact (joins_joinRoster joining.sound joining.resolved joining.within route).trans later

theorem quits_leaveRoster (formed : graph.WellFormed vocabulary) (modifier : Modifier)
    (stat : Stat) : Quits modifier [stat] graph (leaveRoster modifier graph stat) := by
  rcases graph.leaveRoster_cases modifier stat with ⟨same, absent⟩ |
    ⟨pipeline, slot, roster, change, here, filled, removed, same⟩
  · rw [same]
    refine ⟨id, fun own form path => ?_⟩
    split
    · next serves =>
      obtain ⟨rfl, rfl, rfl⟩ := Modifier.servesAmong_singleton.mp serves
      refine (List.filter_eq_self.mpr fun member inside => ?_).symm
      simp only [ne_eq, decide_eq_true_eq]
      rintro rfl
      exact absent inside
    · rfl
  · have listed := members_of_filled here filled
    have fits := (formed.pipelines _ pipeline here).slots _ _ slot filled
    obtain ⟨_, _, inside, erased⟩ := fits.remove removed
    have unlinks := pipelines_unlinkIf (graph.dismiss modifier stat.id pipeline
      { slot with roster } change) (pipeline.memberships - 1 = 0) pipeline.stat
    rw [same]
    constructor
    · intro counted
      refine Counted.of_pipelines (counted_changeRoster here ?_ counted change _) unlinks
      have length : roster.members.length = slot.roster.members.length - 1 := by
        rw [erased]
        exact List.length_erase_of_mem inside
      have some := List.length_pos_of_mem inside
      have positive := counted.positive here filled removed
      show pipeline.memberships - 1 + (graph.members _ _ _).length = _ + roster.members.length
      rw [listed]
      omega
    · intro own form path
      rw [members_of_pipelines unlinks, dismiss, members_changeRoster here]
      simp only [Modifier.servesAmong_singleton]
      split
      · next equal =>
        obtain ⟨rfl, rfl, rfl⟩ := equal
        rw [listed]
        show roster.members = _
        rw [erased, fits.distinct.erase_eq_filter]
        exact List.filter_congr fun member _ => by rw [Bool.eq_iff_iff]; simp
      · rfl

theorem quits_foldl (modifier : Modifier) (stats : List Stat) (sound : graph.Sound vocabulary) :
    Quits modifier stats graph (stats.foldl (leaveRoster modifier) graph) := by
  induction stats generalizing graph with
  | nil => exact ⟨id, fun stat form path => by simp [Modifier.ServesAmong]⟩
  | cons head rest inductionHypothesis =>
      have leaves := (leaves_leaveRoster sound modifier head).1
      exact (quits_leaveRoster sound.formed modifier head).trans
        (inductionHypothesis leaves.turns.sound)

/-! ### The roll -/

end Graph

/-- The roll after some modifiers were added until one is refused. A modifier of which a copy is on
the roll changes nothing; it is refused if one of its stats is bound to no concrete entity. -/
def receiveAll (roll : List Modifier) : List Modifier → List Modifier
  | [] => roll
  | modifier :: rest =>
      if modifier.id ∈ roll.map (·.id) then receiveAll roll rest
      else if modifier.unresolved?.isSome then roll
      else receiveAll (roll ++ [modifier]) rest

/-- The modifiers that were added and not removed since, in the order of their latest addition. -/
def Operation.roll (roll : List Modifier) : Operation → List Modifier
  | add modifier => receiveAll roll [modifier]
  | addAll modifiers => receiveAll roll modifiers
  | remove id => roll.filter (·.id ≠ id)
  | removeAll ids => roll.filter (·.id ∉ ids)
  | _ => roll

namespace Graph

variable {vocabulary : Vocabulary} {graph other : Graph} {roll : List Modifier}
  {modifier : Modifier}

/-- The modifiers of a roll are present, each roster lists those of them that serve there, and the
numbers of memberships are right. -/
structure Enrolled (graph : Graph) (roll : List Modifier) : Prop where
  modifiers : graph.modifiers.values = roll
  members : ∀ stat form path, graph.members stat form path =
    (roll.filter (·.Serves stat form path)).map (·.id)
  counted : graph.Counted

theorem Enrolled.initial : ({} : Graph).Enrolled [] :=
  ⟨rfl, fun _ _ _ => rfl, fun _ _ found => by simp at found⟩

theorem Enrolled.undisturbed (enrolled : graph.Enrolled roll)
    (undisturbed : graph.Undisturbed other) : other.Enrolled roll where
  modifiers := by rw [undisturbed.modifiers, enrolled.modifiers]
  members := fun stat form path => by rw [undisturbed.members, enrolled.members]
  counted := undisturbed.counted enrolled.counted

theorem Enrolled.mem_ids_iff (enrolled : graph.Enrolled roll) (formed : graph.WellFormed vocabulary)
    (id : ModifierId) : id ∈ roll.map (·.id) ↔ (graph.modifiers.get? id).isSome := by
  rw [← enrolled.modifiers, List.mem_map, Option.isSome_iff_exists]
  constructor
  · rintro ⟨present, inside, rfl⟩
    obtain ⟨key, found⟩ := (Table.mem_values_iff _ _).mp inside
    obtain ⟨rfl, _⟩ := formed.present key present found
    exact ⟨present, found⟩
  · rintro ⟨present, found⟩
    exact ⟨present, (Table.mem_values_iff _ _).mpr ⟨id, found⟩, (formed.present id present found).1⟩

/-- Where no copy of a modifier is present, nobody on the roll has its identity. -/
theorem Enrolled.ne_of_absent (enrolled : graph.Enrolled roll) (formed : graph.WellFormed vocabulary)
    {id : ModifierId} (absent : graph.modifiers.get? id = none) :
    ∀ present ∈ roll, present.id ≠ id := by
  rintro present member rfl
  have found := (enrolled.mem_ids_iff formed _).mp (List.mem_map_of_mem member)
  rw [absent] at found
  contradiction

/-- Where no copy of a modifier is present, no roster lists it. -/
theorem WellFormed.not_mem_members (formed : graph.WellFormed vocabulary) {id : ModifierId}
    (absent : graph.modifiers.get? id = none) (stat : StatId) (form : Form) (path : PathId) :
    id ∉ graph.members stat form path := by
  intro inside
  obtain ⟨present, found, _⟩ := formed.enrolled inside
  rw [absent] at found
  contradiction

theorem addModifier_present (present : (graph.modifiers.get? modifier.id).isSome) :
    graph.addModifier modifier = (.ok false, graph) := by
  simp only [addModifier, Table.contains, present, ↓reduceIte]

theorem addModifier_unresolved (absent : graph.modifiers.get? modifier.id = none) {stat : Stat}
    (unresolved : modifier.unresolved? = some stat) :
    graph.addModifier modifier = (.error (.unresolvedReference stat.id), graph) := by
  simp only [addModifier, Table.contains, absent, unresolved, Option.isSome_none, Bool.false_eq_true,
    ↓reduceIte]

/-- A modifier is added unless a copy of it is present or it is refused. -/
theorem addModifier_cases (graph : Graph) (modifier : Modifier) :
    ((graph.modifiers.get? modifier.id).isSome ∧ graph.addModifier modifier = (.ok false, graph)) ∨
      (graph.modifiers.get? modifier.id = none ∧
        ((∃ stat, modifier.unresolved? = some stat ∧
            graph.addModifier modifier = (.error (.unresolvedReference stat.id), graph)) ∨
          (∀ stat ∈ modifier.stats, stat.isResolved = true) ∧
            graph.addModifier modifier = (.ok true, modifier.stats.foldl (joinRoster modifier)
              ((graph.record (.adding modifier.id modifier.description)).introduce modifier)))) := by
  cases known : graph.modifiers.get? modifier.id with
  | some present => exact .inl ⟨rfl, addModifier_present (by rw [known]; rfl)⟩
  | none =>
      right
      refine ⟨rfl, ?_⟩
      cases bound : modifier.unresolved? with
      | some stat => exact .inl ⟨stat, rfl, addModifier_unresolved known bound⟩
      | none =>
          right
          refine ⟨fun stat member => ?_, ?_⟩
          · simpa using List.find?_eq_none.mp bound stat member
          · simp only [addModifier, Table.contains, known, bound, Option.isSome_none,
              Bool.false_eq_true, ↓reduceIte]
            rfl

theorem values_insert_of_absent {table : Table ModifierId Modifier} {id : ModifierId}
    (absent : table.get? id = none) (modifier : Modifier) :
    (table.insert id modifier).values = table.values ++ [modifier] := by
  rw [Table.values, Table.entries_insert_of_absent absent, List.map_append]
  rfl

theorem WellFormed.values_erase (formed : graph.WellFormed vocabulary) (id : ModifierId) :
    (graph.modifiers.erase id).values = graph.modifiers.values.filter (·.id ≠ id) := by
  show (graph.modifiers.entries.filter fun entry => !decide (entry.1 = id)).map Prod.snd = _
  rw [Table.values, List.filter_map]
  congr 1
  apply List.filter_congr
  rintro ⟨key, present⟩ member
  have same := (formed.present key present ((Table.get?_eq_some_iff _ _ _).mpr member)).1
  simp [same]

/-- A modifier that is added comes last on the roll. -/
theorem enrolled_introduced (closed : vocabulary.Closed) (intact : graph.Intact vocabulary)
    (enrolled : graph.Enrolled roll) (absent : graph.modifiers.get? modifier.id = none)
    (resolved : ∀ stat ∈ modifier.stats, stat.isResolved = true)
    (within : modifier.Within vocabulary) :
    (modifier.stats.foldl (joinRoster modifier)
      ((graph.record (.adding modifier.id modifier.description)).introduce modifier)).Enrolled
        (roll ++ [modifier]) := by
  have noted := intact.record (.adding modifier.id modifier.description)
  have introduced := turns_introduce noted.formed absent noted.toSound within
  have known : ((graph.record (.adding modifier.id modifier.description)).introduce
      modifier).modifiers.get? modifier.id = some modifier := Table.get?_insert_self _ _ _
  have named : ∀ stat ∈ modifier.stats, stat ∈ modifier.stats ∧ stat.isResolved = true :=
    fun stat member => ⟨member, resolved stat member⟩
  have joins := joins_foldl closed introduced.sound known named
  have gathers := (turns_joinRosters closed introduced.sound known named).2
  constructor
  · rw [gathers.modifiers]
    show (graph.modifiers.insert modifier.id modifier).values = _
    rw [values_insert_of_absent absent, enrolled.modifiers]
  · intro stat form path
    have before : ((graph.record (.adding modifier.id modifier.description)).introduce
        modifier).members stat form path = graph.members stat form path := rfl
    have outside := intact.formed.not_mem_members absent stat form path
    rw [joins.members, before, enrolled.members, List.filter_append, List.map_append]
    rw [enrolled.members] at outside
    by_cases serves : modifier.Serves stat form path
    · rw [if_pos ⟨serves, outside⟩]
      simp [serves]
    · rw [if_neg fun both => serves both.1]
      simp [serves]
  · exact joins.counted enrolled.counted

theorem enrolled_addEach (closed : vocabulary.Closed) {modifiers : List Modifier}
    (within : ∀ modifier ∈ modifiers, modifier.Within vocabulary)
    (intact : graph.Intact vocabulary) (enrolled : graph.Enrolled roll) (count : Nat) :
    (Sheet.addEach graph modifiers count).2.Enrolled (receiveAll roll modifiers) := by
  induction modifiers generalizing graph roll count with
  | nil => exact enrolled
  | cons modifier rest inductionHypothesis =>
      have here := within modifier List.mem_cons_self
      have later : ∀ modifier ∈ rest, modifier.Within vocabulary := fun other member =>
        within other (List.mem_cons_of_mem modifier member)
      have listed := enrolled.mem_ids_iff intact.formed modifier.id
      rcases graph.addModifier_cases modifier with ⟨present, same⟩ |
        ⟨absent, ⟨stat, bound, same⟩ | ⟨resolved, same⟩⟩
      · rw [Sheet.addEach, same, receiveAll, if_pos (listed.mpr present)]
        exact inductionHypothesis later intact enrolled _
      · have outside : modifier.id ∉ roll.map (·.id) := by
          rw [listed, absent]
          exact Bool.false_ne_true
        rw [Sheet.addEach, same, receiveAll, if_neg outside, bound]
        exact enrolled
      · have outside : modifier.id ∉ roll.map (·.id) := by
          rw [listed, absent]
          exact Bool.false_ne_true
        have bound : modifier.unresolved? = none :=
          List.find?_eq_none.mpr fun stat member => by simp [resolved stat member]
        obtain ⟨turns, wired⟩ := turns_addModifier closed intact.toSound intact.wired here
        rw [same] at turns wired
        rw [Sheet.addEach, same, receiveAll, if_neg outside, bound]
        exact inductionHypothesis later (intact.turn turns wired)
          (enrolled_introduced closed intact enrolled absent resolved here) _

/-- A modifier that is removed leaves the roll, and nobody else does. -/
theorem enrolled_removeModifier (intact : graph.Intact vocabulary) (enrolled : graph.Enrolled roll)
    (id : ModifierId) : (graph.removeModifier id).2.Enrolled (roll.filter (·.id ≠ id)) := by
  cases known : graph.modifiers.get? id with
  | none =>
      have outside := enrolled.ne_of_absent intact.formed known
      rw [removeModifier, known, List.filter_eq_self.mpr (by simpa using outside)]
      exact enrolled
  | some modifier =>
      obtain ⟨rfl, _, _⟩ := intact.formed.present id modifier known
      obtain ⟨node, found, removed⟩ := removeModifier_eq intact.toSound known
      have noted := intact.record (.removing modifier.id modifier.description)
      have quits : Quits modifier modifier.stats
          (graph.record (.removing modifier.id modifier.description)) (graph.dismissed modifier) :=
        quits_foldl modifier modifier.stats noted.toSound
      have discards := discards_dismissed intact.toSound known intact.wired.joined node
      rw [removed]
      constructor
      · show (graph.modifiers.erase modifier.id).values = _
        rw [intact.formed.values_erase, enrolled.modifiers]
      · intro stat form path
        have before : (graph.record (.removing modifier.id modifier.description)).members stat form
            path = graph.members stat form path := rfl
        have left : (graph.dismissed modifier).members stat form path =
            (graph.members stat form path).filter (· ≠ modifier.id) := by
          rw [quits.members, before]
          split
          · rfl
          · next elsewhere =>
            -- a modifier stands only in rosters where it serves
            refine (List.filter_eq_self.mpr fun member inside => ?_).symm
            rw [decide_eq_true_eq]
            rintro rfl
            obtain ⟨present, there, rfl, rfl, named⟩ := intact.formed.enrolled inside
            rw [known] at there
            cases there
            exact elsewhere ⟨named, rfl, rfl⟩
        rw [discards.members_retable, left, enrolled.members, List.filter_map, List.filter_comm]
        rfl
      · intro own pipeline here
        exact discards.undisturbed.counted (quits.counted enrolled.counted) own pipeline here

theorem enrolled_removeEach (intact : graph.Intact vocabulary) (enrolled : graph.Enrolled roll)
    (ids : List ModifierId) (count : Nat) :
    (Sheet.removeEach graph ids count).2.Enrolled (roll.filter (·.id ∉ ids)) := by
  induction ids generalizing graph roll count with
  | nil =>
      rw [List.filter_eq_self.mpr fun _ _ => by simp]
      exact enrolled
  | cons id rest inductionHypothesis =>
      have later := inductionHypothesis (Sheet.intact_removeEach intact [id] count)
        (enrolled_removeModifier intact enrolled id)
        (if (graph.removeModifier id).1 then count + 1 else count)
      rw [List.filter_filter] at later
      have same : (roll.filter fun modifier => decide (modifier.id ∉ id :: rest)) =
          roll.filter fun modifier =>
            decide (modifier.id ∉ rest) && decide (modifier.id ≠ id) := by
        apply List.filter_congr
        intro modifier _
        rw [Bool.eq_iff_iff]
        simp [and_comm]
      rw [same]
      exact later

/-- No modifier stands twice in a roster. -/
theorem WellFormed.nodup_members (formed : graph.WellFormed vocabulary) (stat : StatId) (form : Form)
    (path : PathId) : (graph.members stat form path).Nodup := by
  cases here : graph.pipelines.get? stat with
  | none => simp [members, here]
  | some pipeline =>
      cases filled : pipeline.slots.get? (form, path) with
      | none => simp [members, here, Pipeline.members, filled]
      | some slot =>
          rw [members_of_filled here filled]
          exact ((formed.pipelines stat pipeline here).slots form path slot filled).distinct

/-- The members of a roster are the modifiers that serve there. -/
theorem Enrolled.mem_members_iff (enrolled : graph.Enrolled roll) (formed : graph.WellFormed vocabulary)
    (stat : StatId) (form : Form) (path : PathId) (id : ModifierId) :
    id ∈ graph.members stat form path ↔
      ∃ modifier, graph.modifiers.get? id = some modifier ∧ modifier.Serves stat form path := by
  rw [enrolled.members, List.mem_map]
  constructor
  · rintro ⟨modifier, inside, rfl⟩
    obtain ⟨listed, serves⟩ := List.mem_filter.mp inside
    rw [← enrolled.modifiers, Table.mem_values_iff] at listed
    obtain ⟨key, found⟩ := listed
    obtain ⟨rfl, _⟩ := formed.present key modifier found
    exact ⟨modifier, found, of_decide_eq_true serves⟩
  · rintro ⟨modifier, found, serves⟩
    refine ⟨modifier, List.mem_filter.mpr ⟨?_, decide_eq_true serves⟩,
      (formed.present id modifier found).1⟩
    rw [← enrolled.modifiers, Table.mem_values_iff]
    exact ⟨id, found⟩

/-- A modifier is new, by the answer of its addition, if it comes last on the roll. -/
theorem Enrolled.answers (enrolled : graph.Enrolled roll) (formed : graph.WellFormed vocabulary)
    (modifier : Modifier) :
    (graph.addModifier modifier).1 = .ok true ↔ receiveAll roll [modifier] = roll ++ [modifier] := by
  have listed := enrolled.mem_ids_iff formed modifier.id
  rcases graph.addModifier_cases modifier with ⟨present, same⟩ |
    ⟨absent, ⟨stat, bound, same⟩ | ⟨resolved, same⟩⟩
  · simp [same, receiveAll, listed.mpr present]
  · have outside : modifier.id ∉ roll.map (·.id) := by simp [listed, absent]
    simp only [same, receiveAll, if_neg outside, bound]
    simp
  · have outside : modifier.id ∉ roll.map (·.id) := by simp [listed, absent]
    have bound : modifier.unresolved? = none :=
      List.find?_eq_none.mpr fun stat member => by simp [resolved stat member]
    simp only [same, receiveAll, if_neg outside, bound]
    simp

/-! ### Removals -/

/-- Whenever a removal takes a modifier out of a roster, the pipeline has a membership to give up;
whatever was removed before, and whichever rosters the modifier has left already. -/
def Unsaturated (graph : Graph) : Prop :=
  ∀ earlier modifier before stat after pipeline slot changed,
    let started := (Sheet.removeEach graph earlier 0).2
    started.modifiers.get? modifier.id = some modifier →
      modifier.stats = before ++ stat :: after →
        let left := before.foldl (leaveRoster modifier)
          ({ started with modifiers := started.modifiers.erase modifier.id }.record
            (.removing modifier.id modifier.description))
        left.pipelines.get? stat.id = some pipeline →
          pipeline.slots.get? (modifier.form, modifier.path.id) = some slot →
            slot.roster.remove? modifier.id = some changed → 0 < pipeline.memberships

theorem unsaturated_of_enrolled (intact : graph.Intact vocabulary)
    (enrolled : graph.Enrolled roll) : graph.Unsaturated := by
  intro earlier modifier before stat after pipeline slot changed started _ _ left here filled
    removed
  have counted : started.Counted := (enrolled_removeEach intact enrolled earlier 0).counted
  have noted := (Sheet.intact_removeEach intact earlier 0).record
    (.removing modifier.id modifier.description)
  have quits : Quits modifier before (started.record (.removing modifier.id modifier.description))
      (before.foldl (leaveRoster modifier)
        (started.record (.removing modifier.id modifier.description))) :=
    quits_foldl modifier before noted.toSound
  have same : left = (before.foldl (leaveRoster modifier)
      (started.record (.removing modifier.id modifier.description))).withModifiers
        (started.modifiers.erase modifier.id) :=
    foldl_leaveRoster_withModifiers (started.modifiers.erase modifier.id) modifier before
      (started.record (.removing modifier.id modifier.description))
  rw [same] at here
  exact (quits.counted counted).positive here filled removed

end Graph

/-! ### Runs -/

open CharacterSheet.Graph

section Runs

variable {vocabulary : Vocabulary} {sheet : Sheet} {roll : List Modifier}
  (closed : vocabulary.Closed)

include closed

theorem Operation.enrolled_turnover {graph : Graph} (intact : graph.Intact vocabulary)
    (enrolled : graph.Enrolled roll) {operation : Operation}
    (within : operation.Within vocabulary) :
    (operation.turnover graph).Enrolled (operation.roll roll) := by
  cases operation with
  | add modifier =>
      have single : (Sheet.addEach graph [modifier] 0).2 = (graph.addModifier modifier).2 := by
        rw [Sheet.addEach]
        split <;> simp only [*, Sheet.addEach]
      have alone : ∀ other ∈ [modifier], other.Within vocabulary := fun other member =>
        List.mem_singleton.mp member ▸ within
      have added := enrolled_addEach closed alone intact enrolled 0
      rw [single] at added
      exact added
  | addAll modifiers => exact enrolled_addEach closed within intact enrolled 0
  | remove id => exact enrolled_removeModifier intact enrolled id
  | removeAll ids => exact enrolled_removeEach intact enrolled ids 0
  | _ => exact enrolled

theorem Sheet.enrolled_apply (intact : sheet.graph.Intact vocabulary)
    (enrolled : sheet.graph.Enrolled roll) {operation : Operation}
    (within : operation.Within vocabulary) :
    (sheet.apply operation).graph.Enrolled (operation.roll roll) := by
  obtain ⟨start, before, after⟩ := Sheet.moves_apply closed intact within
  have began := enrolled.undisturbed (before.undisturbed intact)
  have turned := operation.enrolled_turnover closed (before.intact intact) began within
  exact turned.undisturbed
    (after.undisturbed (Sheet.intact_turnover closed (before.intact intact) within))

theorem Sheet.enrolled_run {operations : List Operation} (intact : sheet.graph.Intact vocabulary)
    (enrolled : sheet.graph.Enrolled roll)
    (within : ∀ operation ∈ operations, operation.Within vocabulary) :
    (sheet.run operations).graph.Enrolled (operations.foldl Operation.roll roll) := by
  induction operations generalizing sheet roll with
  | nil => exact enrolled
  | cons operation rest inductionHypothesis =>
      have here := within operation List.mem_cons_self
      exact inductionHypothesis (Sheet.intact_apply closed intact here)
        (Sheet.enrolled_apply closed intact enrolled here)
        fun other member => within other (List.mem_cons_of_mem operation member)

/-- What no move, no addition and no removal of a modifier takes away. -/
structure Lasting (vocabulary : Vocabulary) (holds : Graph → Prop) : Prop where
  move : ∀ graph other, graph.Intact vocabulary → Move vocabulary graph other → holds graph → holds other
  add : ∀ graph modifier, graph.Intact vocabulary → graph.Counted → modifier.Within vocabulary →
    holds graph → holds (graph.addModifier modifier).2
  remove : ∀ graph id, graph.Intact vocabulary → graph.Counted → holds graph →
    holds (graph.removeModifier id).2

section Lasting

variable {holds : Graph → Prop} (lasting : Lasting vocabulary holds) {graph : Graph}
include lasting

omit closed in
theorem Lasting.moves {other : Graph} (moves : Moves vocabulary graph other)
    (intact : graph.Intact vocabulary) (before : holds graph) : holds other := by
  induction moves with
  | refl => exact before
  | tail first move inductionHypothesis =>
      exact lasting.move _ _ (Moves.intact first intact) move inductionHypothesis

theorem Lasting.addEach {modifiers : List Modifier}
    (within : ∀ modifier ∈ modifiers, modifier.Within vocabulary) (intact : graph.Intact vocabulary)
    (enrolled : graph.Enrolled roll) (before : holds graph) (count : Nat) :
    holds (Sheet.addEach graph modifiers count).2 := by
  induction modifiers generalizing graph roll count with
  | nil => exact before
  | cons modifier rest inductionHypothesis =>
      have here := within modifier List.mem_cons_self
      have added := lasting.add graph modifier intact enrolled.counted here before
      have enlarged : (graph.addModifier modifier).2.Enrolled (receiveAll roll [modifier]) :=
        (Operation.add modifier).enrolled_turnover closed intact enrolled here
      obtain ⟨turns, wired⟩ := turns_addModifier closed intact.toSound intact.wired here
      have kept := intact.turn turns wired
      rw [Sheet.addEach]
      split
      · next result => rwa [result] at added
      · next result =>
        rw [result] at added enlarged kept
        exact inductionHypothesis (fun other member => within other (List.mem_cons_of_mem modifier member))
          kept enlarged added _

omit closed in
theorem Lasting.removeEach (intact : graph.Intact vocabulary) (enrolled : graph.Enrolled roll)
    (before : holds graph) (ids : List ModifierId) (count : Nat) :
    holds (Sheet.removeEach graph ids count).2 := by
  induction ids generalizing graph roll count with
  | nil => exact before
  | cons id rest inductionHypothesis =>
      exact inductionHypothesis (Sheet.intact_removeEach intact [id] 0)
        (enrolled_removeModifier intact enrolled id)
        (lasting.remove graph id intact enrolled.counted before) _

theorem Lasting.turnover (intact : graph.Intact vocabulary) (enrolled : graph.Enrolled roll)
    (before : holds graph) {operation : Operation} (within : operation.Within vocabulary) :
    holds (operation.turnover graph) := by
  cases operation with
  | add modifier => exact lasting.add graph modifier intact enrolled.counted within before
  | addAll modifiers => exact lasting.addEach closed within intact enrolled before 0
  | remove id => exact lasting.remove graph id intact enrolled.counted before
  | removeAll ids => exact lasting.removeEach intact enrolled before ids 0
  | _ => exact before

theorem Lasting.apply (intact : sheet.graph.Intact vocabulary)
    (enrolled : sheet.graph.Enrolled roll) (before : holds sheet.graph) {operation : Operation}
    (within : operation.Within vocabulary) : holds (sheet.apply operation).graph := by
  obtain ⟨start, first, last⟩ := Sheet.moves_apply closed intact within
  have began := first.intact intact
  have turned := lasting.turnover closed began (enrolled.undisturbed (first.undisturbed intact))
    (lasting.moves first intact before) within
  exact lasting.moves last (Sheet.intact_turnover closed began within) turned

/-- What lasts holds after every run. -/
theorem Lasting.run {operations : List Operation} (intact : sheet.graph.Intact vocabulary)
    (enrolled : sheet.graph.Enrolled roll) (before : holds sheet.graph)
    (within : ∀ operation ∈ operations, operation.Within vocabulary) :
    holds (sheet.run operations).graph := by
  induction operations generalizing sheet roll with
  | nil => exact before
  | cons operation rest inductionHypothesis =>
      have here := within operation List.mem_cons_self
      exact inductionHypothesis (Sheet.intact_apply closed intact here)
        (Sheet.enrolled_apply closed intact enrolled here)
        (lasting.apply closed intact enrolled before here)
        fun other member => within other (List.mem_cons_of_mem operation member)

end Lasting

end Runs

/-- Whatever is done with a new sheet, its rosters are those of its roll. -/
theorem Sheet.enrolled_everything (settings : Settings) (retention : Retention)
    (operations : List Operation) :
    (run { settings, retention } operations).graph.Enrolled (operations.foldl Operation.roll []) :=
  enrolled_run Vocabulary.closed_everything .initial .initial
    (Operation.all_within_everything operations)

/-- After any operations on a new sheet the rosters are those of the modifiers that were added and
not removed since: a modifier stands in exactly the rosters in which it serves, once in each and
in the order of the latest additions; numbers of memberships are right and never cut off at zero;
and each modifier that is present has its node, which is that of no other. -/
theorem rosters_follow_roll (settings : Settings) (retention : Retention)
    (operations : List Operation) :
    let sheet := Sheet.run { settings, retention } operations
    let graph := sheet.graph
    let roll := operations.foldl Operation.roll []
    (graph.modifiers.values = roll ∧ ∀ modifier, (graph.addModifier modifier).1 = .ok true ↔
        receiveAll roll [modifier] = roll ++ [modifier]) ∧
      (∀ stat form path id, id ∈ graph.members stat form path ↔
        ∃ modifier, graph.modifiers.get? id = some modifier ∧
          (∃ named ∈ modifier.stats, named.id = stat) ∧ modifier.form = form ∧
            (modifier.source.path.at form.stage).id = path) ∧
      (∀ stat form path, (graph.members stat form path).Nodup ∧
        graph.members stat form path = (roll.filter (·.Serves stat form path)).map (·.id)) ∧
      (∀ stat pipeline, graph.pipelines.get? stat = some pipeline →
        pipeline.memberships = (pipeline.slots.values.map fun slot => slot.roster.members.length).sum) ∧
      sheet.beginBatch.graph.Unsaturated ∧
      (∀ id, (graph.modifiers.get? id).isSome ↔ (graph.contributions.get? id).isSome) ∧
      ∀ id node, graph.contributions.get? id = some node ↔
        ∃ present, graph.nodes.get? node = some present ∧ present.address = .contribution id := by
  intro sheet graph roll
  have intact : graph.Intact .everything := Sheet.intact_everything settings retention operations
  have formed := intact.formed
  have enrolled : graph.Enrolled roll := Sheet.enrolled_everything settings retention operations
  have begins : Moves .everything graph sheet.beginBatch.graph := (Stir.deepen _).stirs.moves
  refine ⟨⟨enrolled.modifiers, enrolled.answers formed⟩, ?_, ?_, enrolled.counted, ?_, ?_, ?_⟩
  · intro stat form path id
    rw [enrolled.mem_members_iff formed]
    constructor
    · rintro ⟨modifier, found, named, rfl, rfl⟩
      exact ⟨modifier, found, named, rfl, rfl⟩
    · rintro ⟨modifier, found, named, rfl, rfl⟩
      exact ⟨modifier, found, named, rfl, rfl⟩
  · intro stat form path
    exact ⟨formed.nodup_members stat form path, enrolled.members stat form path⟩
  · exact unsaturated_of_enrolled (begins.intact intact)
      (enrolled.undisturbed (begins.undisturbed intact))
  · intro id
    constructor
    · intro present
      obtain ⟨modifier, found⟩ := Option.isSome_iff_exists.mp present
      exact (formed.present id modifier found).2.2
    · intro recorded
      obtain ⟨node, found⟩ := Option.isSome_iff_exists.mp recorded
      exact (formed.contributed node id (formed.contributing id node found)).2
  · intro id node
    have addressed : graph.addressOf? node = some (.contribution id) ↔
        ∃ present, graph.nodes.get? node = some present ∧ present.address = .contribution id :=
      Option.map_eq_some_iff
    rw [← addressed]
    exact ⟨formed.contributing id node, fun found => (formed.contributed node id found).1⟩

end CharacterSheet
