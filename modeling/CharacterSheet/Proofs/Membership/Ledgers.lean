import CharacterSheet.Proofs.Membership.Backing

/-!
Contract: rosters and links follow the calls that add and remove modifiers, and nothing else.

Owns:
- the calls that operations make, one for each modifier that is to come or to go;
- ledgers, which keep the roll and the links of such calls alone;
- the vocabulary of an index, in which an identity stands for one stat;
- after any run the graph agrees with the ledger of the calls that the run made, and graphs with the
  same roll have the same rosters;
- two runs that make the same calls agree in modifiers, rosters, numbers of memberships, links and
  paths, whatever else they do.
-/

namespace CharacterSheet

/-- The vocabulary in which an identity stands for one stat; nothing else is bounded. -/
def Vocabulary.indexed (catalogue : StatId → Stat) : Vocabulary where
  head named := named = catalogue named.id
  stat named := named = catalogue named.id
  path _ := True
  formula _ := True
  behavior _ := True
  main := trivial
  head_of_stat _ listed := listed

theorem Vocabulary.closed_indexed {catalogue : StatId → Stat} :
    (Vocabulary.indexed catalogue).Closed where
  item _ := trivial
  convertedFrom _ _ := trivial
  linking _ listed _ := listed

/-- An identity stands for one stat, whatever else a vocabulary bounds. -/
def Vocabulary.Indexes (vocabulary : Vocabulary) (catalogue : StatId → Stat) : Prop :=
  ∀ named, vocabulary.head named → named = catalogue named.id

theorem Vocabulary.indexes_indexed {catalogue : StatId → Stat} :
    (Vocabulary.indexed catalogue).Indexes catalogue := fun _ listed => listed

/-! ### Calls and ledgers -/

/-- A call by which a modifier is to come or to go. -/
inductive Call where
  | add (modifier : Modifier)
  | remove (id : ModifierId)

/-- The stats of a list that are not named yet, each where it is named first. -/
def unnamed (named : List StatId) : List Stat → List Stat
  | [] => []
  | stat :: rest =>
      if stat.id ∈ named then unnamed named rest else stat :: unnamed (stat.id :: named) rest

/-- The identities of the stats to which the modifiers of a roll contribute. -/
def targetsOf (roll : List Modifier) : List StatId :=
  roll.flatMap fun modifier => modifier.stats.map (·.id)

/-- The roll and the links of a sequence of calls. -/
structure Ledger where
  roll : List Modifier := []
  links : Links := {}

namespace Ledger

/-- The ledger after a modifier came, of which no copy is on the roll: stats to which nobody
contributed are linked. -/
def receive (ledger : Ledger) (modifier : Modifier) : Ledger where
  roll := ledger.roll ++ [modifier]
  links := (unnamed (targetsOf ledger.roll) modifier.stats).foldl Links.register ledger.links

/-- The ledger after a modifier of the roll went: stats to which nobody contributes any more are
unlinked. -/
def dismiss (ledger : Ledger) (modifier : Modifier) : Ledger :=
  let roll := ledger.roll.filter (·.id ≠ modifier.id)
  { roll, links := (unnamed (targetsOf roll) modifier.stats).foldl Links.revoke ledger.links }

/-- The ledger after a call. A modifier of which a copy is on the roll is not added, and neither is
one that names a stat without a concrete entity. -/
def enter (ledger : Ledger) : Call → Ledger
  | .add modifier =>
      if modifier.id ∈ ledger.roll.map (·.id) ∨ modifier.unresolved?.isSome then ledger
      else ledger.receive modifier
  | .remove id =>
      match ledger.roll.find? (·.id = id) with
      | some modifier => ledger.dismiss modifier
      | none => ledger

end Ledger

/-- The calls that add modifiers one after the other, up to the first that is refused. -/
def attempts (ledger : Ledger) : List Modifier → List Call
  | [] => []
  | modifier :: rest =>
      if modifier.id ∉ ledger.roll.map (·.id) ∧ modifier.unresolved?.isSome then [.add modifier]
      else .add modifier :: attempts (ledger.enter (.add modifier)) rest

/-- The calls that an operation makes. -/
def Operation.calls (ledger : Ledger) : Operation → List Call
  | add modifier => [.add modifier]
  | addAll modifiers => attempts ledger modifiers
  | remove id => [.remove id]
  | removeAll ids => ids.map .remove
  | _ => []

/-- The calls that operations make one after the other. -/
def callsMade (ledger : Ledger) : List Operation → List Call
  | [] => []
  | operation :: rest =>
      let calls := operation.calls ledger
      calls ++ callsMade (calls.foldl Ledger.enter ledger) rest

/-- The graph after a call. -/
def Graph.heed (graph : Graph) : Call → Graph
  | .add modifier => (graph.addModifier modifier).2
  | .remove id => (graph.removeModifier id).2

/-! ### Stats that are not named yet -/

theorem mem_targetsOf_iff {roll : List Modifier} {id : StatId} :
    id ∈ targetsOf roll ↔ ∃ modifier ∈ roll, ∃ stat ∈ modifier.stats, stat.id = id := by
  simp only [targetsOf, List.mem_flatMap, List.mem_map]

/-- It only matters which identities are named, and not in which order. -/
theorem unnamed_congr {named other : List StatId} (same : ∀ id, id ∈ named ↔ id ∈ other)
    (stats : List Stat) : unnamed named stats = unnamed other stats := by
  induction stats generalizing named other with
  | nil => rfl
  | cons stat rest inductionHypothesis =>
      rw [unnamed, unnamed, inductionHypothesis same]
      have grown (id : StatId) : id ∈ stat.id :: named ↔ id ∈ stat.id :: other := by
        rw [List.mem_cons, List.mem_cons, same]
      rw [inductionHypothesis grown]
      simp only [same]

theorem mem_unnamed {named : List StatId} {stats : List Stat} {stat : Stat}
    (member : stat ∈ unnamed named stats) : stat ∈ stats ∧ stat.id ∉ named := by
  induction stats generalizing named with
  | nil => contradiction
  | cons head rest inductionHypothesis =>
      rw [unnamed] at member
      split at member
      · exact (inductionHypothesis member).imp_left (List.mem_cons_of_mem head)
      · next fresh =>
        rcases List.mem_cons.mp member with rfl | later
        · exact ⟨List.mem_cons_self, fresh⟩
        · obtain ⟨inside, outside⟩ := inductionHypothesis later
          exact ⟨List.mem_cons_of_mem head inside, fun known => outside (List.mem_cons_of_mem _ known)⟩

/-- Each identity that is not named yet has a stat. -/
theorem exists_unnamed {named : List StatId} {stats : List Stat} {stat : Stat}
    (member : stat ∈ stats) (fresh : stat.id ∉ named) :
    ∃ first ∈ unnamed named stats, first.id = stat.id := by
  induction stats generalizing named with
  | nil => contradiction
  | cons head rest inductionHypothesis =>
      rw [unnamed]
      rcases List.mem_cons.mp member with rfl | later
      · rw [if_neg fresh]
        exact ⟨stat, List.mem_cons_self, rfl⟩
      · by_cases known : head.id ∈ named
        · rw [if_pos known]
          exact inductionHypothesis later fresh
        · rw [if_neg known]
          by_cases same : stat.id = head.id
          · exact ⟨head, List.mem_cons_self, same.symm⟩
          · obtain ⟨first, inside, equal⟩ := inductionHypothesis later
              (fun listed => (List.mem_cons.mp listed).elim same fresh)
            exact ⟨first, List.mem_cons_of_mem head inside, equal⟩

namespace Graph

variable {vocabulary : Vocabulary} {catalogue : StatId → Stat} {graph other : Graph}
  {roll : List Modifier} {modifier : Modifier}

theorem Enrolled.engaged_iff (enrolled : graph.Enrolled roll) (id : StatId) :
    graph.Engaged id ↔ id ∈ targetsOf roll := by
  rw [mem_targetsOf_iff]
  constructor
  · rintro ⟨form, path, some⟩
    obtain ⟨member, inside⟩ := List.exists_mem_of_ne_nil _ some
    rw [enrolled.members] at inside
    obtain ⟨modifier, listed, _⟩ := List.mem_map.mp inside
    obtain ⟨member, serves⟩ := List.mem_filter.mp listed
    exact ⟨modifier, member, (of_decide_eq_true serves).1⟩
  · rintro ⟨modifier, member, named⟩
    refine ⟨modifier.form, modifier.path.id, List.ne_nil_of_mem (a := modifier.id) ?_⟩
    rw [enrolled.members]
    refine List.mem_map_of_mem (List.mem_filter.mpr ⟨member, decide_eq_true ?_⟩)
    exact ⟨named, rfl, rfl⟩

/-- What a pipeline keeps is the stat of its identity. -/
theorem Keeps.eq_of_id (indexes : vocabulary.Indexes catalogue) {kept stat : Stat}
    (keeps : graph.Keeps kept) (formed : graph.WellFormed vocabulary)
    (listed : stat = catalogue stat.id) (same : kept.id = stat.id) : kept = stat := by
  have known : kept = catalogue kept.id := indexes kept (keeps.within formed).head
  rw [known, same, ← listed]

/-! ### Links of calls -/

/-- A modifier that joins the rosters of some stats links those that nobody named before. -/
theorem links_joinRosters (closed : vocabulary.Closed) (indexes : vocabulary.Indexes catalogue)
    {stats : List Stat} (sound : graph.Sound vocabulary)
    (counted : graph.Counted) (known : graph.modifiers.get? modifier.id = some modifier)
    (named : ∀ stat ∈ stats, stat ∈ modifier.stats ∧ stat.isResolved = true) {names : List StatId}
    (engaged : ∀ id, graph.Engaged id ↔ id ∈ names) :
    (stats.foldl (joinRoster modifier) graph).links =
      (unnamed names stats).foldl Links.register graph.links := by
  revert counted engaged names
  refine joinRosters_induct closed stats graph sound known named (fun _ _ _ _ _ => rfl) ?_
  intro head rest graph joining later counted names engaged
  have route : modifier.path.Within vocabulary := Modifier.Within.path closed modifier
  have joins := joins_joinRoster joining.sound joining.resolved joining.within route
  have recruits := recruits_joinRoster joining.sound counted joining.resolved joining.within route
  have after (id : StatId) : (joinRoster modifier graph head).Engaged id ↔ id ∈ head.id :: names := by
    rw [joins.engaged_iff, engaged, List.mem_cons]
    simp [eq_comm]
  rw [List.foldl_cons, later (joins.counted counted) after, unnamed]
  by_cases before : head.id ∈ names
  · have same (id : StatId) : id ∈ head.id :: names ↔ id ∈ names := by
      rw [List.mem_cons, or_iff_right_of_imp fun equal => equal ▸ before]
    rw [if_pos before, recruits.engaged ((engaged _).mpr before), unnamed_congr same]
  · obtain ⟨kept, keeps, same, links⟩ := recruits.idle fun busy => before ((engaged _).mp busy)
    have turned := (turns_joinRoster closed joining.sound joining.known joining.member
      joining.resolved).1.sound
    rw [if_neg before, List.foldl_cons, links,
      keeps.eq_of_id indexes turned.formed (indexes head joining.within.head) same]

/-- A modifier has left the rosters of the stats `left` and is to leave those of `stats`; to the stats
`names` other modifiers contribute. -/
structure Parting (modifier : Modifier) (names left : List StatId) (stats : List Stat)
    (graph : Graph) : Prop where
  gone : ∀ id ∈ left, modifier.id ∉ graph.members id modifier.form modifier.path.id
  inside : ∀ stat ∈ stats, stat.id ∉ left →
    modifier.id ∈ graph.members stat.id modifier.form modifier.path.id
  others : ∀ id, id ∈ names ↔
    ∃ form path, ∃ member ∈ graph.members id form path, member ≠ modifier.id

section Parting

variable {head : Stat} {rest : List Stat} {names left : List StatId}
  (parting : Parting modifier names left (head :: rest) graph)
  (sound : graph.Sound vocabulary)
include parting sound

theorem Parting.step :
    Parting modifier names (head.id :: left) rest (leaveRoster modifier graph head) := by
  have quits := quits_leaveRoster sound.formed modifier head
  have members (id : StatId) : (leaveRoster modifier graph head).members id modifier.form
      modifier.path.id = if id = head.id then
        (graph.members id modifier.form modifier.path.id).filter (· ≠ modifier.id)
      else graph.members id modifier.form modifier.path.id := by
    rw [quits.members]
    simp only [Modifier.servesAmong_singleton, and_true]
  constructor
  · intro id before
    rcases List.mem_cons.mp before with rfl | before
    · exact (leaves_leaveRoster sound modifier head).2
    · rw [members]
      split
      · exact fun stays => parting.gone id before (List.mem_of_mem_filter stays)
      · exact parting.gone id before
  · intro stat member fresh
    rw [List.mem_cons, not_or] at fresh
    rw [members, if_neg fresh.1]
    exact parting.inside stat (List.mem_cons_of_mem head member) fresh.2
  · intro id
    rw [parting.others]
    refine exists_congr fun form => exists_congr fun path => exists_congr fun member => ?_
    rw [quits.members]
    split
    · simp only [List.mem_filter, decide_eq_true_eq, and_assoc, and_self]
    · rfl

/-- To leave a roster unlinks its stat, unless it was left before or others contribute to it. -/
theorem Parting.links (indexes : vocabulary.Indexes catalogue) (counted : graph.Counted)
    (known : graph.modifiers.get? modifier.id = some modifier) (listed : head = catalogue head.id) :
    (leaveRoster modifier graph head).links =
      if head.id ∈ left ++ names then graph.links else graph.links.revoke head := by
  have step := parting.step sound
  obtain ⟨leaves, absent⟩ := leaves_leaveRoster sound modifier head
  by_cases before : head.id ∈ left
  · rw [if_pos (List.mem_append_left names before),
      leaveRoster_absent sound.formed (parting.gone head.id before)]
  · have releases := releases_leaveRoster sound.formed counted
      (parting.inside head List.mem_cons_self before)
    by_cases shared : head.id ∈ names
    · obtain ⟨form, path, member, stays, _⟩ := (step.others head.id).mp shared
      rw [if_pos (List.mem_append_right left shared),
        releases.engaged ⟨form, path, List.ne_nil_of_mem stays⟩]
    · have idle : ¬ (leaveRoster modifier graph head).Engaged head.id := by
        rintro ⟨form, path, some⟩
        obtain ⟨member, stays⟩ := List.exists_mem_of_ne_nil _ some
        by_cases own : member = modifier.id
        · -- a modifier stands only in rosters of its form and path
          subst own
          obtain ⟨present, there, rfl, rfl, _⟩ := leaves.turns.sound.formed.enrolled stays
          rw [leaves.thins.modifiers, known] at there
          cases there
          exact absent stays
        · exact shared ((step.others head.id).mpr ⟨form, path, member, stays, own⟩)
      obtain ⟨kept, keeps, same, links⟩ := releases.idle idle
      have fresh : head.id ∉ left ++ names := by simp [before, shared]
      rw [if_neg fresh, links, keeps.eq_of_id indexes sound.formed listed same]

end Parting

/-- A modifier that leaves the rosters of some stats, apart from those that it left already, unlinks
those that no other modifier names. -/
theorem links_leaveRosters (indexes : vocabulary.Indexes catalogue) {stats : List Stat}
    {names left : List StatId} (parting : Parting modifier names left stats graph)
    (sound : graph.Sound vocabulary)
    (counted : graph.Counted) (known : graph.modifiers.get? modifier.id = some modifier)
    (listed : ∀ stat ∈ stats, stat = catalogue stat.id) :
    (stats.foldl (leaveRoster modifier) graph).links =
      (unnamed (left ++ names) stats).foldl Links.revoke graph.links := by
  induction stats generalizing graph left with
  | nil => rfl
  | cons head rest inductionHypothesis =>
      have leaves := (leaves_leaveRoster sound modifier head).1
      have counts := (quits_leaveRoster sound.formed modifier head).counted counted
      rw [List.foldl_cons, inductionHypothesis (parting.step sound) leaves.turns.sound counts
        (leaves.thins.modifiers ▸ known) fun stat member =>
          listed stat (List.mem_cons_of_mem head member),
        parting.links sound indexes counted known (listed head List.mem_cons_self), unnamed]
      split
      · next before =>
        have same (id : StatId) : id ∈ head.id :: left ++ names ↔ id ∈ left ++ names := by
          rw [List.cons_append, List.mem_cons, or_iff_right_of_imp fun equal => equal ▸ before]
        rw [unnamed_congr same]
      · rfl

/-! ### Graphs that follow a ledger -/

/-- A graph has the modifiers, the rosters and the links of a ledger. -/
structure Follows (graph : Graph) (ledger : Ledger) : Prop where
  enrolled : graph.Enrolled ledger.roll
  links : graph.links = ledger.links

theorem Follows.undisturbed {ledger : Ledger} (follows : graph.Follows ledger)
    (undisturbed : graph.Undisturbed other) : other.Follows ledger :=
  ⟨follows.enrolled.undisturbed undisturbed, undisturbed.links.trans follows.links⟩

theorem Follows.addModifier (closed : vocabulary.Closed) (indexes : vocabulary.Indexes catalogue)
    {ledger : Ledger} (follows : graph.Follows ledger) (intact : graph.Intact vocabulary)
    (within : modifier.Within vocabulary) :
    (graph.addModifier modifier).2.Follows (ledger.enter (.add modifier)) := by
  have listed := follows.enrolled.mem_ids_iff intact.formed modifier.id
  rcases graph.addModifier_cases modifier with ⟨present, same⟩ |
    ⟨absent, ⟨stat, bound, same⟩ | ⟨resolved, same⟩⟩
  · rw [same, Ledger.enter, if_pos (.inl (listed.mpr present))]
    exact follows
  · rw [same, Ledger.enter, if_pos (.inr (by rw [bound]; rfl))]
    exact follows
  · have bound : modifier.unresolved? = none :=
      List.find?_eq_none.mpr fun stat member => by simp [resolved stat member]
    have fresh : ¬ (modifier.id ∈ ledger.roll.map (·.id) ∨ modifier.unresolved?.isSome) := by
      simp [listed, absent, bound]
    rw [same, Ledger.enter, if_neg fresh]
    have noted := intact.record (.adding modifier.id modifier.description)
    have introduced := turns_introduce noted.formed absent noted.toSound within
    refine ⟨enrolled_introduced closed intact follows.enrolled absent resolved within, ?_⟩
    exact (links_joinRosters closed indexes introduced.sound follows.enrolled.counted (Table.get?_insert_self _ _ _)
      (fun stat member => ⟨member, resolved stat member⟩) follows.enrolled.engaged_iff).trans
        (congrArg (List.foldl Links.register · _) follows.links)

/-- The roll knows each modifier by its identity. -/
theorem Enrolled.find?_eq (enrolled : graph.Enrolled roll)
    (formed : graph.WellFormed vocabulary) (id : ModifierId) :
    roll.find? (·.id = id) = graph.modifiers.get? id := by
  cases first : roll.find? (·.id = id) with
  | none =>
      have outside : id ∉ roll.map (·.id) := by
        intro inside
        obtain ⟨modifier, member, same⟩ := List.mem_map.mp inside
        exact List.find?_eq_none.mp first modifier member (decide_eq_true same)
      rw [enrolled.mem_ids_iff formed, Bool.not_eq_true, Option.isSome_eq_false_iff,
        Option.isNone_iff_eq_none] at outside
      exact outside.symm
  | some modifier =>
      have same : modifier.id = id := of_decide_eq_true (List.find?_some first :)
      have member := List.mem_of_find?_eq_some first
      rw [← enrolled.modifiers] at member
      obtain ⟨key, found⟩ := (Table.mem_values_iff _ _).mp member
      obtain ⟨own, _⟩ := formed.present key modifier found
      rw [← same, own, found]

theorem Follows.removeModifier (indexes : vocabulary.Indexes catalogue) {ledger : Ledger}
    (follows : graph.Follows ledger) (intact : graph.Intact vocabulary) (id : ModifierId) :
    (graph.removeModifier id).2.Follows (ledger.enter (.remove id)) := by
  have enrolled := enrolled_removeModifier intact follows.enrolled id
  have found := follows.enrolled.find?_eq intact.formed id
  rw [Ledger.enter, found]
  cases known : graph.modifiers.get? id with
  | none =>
      rw [Graph.removeModifier, known]
      exact follows
  | some modifier =>
      obtain ⟨rfl, within, _⟩ := intact.formed.present id modifier known
      obtain ⟨node, _, removed⟩ := removeModifier_eq intact.toSound known
      have noted := intact.record (.removing modifier.id modifier.description)
      have discards := discards_dismissed intact.toSound known intact.wired.joined node
      refine ⟨enrolled, ?_⟩
      have parting : Parting modifier (targetsOf (ledger.roll.filter (·.id ≠ modifier.id))) []
          modifier.stats graph :=
        { gone := fun _ none => absurd none List.not_mem_nil
          inside := by
            intro stat member _
            exact (follows.enrolled.mem_members_iff intact.formed _ _ _ _).mpr
              ⟨modifier, known, ⟨stat, member, rfl⟩, rfl, rfl⟩
          others := by
            intro own
            rw [mem_targetsOf_iff]
            constructor
            · rintro ⟨other, listed, named⟩
              obtain ⟨member, apart⟩ := List.mem_filter.mp listed
              refine ⟨other.form, other.path.id, other.id, ?_, of_decide_eq_true apart⟩
              rw [follows.enrolled.members]
              exact List.mem_map_of_mem
                (List.mem_filter.mpr ⟨member, decide_eq_true ⟨named, rfl, rfl⟩⟩)
            · rintro ⟨form, path, id, inside, apart⟩
              rw [follows.enrolled.members] at inside
              obtain ⟨other, listed, rfl⟩ := List.mem_map.mp inside
              obtain ⟨member, serves⟩ := List.mem_filter.mp listed
              exact ⟨other, List.mem_filter.mpr ⟨member, decide_eq_true apart⟩,
                (of_decide_eq_true serves).1⟩ }
      have begun : Parting modifier _ [] modifier.stats
          (graph.record (.removing modifier.id modifier.description)) :=
        ⟨parting.gone, parting.inside, parting.others⟩
      have left := links_leaveRosters indexes begun noted.toSound follows.enrolled.counted known
        fun stat member => indexes stat (within.stats stat member).head
      rw [removed]
      show ((graph.dismissed modifier).removeNodes [node]).links = _
      rw [discards.links, dismissed, left, show (graph.record _).links = ledger.links from follows.links]
      rfl

end Graph

/-- All that a call names is within a vocabulary. -/
def Call.Within (vocabulary : Vocabulary) : Call → Prop
  | .add modifier => modifier.Within vocabulary
  | .remove _ => True

namespace Graph

variable {vocabulary : Vocabulary} {catalogue : StatId → Stat} {graph : Graph} {ledger : Ledger}
  (closed : vocabulary.Closed) (indexes : vocabulary.Indexes catalogue)
include closed indexes

theorem Follows.heed (follows : graph.Follows ledger) (intact : graph.Intact vocabulary)
    {call : Call} (within : call.Within vocabulary) :
    (graph.heed call).Follows (ledger.enter call) ∧ (graph.heed call).Intact vocabulary := by
  cases call with
  | add modifier =>
      obtain ⟨turns, wired⟩ := turns_addModifier closed intact.toSound intact.wired within
      exact ⟨follows.addModifier closed indexes intact within, intact.turn turns wired⟩
  | remove id =>
      obtain ⟨turns, wired⟩ := turns_removeModifier intact.toSound intact.wired
        intact.watched.attended id
      exact ⟨follows.removeModifier indexes intact id, intact.turn turns wired⟩

theorem Follows.heedAll {calls : List Call} (follows : graph.Follows ledger)
    (intact : graph.Intact vocabulary) (within : ∀ call ∈ calls, call.Within vocabulary) :
    (calls.foldl Graph.heed graph).Follows (calls.foldl Ledger.enter ledger) := by
  induction calls generalizing graph ledger with
  | nil => exact follows
  | cons call rest inductionHypothesis =>
      obtain ⟨heeds, after⟩ := follows.heed closed indexes intact (within call List.mem_cons_self)
      exact inductionHypothesis heeds after fun other member =>
        within other (List.mem_cons_of_mem call member)

/-- To add modifiers one after the other is to make the calls that are attempted. -/
theorem Follows.addEach_eq {modifiers : List Modifier} (follows : graph.Follows ledger)
    (intact : graph.Intact vocabulary)
    (within : ∀ modifier ∈ modifiers, modifier.Within vocabulary) (count : Nat) :
    (Sheet.addEach graph modifiers count).2 = (attempts ledger modifiers).foldl Graph.heed graph := by
  induction modifiers generalizing graph ledger count with
  | nil => rfl
  | cons modifier rest inductionHypothesis =>
      have called : (Call.add modifier).Within vocabulary := within modifier List.mem_cons_self
      obtain ⟨heeds, after⟩ := follows.heed closed indexes intact called
      have later (count : Nat) := inductionHypothesis heeds after
        (fun other member => within other (List.mem_cons_of_mem modifier member)) count
      have listed := follows.enrolled.mem_ids_iff intact.formed modifier.id
      rw [attempts]
      rcases graph.addModifier_cases modifier with ⟨present, same⟩ |
        ⟨absent, ⟨stat, bound, same⟩ | ⟨resolved, same⟩⟩
      · rw [if_neg fun refused => refused.1 (listed.mpr present), List.foldl_cons, ← later,
          Graph.heed, Sheet.addEach, same]
      · have refused : modifier.id ∉ ledger.roll.map (·.id) ∧ modifier.unresolved?.isSome := by
          simp [listed, absent, bound]
        rw [if_pos refused, Sheet.addEach, same]
        simp only [List.foldl_cons, List.foldl_nil, Graph.heed, same]
      · have bound : modifier.unresolved? = none :=
          List.find?_eq_none.mpr fun stat member => by simp [resolved stat member]
        rw [if_neg fun refused => by simp [bound] at refused, List.foldl_cons, ← later,
          Graph.heed, Sheet.addEach, same]

omit closed indexes in
theorem removeEach_eq (graph : Graph) (ids : List ModifierId) (count : Nat) :
    (Sheet.removeEach graph ids count).2 = (ids.map Call.remove).foldl Graph.heed graph := by
  induction ids generalizing graph count with
  | nil => rfl
  | cons id rest inductionHypothesis => exact inductionHypothesis _ _

/-- What an operation does to modifiers is what the calls do that it makes. -/
theorem Follows.turnover_eq (follows : graph.Follows ledger)
    (intact : graph.Intact vocabulary) {operation : Operation}
    (within : operation.Within vocabulary) :
    operation.turnover graph = (operation.calls ledger).foldl Graph.heed graph := by
  cases operation with
  | addAll modifiers => exact follows.addEach_eq closed indexes intact within 0
  | removeAll ids => exact graph.removeEach_eq ids 0
  | _ => rfl

end Graph

theorem attempts_within {vocabulary : Vocabulary} {modifiers : List Modifier} (ledger : Ledger)
    (within : ∀ modifier ∈ modifiers, modifier.Within vocabulary) :
    ∀ call ∈ attempts ledger modifiers, call.Within vocabulary := by
  induction modifiers generalizing ledger with
  | nil => exact fun _ none => nomatch none
  | cons modifier rest inductionHypothesis =>
      have here : (Call.add modifier).Within vocabulary := within modifier List.mem_cons_self
      have later := inductionHypothesis (ledger.enter (.add modifier)) fun other member =>
        within other (List.mem_cons_of_mem modifier member)
      intro call member
      rw [attempts] at member
      split at member
      · exact List.mem_singleton.mp member ▸ here
      · rcases List.mem_cons.mp member with rfl | member
        · exact here
        · exact later call member

theorem Operation.calls_within {vocabulary : Vocabulary} {operation : Operation}
    (within : operation.Within vocabulary) (ledger : Ledger) :
    ∀ call ∈ operation.calls ledger, call.Within vocabulary := by
  cases operation with
  | add modifier => exact fun call member => List.mem_singleton.mp member ▸ within
  | addAll modifiers => exact attempts_within ledger within
  | remove id => exact fun call member => List.mem_singleton.mp member ▸ trivial
  | removeAll ids =>
      intro call member
      obtain ⟨id, _, rfl⟩ := List.mem_map.mp member
      trivial
  | _ => exact fun _ none => nomatch none

theorem callsMade_within {vocabulary : Vocabulary} {operations : List Operation} (ledger : Ledger)
    (within : ∀ operation ∈ operations, operation.Within vocabulary) :
    ∀ call ∈ callsMade ledger operations, call.Within vocabulary := by
  induction operations generalizing ledger with
  | nil => exact fun _ none => nomatch none
  | cons operation rest inductionHypothesis =>
      intro call member
      rw [callsMade] at member
      rcases List.mem_append.mp member with here | later
      · exact operation.calls_within (within operation List.mem_cons_self) ledger call here
      · exact inductionHypothesis _ (fun other inside =>
          within other (List.mem_cons_of_mem operation inside)) call later

/-! ### Runs follow their calls -/

section Runs

open CharacterSheet.Graph

variable {vocabulary : Vocabulary} {catalogue : StatId → Stat} {sheet : Sheet} {ledger : Ledger}
  (closed : vocabulary.Closed) (indexes : vocabulary.Indexes catalogue)
include closed indexes

theorem Sheet.follows_apply (intact : sheet.graph.Intact vocabulary)
    (follows : sheet.graph.Follows ledger) {operation : Operation}
    (within : operation.Within vocabulary) :
    (sheet.apply operation).graph.Follows ((operation.calls ledger).foldl Ledger.enter ledger) := by
  obtain ⟨start, before, after⟩ := Sheet.moves_apply closed intact within
  have began := follows.undisturbed (before.undisturbed intact)
  have ready := before.intact intact
  have turned : (operation.turnover start).Follows
      ((operation.calls ledger).foldl Ledger.enter ledger) := by
    rw [began.turnover_eq closed indexes ready within]
    exact began.heedAll closed indexes ready (operation.calls_within within ledger)
  exact turned.undisturbed
    (after.undisturbed (Sheet.intact_turnover closed ready within))

theorem Sheet.follows_run {operations : List Operation}
    (intact : sheet.graph.Intact vocabulary) (follows : sheet.graph.Follows ledger)
    (within : ∀ operation ∈ operations, operation.Within vocabulary) :
    (sheet.run operations).graph.Follows
      ((callsMade ledger operations).foldl Ledger.enter ledger) := by
  induction operations generalizing sheet ledger with
  | nil => exact follows
  | cons operation rest inductionHypothesis =>
      have here := within operation List.mem_cons_self
      rw [callsMade, List.foldl_append]
      exact inductionHypothesis (Sheet.intact_apply closed intact here)
        (Sheet.follows_apply closed indexes intact follows here)
        fun other member => within other (List.mem_cons_of_mem operation member)

end Runs

/-! ### Memberships -/

/-- The number of memberships in all rosters of a stat; a stat without a pipeline has none. -/
def Graph.memberships (graph : Graph) (stat : StatId) : Nat :=
  (graph.pipelines.get? stat).elim 0 (·.memberships)

/-- Whether a modifier contributes to a stat. -/
def Modifier.names (modifier : Modifier) (stat : StatId) : Bool :=
  modifier.stats.any (·.id = stat)

/-- The members of all rosters of a pipeline. -/
def Pipeline.company (pipeline : Pipeline) : List ModifierId :=
  pipeline.slots.values.flatMap (·.roster.members)

theorem Pipeline.mem_company_iff {pipeline : Pipeline} {id : ModifierId} :
    id ∈ pipeline.company ↔ ∃ form path, id ∈ pipeline.members form path := by
  simp only [company, List.mem_flatMap, Table.mem_values_iff]
  constructor
  · rintro ⟨slot, ⟨⟨form, path⟩, filled⟩, inside⟩
    exact ⟨form, path, by rw [members, filled]; exact inside⟩
  · rintro ⟨form, path, inside⟩
    rw [members] at inside
    split at inside
    · next slot filled => exact ⟨slot, ⟨_, filled⟩, inside⟩
    · contradiction

/-- No modifier stands in two rosters of a stat: each serves in one form and on one path. -/
theorem Pipeline.WellFormed.nodup_company {vocabulary : Vocabulary}
    {modifiers : Table ModifierId Modifier} {stat : StatId} {pipeline : Pipeline}
    (formed : pipeline.WellFormed vocabulary modifiers stat) : pipeline.company.Nodup := by
  have fits {entry : (Form × PathId) × Slot} (member : entry ∈ pipeline.slots.entries) :=
    formed.slots entry.1.1 entry.1.2 entry.2 ((Table.get?_eq_some_iff _ _ _).mpr member)
  refine List.nodup_flatMap.mpr ⟨fun slot inside => ?_, ?_⟩
  · obtain ⟨entry, member, rfl⟩ := List.mem_map.mp inside
    exact (fits member).distinct
  · refine List.pairwise_map.mpr (List.Pairwise.imp_of_mem ?_
      (List.pairwise_map.mp pipeline.slots.distinct))
    rintro ⟨⟨form, path⟩, slot⟩ ⟨⟨other, route⟩, next⟩ member later apart id inside again
    obtain ⟨modifier, known, rfl, rfl, _⟩ := (fits member).enrolled id inside
    obtain ⟨same, there, rfl, rfl, _⟩ := (fits later).enrolled id again
    rw [known] at there
    cases there
    exact apart rfl

namespace Graph

variable {vocabulary : Vocabulary} {graph other : Graph} {roll : List Modifier}

/-- The roll says what the table of modifiers is. -/
theorem Enrolled.entries_eq (enrolled : graph.Enrolled roll) (formed : graph.WellFormed vocabulary) :
    graph.modifiers.entries = roll.map fun modifier => (modifier.id, modifier) := by
  rw [← enrolled.modifiers, Table.values, List.map_map]
  refine (List.map_id _).symm.trans (List.map_congr_left fun entry member => ?_)
  have known := (formed.present entry.1 entry.2 ((Table.get?_eq_some_iff _ _ _).mpr member)).1
  rw [Function.comp_apply, known]
  rfl

theorem Enrolled.nodup_ids (enrolled : graph.Enrolled roll) (formed : graph.WellFormed vocabulary) :
    (roll.map (·.id)).Nodup := by
  have distinct := graph.modifiers.distinct
  rwa [enrolled.entries_eq formed, List.map_map] at distinct

/-- The number of memberships of a stat is the number of modifiers that contribute to it. -/
theorem Enrolled.memberships_eq (enrolled : graph.Enrolled roll)
    (formed : graph.WellFormed vocabulary) (stat : StatId) :
    graph.memberships stat = roll.countP (·.names stat) := by
  have names (modifier : Modifier) : modifier.names stat = true ↔
      ∃ named ∈ modifier.stats, named.id = stat := by
    simp [Modifier.names]
  -- the members of all rosters of the stat
  have inside (id : ModifierId) : (∃ form path, id ∈ graph.members stat form path) ↔
      id ∈ (roll.filter (·.names stat)).map (·.id) := by
    simp only [enrolled.members, List.mem_map, List.mem_filter, decide_eq_true_eq, names]
    constructor
    · rintro ⟨form, path, modifier, ⟨member, serves⟩, rfl⟩
      exact ⟨modifier, ⟨member, serves.1⟩, rfl⟩
    · rintro ⟨modifier, ⟨member, named⟩, rfl⟩
      exact ⟨modifier.form, modifier.path.id, modifier, ⟨member, named, rfl, rfl⟩, rfl⟩
  have distinct : ((roll.filter (·.names stat)).map (·.id)).Nodup :=
    (enrolled.nodup_ids formed).sublist (List.filter_sublist.map _)
  rw [List.countP_eq_length_filter, ← List.length_map (·.id), memberships]
  cases here : graph.pipelines.get? stat with
  | none =>
      simp only [Graph.members, here, List.not_mem_nil, exists_false, false_iff] at inside
      rw [List.eq_nil_iff_forall_not_mem.mpr inside]
      rfl
  | some pipeline =>
      simp only [Graph.members, here, ← Pipeline.mem_company_iff] at inside
      have same := (List.perm_ext_iff_of_nodup
        (formed.pipelines stat pipeline here).nodup_company distinct).mpr inside
      rw [Option.elim_some, enrolled.counted stat pipeline here, ← same.length_eq,
        Pipeline.company, List.length_flatMap]
      rfl

/-- The same modifiers stand in the same rosters, and they are counted alike. -/
structure Regains (graph other : Graph) : Prop where
  modifiers : other.modifiers = graph.modifiers
  members : ∀ stat form path, other.members stat form path = graph.members stat form path
  memberships : ∀ stat, other.memberships stat = graph.memberships stat

/-- Graphs with the same roll have the same rosters. -/
theorem Enrolled.regains (enrolled : graph.Enrolled roll) (same : other.Enrolled roll)
    (formed : graph.WellFormed vocabulary) (formedToo : other.WellFormed vocabulary) :
    graph.Regains other where
  modifiers := Table.eq_of_entries
    ((same.entries_eq formedToo).trans (enrolled.entries_eq formed).symm)
  members := fun stat form path => by rw [same.members, enrolled.members]
  memberships := fun stat => by
    rw [same.memberships_eq formedToo, enrolled.memberships_eq formed]

end Graph

/-! ### Two runs -/

/-- Two runs that add and remove the same modifiers in the same order end with the same modifiers,
the same members in each roster, the same numbers of memberships, the same links and the same paths.
What they read, watch, register and sweep in between does not matter, and neither do their settings,
their rules of retention and the batches that they open. -/
theorem calls_decide_rosters_and_links (catalogue : StatId → Stat) (operations others : List Operation)
    (within : ∀ operation ∈ operations, operation.Within (.indexed catalogue))
    (otherWithin : ∀ operation ∈ others, operation.Within (.indexed catalogue))
    (same : callsMade {} operations = callsMade {} others)
    (settings otherSettings : Settings) (retention otherRetention : Retention) :
    let first := (Sheet.run { settings, retention } operations).graph
    let second := (Sheet.run ⟨{}, otherSettings, otherRetention⟩ others).graph
    first.modifiers = second.modifiers ∧
      (∀ stat form path, first.members stat form path = second.members stat form path) ∧
      (∀ stat, first.memberships stat = second.memberships stat) ∧
      first.links = second.links ∧
      ∀ stat path, path ∈ (first.paths stat).map PathOf.id ↔
        path ∈ (second.paths stat).map PathOf.id := by
  intro first second
  have closed : (Vocabulary.indexed catalogue).Closed := Vocabulary.closed_indexed
  have initial : ({} : Graph).Follows {} := ⟨.initial, rfl⟩
  have formed : first.WellFormed (.indexed catalogue) :=
    ((Sheet.reachable_run (.new settings retention) within).intact closed).formed
  have otherFormed : second.WellFormed (.indexed catalogue) :=
    ((Sheet.reachable_run (.new otherSettings otherRetention) otherWithin).intact closed).formed
  have follows : first.Follows ((callsMade {} operations).foldl Ledger.enter {}) :=
    Sheet.follows_run closed Vocabulary.indexes_indexed .initial initial within
  have otherFollows : second.Follows ((callsMade {} others).foldl Ledger.enter {}) :=
    Sheet.follows_run closed Vocabulary.indexes_indexed .initial initial otherWithin
  rw [← same] at otherFollows
  have regains : second.Regains first :=
    otherFollows.enrolled.regains follows.enrolled otherFormed formed
  have links : first.links = second.links := follows.links.trans otherFollows.links.symm
  refine ⟨regains.modifiers, regains.members, regains.memberships, links, fun stat path => ?_⟩
  rw [formed.mem_paths_iff, otherFormed.mem_paths_iff, links]
  simp only [regains.members]

/-- The stats of a smithy, in which half of the iron becomes steel. -/
def smithy (id : StatId) : Stat :=
  if id = .conversion ⟨"Iron", .character⟩ ⟨"Steel", .character⟩ then
    .conversion (.named "Iron") (.named "Steel")
  else .plain id

theorem iron_within : (Stat.named "Iron").Within (.indexed smithy) := by
  refine ⟨(if_neg (by decide)).symm, trivial, trivial, trivial, trivial⟩

theorem steel_within : (Stat.named "Steel").Within (.indexed smithy) := by
  refine ⟨(if_neg (by decide)).symm, trivial, trivial, trivial, trivial⟩

theorem smelting_within : (Stat.conversion (.named "Iron") (.named "Steel")).Within (.indexed smithy) :=
  ⟨(if_pos rfl).symm, ⟨iron_within, steel_within⟩, trivial, trivial, trivial⟩

/-- The smelting and some iron are added. -/
def smelting : List Operation :=
  [.add (.conversion ⟨1⟩ (.named "Iron") (.named "Steel") 50), .add (.baseAdd ⟨2⟩ (.named "Iron") 10)]

/-- The same, with a batch, a read and a sweep in between. -/
def readingAndSmelting : List Operation :=
  [.beginBatch, .add (.conversion ⟨1⟩ (.named "Iron") (.named "Steel") 50), .endBatch,
    .value (.named "Steel") .total .main, .sweep, .add (.baseAdd ⟨2⟩ (.named "Iron") 10)]

theorem smelting_operations_within : ∀ operation ∈ smelting, operation.Within (.indexed smithy) := by
  rintro operation (_ | ⟨_, _ | ⟨_, ⟨⟩⟩⟩)
  · refine ⟨?_, ⟨trivial, trivial⟩, fun _ none => nomatch none⟩
    rintro stat (_ | ⟨_, ⟨⟩⟩)
    exact smelting_within.headWithin
  · refine ⟨?_, ⟨trivial, trivial⟩, fun _ none => nomatch none⟩
    rintro stat (_ | ⟨_, ⟨⟩⟩)
    exact iron_within.headWithin

theorem readingAndSmelting_within :
    ∀ operation ∈ readingAndSmelting, operation.Within (.indexed smithy) := by
  have adds := smelting_operations_within
  rintro operation (_ | ⟨_, _ | ⟨_, _ | ⟨_, _ | ⟨_, _ | ⟨_, _ | ⟨_, ⟨⟩⟩⟩⟩⟩⟩⟩)
  · trivial
  · exact adds _ List.mem_cons_self
  · trivial
  · exact ⟨steel_within.headWithin, .main⟩
  · trivial
  · exact adds _ (List.mem_cons_of_mem _ List.mem_cons_self)

/-- A read and a sweep in between do not show in the links. -/
theorem smelting_survives_reading :
    (Sheet.run {} smelting).graph.links = (Sheet.run {} readingAndSmelting).graph.links ∧
      (Sheet.run {} smelting).graph.modifiers = (Sheet.run {} readingAndSmelting).graph.modifiers := by
  obtain ⟨modifiers, _, _, links, _⟩ := calls_decide_rosters_and_links smithy smelting
    readingAndSmelting smelting_operations_within readingAndSmelting_within rfl {} {} {} {}
  exact ⟨links, modifiers⟩

end CharacterSheet
