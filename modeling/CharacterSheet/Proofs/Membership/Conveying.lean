import CharacterSheet.Proofs.Membership.Ledgers

/-!
Contract: links are those of the stats to which modifiers contribute.

Owns:
- catalogues in which no two stats convey the same;
- what conveys by the links of a ledger: exactly the stats to which its roll contributes;
- the same of the graph behind a sheet after any run, with everything that links list.
-/

namespace CharacterSheet

/-- A stat of a catalogue. -/
def Stat.Listed (catalogue : StatId → Stat) (stat : Stat) : Prop := stat = catalogue stat.id

/-- No two stats of a catalogue convey the same share of the same source to the same target. -/
def Unambiguous (catalogue : StatId → Stat) : Prop :=
  ∀ first second : Stat, first.Listed catalogue → second.Listed catalogue →
    ∀ route, first.route? = some route → second.route? = some route → first.id = second.id

section Catalogue

variable {catalogue : StatId → Stat}

theorem Stat.Listed.eq_of_id {first second : Stat} (listed : first.Listed catalogue)
    (other : second.Listed catalogue) (same : first.id = second.id) : first = second := by
  rw [listed, other, same]

theorem Unambiguous.eq_of_route (unambiguous : Unambiguous catalogue) {first second : Stat}
    (listed : first.Listed catalogue) (other : second.Listed catalogue)
    {route : Share × StatId × StatId} (conveys : first.route? = some route)
    (same : second.route? = some route) : first = second :=
  listed.eq_of_id other (unambiguous first second listed other route conveys same)

namespace Links

variable {links : Links} {stats : List Stat}

/-- Whatever conveys by some links is a stat of the catalogue that says so. -/
def Vouched (catalogue : StatId → Stat) (links : Links) : Prop :=
  ∀ share source target stat, links.conveyor? share source target = some stat →
    stat.Listed catalogue ∧ stat.route? = some (share, source, target)

theorem Vouched.register (vouched : links.Vouched catalogue) {stat : Stat}
    (listed : stat.Listed catalogue) : (links.register stat).Vouched catalogue := by
  intro share source target other conveys
  rw [conveyor?_register] at conveys
  split at conveys
  · next route =>
    cases conveys
    exact ⟨listed, route⟩
  · exact vouched share source target other conveys

theorem Vouched.revoke (vouched : links.Vouched catalogue) (stat : Stat) :
    (links.revoke stat).Vouched catalogue := by
  intro share source target other conveys
  rw [conveyor?_revoke] at conveys
  split at conveys
  · contradiction
  · exact vouched share source target other conveys

/-- To link stats is to let exactly them convey in addition. -/
theorem conveyor?_registerAll (unambiguous : Unambiguous catalogue) (vouched : links.Vouched catalogue)
    (listed : ∀ stat ∈ stats, stat.Listed catalogue) (share : Share) (source target : StatId)
    (stat : Stat) :
    (stats.foldl register links).conveyor? share source target = some stat ↔
      links.conveyor? share source target = some stat ∨
        stat ∈ stats ∧ stat.route? = some (share, source, target) := by
  induction stats generalizing links with
  | nil => simp
  | cons head rest inductionHypothesis =>
      have here := listed head List.mem_cons_self
      rw [List.foldl_cons, inductionHypothesis (vouched.register here)
        (fun other member => listed other (List.mem_cons_of_mem head member)), conveyor?_register]
      by_cases route : head.route? = some (share, source, target)
      · -- what conveyed there before is the same stat
        have only (other : Stat) (conveys : links.conveyor? share source target = some other) :
            head = other := by
          obtain ⟨known, same⟩ := vouched share source target other conveys
          exact unambiguous.eq_of_route here known route same
        rw [if_pos route, Option.some.injEq, List.mem_cons]
        constructor
        · rintro (rfl | ⟨member, same⟩)
          · exact .inr ⟨.inl rfl, route⟩
          · exact .inr ⟨.inr member, same⟩
        · rintro (conveys | ⟨rfl | member, same⟩)
          · exact .inl (only stat conveys)
          · exact .inl rfl
          · exact .inr ⟨member, same⟩
      · rw [if_neg route, List.mem_cons]
        refine or_congr_right (and_congr_left fun same => ?_)
        rw [or_iff_right]
        rintro rfl
        exact route same

/-- To unlink stats is to let exactly them convey no more. -/
theorem conveyor?_revokeAll (unambiguous : Unambiguous catalogue) (vouched : links.Vouched catalogue)
    (listed : ∀ stat ∈ stats, stat.Listed catalogue) (share : Share) (source target : StatId)
    (stat : Stat) :
    (stats.foldl revoke links).conveyor? share source target = some stat ↔
      links.conveyor? share source target = some stat ∧ stat ∉ stats := by
  induction stats generalizing links with
  | nil => simp
  | cons head rest inductionHypothesis =>
      have here := listed head List.mem_cons_self
      rw [List.foldl_cons, inductionHypothesis (vouched.revoke head)
        (fun other member => listed other (List.mem_cons_of_mem head member)), conveyor?_revoke,
        List.mem_cons, not_or]
      split
      · next route =>
        refine iff_of_false (fun both => nomatch both.1) ?_
        rintro ⟨conveys, apart, _⟩
        obtain ⟨known, same⟩ := vouched share source target stat conveys
        exact apart (unambiguous.eq_of_route known here same route)
      · next route =>
        constructor
        · rintro ⟨conveys, outside⟩
          refine ⟨conveys, ?_, outside⟩
          rintro rfl
          exact route (vouched share source target stat conveys).2
        · rintro ⟨conveys, _, outside⟩
          exact ⟨conveys, outside⟩

theorem Proper.registerAll (proper : links.Proper) (stats : List Stat) :
    (stats.foldl Links.register links).Proper := by
  induction stats generalizing links with
  | nil => exact proper
  | cons head rest inductionHypothesis => exact inductionHypothesis (proper.register head)

theorem Proper.revokeAll (proper : links.Proper) (stats : List Stat) :
    (stats.foldl Links.revoke links).Proper := by
  induction stats generalizing links with
  | nil => exact proper
  | cons head rest inductionHypothesis => exact inductionHypothesis (proper.revoke head)

end Links

/-! ### Ledgers whose links are backed by modifiers -/

/-- By the links of a ledger convey exactly the stats to which its modifiers contribute. -/
structure Ledger.Backed (catalogue : StatId → Stat) (ledger : Ledger) : Prop where
  listed : ∀ modifier ∈ ledger.roll, ∀ stat ∈ modifier.stats, stat.Listed catalogue
  distinct : (ledger.roll.map (·.id)).Nodup
  proper : ledger.links.Proper
  conveys : ∀ share source target stat, ledger.links.conveyor? share source target = some stat ↔
    (∃ modifier ∈ ledger.roll, stat ∈ modifier.stats) ∧
      stat.route? = some (share, source, target)

theorem Ledger.Backed.initial : ({} : Ledger).Backed catalogue where
  listed := fun _ none => nomatch none
  distinct := List.nodup_nil
  proper := .initial
  conveys := fun _ _ _ _ => iff_of_false (fun found => nomatch found) fun both =>
    both.1.elim fun _ none => nomatch none.1

variable {ledger : Ledger} {modifier : Modifier} (unambiguous : Unambiguous catalogue)

theorem Ledger.Backed.vouched (backed : ledger.Backed catalogue) :
    ledger.links.Vouched catalogue := by
  intro share source target stat conveys
  obtain ⟨⟨modifier, member, named⟩, route⟩ := (backed.conveys share source target stat).mp conveys
  exact ⟨backed.listed modifier member stat named, route⟩

/-- Whoever contributes to the identity of a listed stat contributes to the stat. -/
theorem mem_targetsOf_iff_of_listed {roll : List Modifier}
    (listed : ∀ modifier ∈ roll, ∀ stat ∈ modifier.stats, stat.Listed catalogue) {stat : Stat}
    (known : stat.Listed catalogue) :
    stat.id ∈ targetsOf roll ↔ ∃ modifier ∈ roll, stat ∈ modifier.stats := by
  rw [mem_targetsOf_iff]
  refine exists_congr fun modifier => and_congr_right fun member => ?_
  constructor
  · rintro ⟨other, named, same⟩
    rwa [← (listed modifier member other named).eq_of_id known same]
  · exact fun named => ⟨stat, named, rfl⟩

theorem mem_unnamed_iff_of_listed {names : List StatId} {stats : List Stat}
    (listed : ∀ stat ∈ stats, stat.Listed catalogue) {stat : Stat} :
    stat ∈ unnamed names stats ↔ stat ∈ stats ∧ stat.id ∉ names := by
  refine ⟨mem_unnamed, ?_⟩
  rintro ⟨member, fresh⟩
  obtain ⟨first, inside, same⟩ := exists_unnamed member fresh
  rwa [← (listed first (mem_unnamed inside).1).eq_of_id (listed stat member) same]

include unambiguous

theorem Ledger.Backed.receive (backed : ledger.Backed catalogue)
    (fresh : modifier.id ∉ ledger.roll.map (·.id))
    (listed : ∀ stat ∈ modifier.stats, stat.Listed catalogue) :
    (ledger.receive modifier).Backed catalogue where
  listed := by
    intro other member
    rcases List.mem_append.mp member with member | member
    · exact backed.listed other member
    · exact List.mem_singleton.mp member ▸ listed
  distinct := by
    show ((ledger.roll ++ [modifier]).map (·.id)).Nodup
    rw [List.map_append, List.nodup_append]
    refine ⟨backed.distinct, List.nodup_singleton _, fun id inside other last same => ?_⟩
    rw [same, List.mem_singleton.mp last] at inside
    exact fresh inside
  proper := backed.proper.registerAll _
  conveys := by
    intro share source target stat
    have inside (known : stat.Listed catalogue) :=
      mem_targetsOf_iff_of_listed backed.listed known
    show ((unnamed _ _).foldl Links.register _).conveyor? share source target = some stat ↔ _
    rw [Links.conveyor?_registerAll unambiguous backed.vouched
      (fun other member => listed other (mem_unnamed member).1), backed.conveys, ← or_and_right,
      mem_unnamed_iff_of_listed listed]
    refine and_congr_left fun route => ?_
    show _ ↔ ∃ other ∈ ledger.roll ++ [modifier], stat ∈ other.stats
    constructor
    · rintro (⟨other, member, named⟩ | ⟨named, _⟩)
      · exact ⟨other, List.mem_append_left _ member, named⟩
      · exact ⟨modifier, List.mem_append_right _ List.mem_cons_self, named⟩
    · rintro ⟨other, member, named⟩
      rcases List.mem_append.mp member with member | last
      · exact .inl ⟨other, member, named⟩
      · rw [List.mem_singleton.mp last] at named
        rw [inside (listed stat named)]
        exact (Classical.em _).imp_right fun nobody => ⟨named, nobody⟩

theorem Ledger.Backed.dismiss (backed : ledger.Backed catalogue)
    (member : modifier ∈ ledger.roll) : (ledger.dismiss modifier).Backed catalogue where
  listed := fun other stays => backed.listed other (List.mem_of_mem_filter stays)
  distinct := backed.distinct.sublist (List.filter_sublist.map _)
  proper := backed.proper.revokeAll _
  conveys := by
    intro share source target stat
    have listed := backed.listed modifier member
    have rest : ∀ other ∈ ledger.roll.filter (·.id ≠ modifier.id), ∀ stat ∈ other.stats,
        stat.Listed catalogue := fun other stays => backed.listed other (List.mem_of_mem_filter stays)
    -- no other modifier of the roll has the identity of the one that goes
    have apart {other : Modifier} (inside : other ∈ ledger.roll) (different : other ≠ modifier) :
        other ∈ ledger.roll.filter (·.id ≠ modifier.id) := by
      refine List.mem_filter.mpr ⟨inside, decide_eq_true fun same => different ?_⟩
      exact List.inj_on_of_nodup_map backed.distinct inside member same
    show ((unnamed _ _).foldl Links.revoke _).conveyor? share source target = some stat ↔ _
    rw [Links.conveyor?_revokeAll unambiguous backed.vouched
      (fun other inside => listed other (mem_unnamed inside).1), backed.conveys, and_right_comm,
      mem_unnamed_iff_of_listed listed]
    refine and_congr_left fun route => ?_
    show _ ↔ ∃ other ∈ ledger.roll.filter (·.id ≠ modifier.id), stat ∈ other.stats
    constructor
    · rintro ⟨⟨other, inside, named⟩, stays⟩
      by_cases same : other = modifier
      · subst same
        have shared : stat.id ∈ targetsOf (ledger.roll.filter (·.id ≠ other.id)) := by
          by_contra nobody
          exact stays ⟨named, nobody⟩
        exact (mem_targetsOf_iff_of_listed rest (listed stat named)).mp shared
      · exact ⟨other, apart inside same, named⟩
    · rintro ⟨other, inside, named⟩
      refine ⟨⟨other, List.mem_of_mem_filter inside, named⟩, fun gone => gone.2 ?_⟩
      exact mem_targetsOf_iff.mpr ⟨other, inside, stat, named, rfl⟩

theorem Ledger.Backed.enter (backed : ledger.Backed catalogue) {call : Call}
    (within : call.Within (.indexed catalogue)) : (ledger.enter call).Backed catalogue := by
  cases call with
  | add modifier =>
      rw [Ledger.enter]
      split
      · exact backed
      · next fresh =>
        rw [not_or] at fresh
        exact backed.receive unambiguous fresh.1 fun stat member => (within.stats stat member).head
  | remove id =>
      rw [Ledger.enter]
      split
      · next modifier found => exact backed.dismiss unambiguous (List.mem_of_find?_eq_some found)
      · exact backed

theorem Ledger.Backed.enterAll (backed : ledger.Backed catalogue) {calls : List Call}
    (within : ∀ call ∈ calls, call.Within (.indexed catalogue)) :
    (calls.foldl Ledger.enter ledger).Backed catalogue := by
  induction calls generalizing ledger with
  | nil => exact backed
  | cons call rest inductionHypothesis =>
      exact inductionHypothesis (backed.enter unambiguous (within call List.mem_cons_self))
        fun other member => within other (List.mem_cons_of_mem call member)

end Catalogue

/-! ### The links behind a sheet -/

/-- A modifier that is present contributes to a stat. -/
def Graph.Targeted (graph : Graph) (stat : Stat) : Prop :=
  ∃ modifier ∈ graph.modifiers.values, stat ∈ modifier.stats

/-- Nothing is converted into the path on which a modifier contributes. -/
theorem Modifier.conversions_path (modifier : Modifier) : modifier.path.id.conversions = [] := by
  have route : (modifier.source.path : Path).conversions = [] := by cases modifier.source <;> rfl
  rw [Modifier.path, PathOf.at]
  split
  · rfl
  · exact congrArg (List.map Stat.id) route

open CharacterSheet.Graph

/-- After any operations that name stats of a catalogue, in which no two stats convey the same, a
link is there exactly if a present modifier contributes to a stat that says so. Each side of the
link is that stat, no empty link and no source without links is kept, a target has a path for
exactly the sources that are linked to it, and everything that links list is there once. -/
theorem links_follow_modifiers (catalogue : StatId → Stat) (unambiguous : Unambiguous catalogue)
    (settings : Settings) (retention : Retention) (operations : List Operation)
    (within : ∀ operation ∈ operations, operation.Within (.indexed catalogue)) :
    let graph := (Sheet.run { settings, retention } operations).graph
    let links := graph.links
    (∀ source target, (links.link? source target).isSome ↔
        ∃ stat, graph.Targeted stat ∧ (stat.route? = some (.conversion, source, target) ∨
          stat.route? = some (.gain, source, target))) ∧
      (∀ source target link, links.link? source target = some link →
        link.isEmpty = false ∧ ∀ stat,
          (link.conversion = some stat ↔
            graph.Targeted stat ∧ stat.route? = some (.conversion, source, target)) ∧
          (link.gain = some stat ↔
            graph.Targeted stat ∧ stat.route? = some (.gain, source, target))) ∧
      (∀ source outlet, links.outlets.get? source = some outlet →
        outlet.targets.isEmpty = false ∧ outlet.source.id = source) ∧
      (∀ source target, .convertedFrom source ∈ (graph.paths target).map PathOf.id ↔
        (links.link? source target).isSome) ∧
      (∀ source, links.isConverted source ↔
        ∃ target link, links.link? source target = some link ∧ link.conversion.isSome) ∧
      (∀ source, (links.targets source).Nodup ∧
        ∀ target, target ∈ links.targets source ↔ (links.link? source target).isSome) ∧
      (∀ target, ((links.sourcesInto target).map (·.id)).Nodup ∧
        ∀ source, source ∈ (links.sourcesInto target).map (·.id) ↔
          (links.link? source target).isSome) ∧
      ∀ source, ((links.conversionStats source).map (·.id)).Nodup ∧
        ∀ stat, stat ∈ links.conversionStats source ↔
          ∃ target link, links.link? source target = some link ∧ link.conversion = some stat := by
  intro graph links
  have formed : graph.WellFormed (.indexed catalogue) :=
    ((Sheet.reachable_run (.new settings retention) within).intact Vocabulary.closed_indexed).formed
  have follows : graph.Follows ((callsMade {} operations).foldl Ledger.enter {}) :=
    Sheet.follows_run Vocabulary.closed_indexed Vocabulary.indexes_indexed .initial ⟨.initial, rfl⟩
      within
  have backed := Ledger.Backed.initial.enterAll unambiguous (callsMade_within {} within)
  have same : links = ((callsMade {} operations).foldl Ledger.enter {}).links := follows.links
  have proper : links.Proper := by
    rw [same]
    exact backed.proper
  have conveys (share : Share) (source target : StatId) (stat : Stat) :
      links.conveyor? share source target = some stat ↔
        graph.Targeted stat ∧ stat.route? = some (share, source, target) := by
    rw [same, backed.conveys, Targeted, follows.enrolled.modifiers]
  have side {source target : StatId} {link : Link} (share : Share) (stat : Stat)
      (found : links.link? source target = some link) :
      link.via share = some stat ↔
        graph.Targeted stat ∧ stat.route? = some (share, source, target) := by
    rw [← conveys, Links.conveyor?, found, Option.bind_some]
  have converts (source target : StatId) (stat : Stat) :
      links.conveyor? .conversion source target = some stat ↔
        ∃ link, links.link? source target = some link ∧ link.conversion = some stat :=
    Option.bind_eq_some_iff
  refine ⟨fun source target => ?_, fun source target link found => ?_, fun source outlet here => ?_,
    fun source target => ?_, fun source => ?_, fun source => ?_, fun target => ?_, fun source => ?_⟩
  · rw [proper.isSome_link?_iff]
    constructor
    · rintro ⟨share, stat, found⟩
      obtain ⟨targeted, route⟩ := (conveys share source target stat).mp found
      cases share
      · exact ⟨stat, targeted, .inl route⟩
      · exact ⟨stat, targeted, .inr route⟩
    · rintro ⟨stat, targeted, route | route⟩
      · exact ⟨_, stat, (conveys _ _ _ _).mpr ⟨targeted, route⟩⟩
      · exact ⟨_, stat, (conveys _ _ _ _).mpr ⟨targeted, route⟩⟩
  · exact ⟨proper.filled source target link found, fun stat =>
      ⟨side .conversion stat found, side .gain stat found⟩⟩
  · exact ⟨proper.linked source outlet here, proper.keyed source outlet here⟩
  · rw [formed.mem_paths_iff, ← proper.mem_sourcesInto_iff]
    constructor
    · rintro (main | ⟨form, some⟩ | ⟨other, listed, same⟩)
      · cases main
      · -- modifiers contribute on paths without conversions
        obtain ⟨member, inside⟩ := List.exists_mem_of_ne_nil _ some
        obtain ⟨modifier, _, _, path, _⟩ := formed.enrolled inside
        have own := congrArg (·.conversions) path
        rw [modifier.conversions_path] at own
        cases own
      · cases same
        exact listed
    · exact fun listed => .inr (.inr ⟨source, listed, rfl⟩)
  · simp only [Links.isConverted_iff, converts, Option.isSome_iff_exists]
    refine exists_congr fun target => ⟨?_, ?_⟩
    · rintro ⟨stat, link, found, converts⟩
      exact ⟨link, found, stat, converts⟩
    · rintro ⟨link, found, stat, converts⟩
      exact ⟨stat, link, found, converts⟩
  · exact ⟨links.nodup_targets source, links.mem_targets_iff source⟩
  · exact ⟨proper.nodup_sourcesInto target, fun source => proper.mem_sourcesInto_iff source target⟩
  · refine ⟨Links.nodup_conversionStats fun first second stat other here there equal => ?_, fun stat => ?_⟩
    · have vouched : links.Vouched catalogue := by
        rw [same]
        exact backed.vouched
      obtain ⟨known, route⟩ := vouched _ _ _ _ here
      obtain ⟨listed, other⟩ := vouched _ _ _ _ there
      rw [known.eq_of_id listed equal, other] at route
      cases route
      rfl
    · simp only [Links.mem_conversionStats_iff, converts]

theorem unambiguous_smithy : Unambiguous smithy := by
  have only {stat : Stat} {route : Share × StatId × StatId} (listed : stat.Listed smithy)
      (conveys : stat.route? = some route) :
      stat.id = .conversion ⟨"Iron", .character⟩ ⟨"Steel", .character⟩ := by
    by_contra other
    rw [listed, smithy, if_neg other] at conveys
    contradiction
  intro first second listed other route conveys same
  rw [only listed conveys, only other same]

/-- A conversion that is added and not removed links its ends. -/
theorem iron_linked_to_steel :
    ((Sheet.run {} smelting).graph.links.link? ⟨"Iron", .character⟩ ⟨"Steel", .character⟩).isSome ∧
      (Sheet.run {} smelting).graph.links.isConverted ⟨"Iron", .character⟩ := by
  obtain ⟨linked, sides, _, _, converted, _⟩ := links_follow_modifiers smithy unambiguous_smithy
    {} {} smelting smelting_operations_within
  have follows : (Sheet.run {} smelting).graph.Follows
      ((callsMade {} smelting).foldl Ledger.enter {}) :=
    Sheet.follows_run Vocabulary.closed_indexed Vocabulary.indexes_indexed .initial ⟨.initial, rfl⟩
      smelting_operations_within
  have targeted : (Sheet.run {} smelting).graph.Targeted
      (.conversion (.named "Iron") (.named "Steel")) :=
    ⟨.conversion ⟨1⟩ (.named "Iron") (.named "Steel") 50,
      follows.enrolled.modifiers ▸ List.mem_cons_self, List.mem_cons_self⟩
  have found := (linked ⟨"Iron", .character⟩ ⟨"Steel", .character⟩).mpr ⟨_, targeted, .inl rfl⟩
  obtain ⟨link, here⟩ := Option.isSome_iff_exists.mp found
  have side := ((sides _ _ link here).2 _).1.mpr ⟨targeted, rfl⟩
  exact ⟨found, (converted _).mpr ⟨_, link, here, Option.isSome_iff_exists.mpr ⟨_, side⟩⟩⟩

end CharacterSheet
