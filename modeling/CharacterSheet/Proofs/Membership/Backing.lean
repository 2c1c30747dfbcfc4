import CharacterSheet.Proofs.Membership.Memberships

/-!
Contract: which stats convey by links, and which stats modifiers contribute to.

Owns:
- what a conversion or gain stat conveys, and the stat that conveys it by a link;
- what linking and unlinking a stat does to the links, and that no empty link is kept;
- what the links list: the targets of a source, the sources of a target and the paths between them;
- engaged stats, to which some modifier contributes, and how one membership changes the links.
-/

namespace CharacterSheet

theorem Table.get?_of_erase {κ α : Type} [DecidableEq κ] {table : Table κ α} {key other : κ}
    {value : α} (found : (table.erase key).get? other = some value) :
    table.get? other = some value := by
  rw [Table.get?_erase] at found
  split at found
  · contradiction
  · exact found

/-- A table is the list of its entries. -/
theorem Table.eq_of_entries {κ α : Type} {table other : Table κ α}
    (same : table.entries = other.entries) : table = other := by
  cases table
  cases other
  cases same
  rfl

theorem Table.eq_empty {κ α : Type} [DecidableEq κ] {table : Table κ α}
    (absent : ∀ key, table.get? key = none) : table = .empty := by
  refine Table.eq_of_entries (List.eq_nil_iff_forall_not_mem.mpr fun entry member => ?_)
  have found := (table.get?_eq_some_iff entry.1 entry.2).mpr member
  rw [absent] at found
  contradiction

/-! ### What links convey -/

/-- The two ways in which a share of one stat reaches another. -/
inductive Share where
  | conversion
  | gain
deriving DecidableEq, Repr

/-- What a stat conveys: in which way, from which stat and to which. -/
def Stat.route? (stat : Stat) : Option (Share × StatId × StatId) :=
  match stat.role with
  | .regular => none
  | .conversion source target => some (.conversion, source.id, target.id)
  | .gain source target => some (.gain, source.id, target.id)

namespace Link

/-- The stat of one side of a link. -/
def via (link : Link) : Share → Option Stat
  | .conversion => link.conversion
  | .gain => link.gain

/-- A link with another stat on one side. -/
def put (share : Share) (stat : Option Stat) (link : Link) : Link :=
  match share with
  | .conversion => { link with conversion := stat }
  | .gain => { link with gain := stat }

theorem via_put (link : Link) (share other : Share) (stat : Option Stat) :
    (link.put share stat).via other = if other = share then stat else link.via other := by
  cases share <;> cases other <;> rfl

theorem isEmpty_iff (link : Link) : link.isEmpty = true ↔ ∀ share, link.via share = none := by
  rw [isEmpty, Bool.and_eq_true, Option.isNone_iff_eq_none, Option.isNone_iff_eq_none]
  refine ⟨fun both share => ?_, fun all => ⟨all .conversion, all .gain⟩⟩
  cases share
  · exact both.1
  · exact both.2

@[simp] theorem via_empty (share : Share) : ({} : Link).via share = none := by cases share <;> rfl

end Link

namespace Links

variable {links other : Links} {stat : Stat} {source target : StatId} {share : Share}

/-- The stat that conveys a share of a source to a target. -/
def conveyor? (links : Links) (share : Share) (source target : StatId) : Option Stat :=
  (links.link? source target).bind (·.via share)

/-- No link and no source is kept without a stat, and each source stands under its identity. -/
structure Proper (links : Links) : Prop where
  keyed : ∀ source outlet, links.outlets.get? source = some outlet → outlet.source.id = source
  linked : ∀ source outlet, links.outlets.get? source = some outlet → outlet.targets.isEmpty = false
  filled : ∀ source target link, links.link? source target = some link → link.isEmpty = false

theorem Proper.initial : ({} : Links).Proper where
  keyed := fun _ _ found => nomatch found
  linked := fun _ _ found => nomatch found
  filled := fun _ _ _ found => nomatch found

/-- A source that is kept is linked to something. -/
theorem Proper.exists_target (proper : links.Proper) {outlet : Outlet}
    (found : links.outlets.get? source = some outlet) :
    ∃ target, (links.link? source target).isSome := by
  obtain ⟨⟨target, link⟩, member⟩ := List.exists_mem_of_ne_nil outlet.targets.entries
    (List.isEmpty_eq_false_iff.mp (proper.linked source outlet found))
  refine ⟨target, Option.isSome_iff_exists.mpr ⟨link, ?_⟩⟩
  rw [link?, found, Option.bind_some]
  exact (outlet.targets.get?_eq_some_iff target link).mpr member

/-- Where nothing is kept without a stat, a link is there for a stat that conveys. -/
theorem Proper.isSome_link?_iff (proper : links.Proper) :
    (links.link? source target).isSome ↔
      ∃ share stat, links.conveyor? share source target = some stat := by
  constructor
  · intro present
    obtain ⟨link, found⟩ := Option.isSome_iff_exists.mp present
    have filled := proper.filled source target link found
    by_contra none
    refine Bool.eq_false_iff.mp filled (link.isEmpty_iff.mpr fun share => ?_)
    cases side : link.via share with
    | none => rfl
    | some stat => exact absurd ⟨share, stat, by rw [conveyor?, found, Option.bind_some, side]⟩ none
  · rintro ⟨share, stat, conveys⟩
    obtain ⟨link, found, _⟩ := Option.bind_eq_some_iff.mp conveys
    exact Option.isSome_iff_exists.mpr ⟨link, found⟩

theorem link?_update (links : Links) (source : Stat) (target : StatId) (change : Link → Link)
    (first second : StatId) :
    (links.update source target change).link? first second =
      if first = source.id ∧ second = target then
        some (change ((links.link? source.id target).getD {}))
      else links.link? first second := by
  simp only [link?, update, Table.get?_insert]
  by_cases here : first = source.id
  · subst here
    rw [if_pos rfl, Option.bind_some]
    cases found : links.outlets.get? source.id with
    | none =>
        simp only [Option.getD_none, Option.bind_none, Table.get?_insert, true_and,
          Table.get?_empty]
    | some outlet =>
        simp only [Option.getD_some, Option.bind_some, Table.get?_insert, true_and]
  · rw [if_neg here, if_neg fun both => here both.1]

theorem link?_of_clear?_none {change : Link → Link} (none : links.clear? source target change = none) :
    links.link? source target = Option.none := by
  unfold clear? at none
  rw [link?]
  cases found : links.outlets.get? source with
  | none => rfl
  | some outlet =>
      cases linked : outlet.targets.get? target with
      | none => exact linked
      | some old =>
          simp only [found, linked, Option.pure_def, Option.bind_eq_bind, Option.bind_some] at none
          generalize (if (change old).isEmpty = true then outlet.targets.erase target
            else outlet.targets.insert target (change old)) = targets at none
          split at none <;> contradiction

theorem link?_clear {change : Link → Link} (cleared : links.clear? source target change = some other) :
    ∃ old, links.link? source target = some old ∧ ∀ first second, other.link? first second =
      if first = source ∧ second = target then
        if (change old).isEmpty then none else some (change old)
      else links.link? first second := by
  obtain ⟨outlet, old, found, linked, targets, left, cases⟩ := clear?_cases cleared
  refine ⟨old, by rw [link?, found, Option.bind_some, linked], fun first second => ?_⟩
  have inside := left ▸ get?_cleared outlet target change old second
  by_cases here : first = source
  · subst here
    have there : other.link? first second = targets.get? second := by
      rcases cases with ⟨empty, rfl⟩ | ⟨_, rfl⟩
      · rw [link?, Table.get?_erase, if_pos rfl, Graph.entries_eq_nil empty]
        rfl
      · rw [link?, Table.get?_insert_self, Option.bind_some]
    rw [there, inside]
    simp only [true_and, link?, found, Option.bind_some]
  · rw [if_neg fun both => here both.1]
    rcases cases with ⟨_, rfl⟩ | ⟨_, rfl⟩
    · rw [link?, Table.get?_erase, if_neg here, link?]
    · rw [link?, Table.get?_insert_other _ here, link?]

/-! ### Linking and unlinking a stat -/

/-- Undo the registration of a stat, as far as there is one. -/
def revoke (links : Links) (stat : Stat) : Links := (links.unregister? stat).getD links

theorem register_of_route (links : Links) (conveys : stat.route? = some (share, source, target)) :
    ∃ origin : Stat, origin.id = source ∧
      links.register stat = links.update origin target (Link.put share (some stat)) := by
  unfold Stat.route? at conveys
  unfold register
  cases role : stat.role with
  | regular => simp [role] at conveys
  | conversion first second | gain first second =>
      simp only [role, Option.some.injEq, Prod.mk.injEq] at conveys
      obtain ⟨rfl, rfl, rfl⟩ := conveys
      exact ⟨first, rfl, rfl⟩

theorem register_of_regular (links : Links) (regular : stat.route? = none) :
    links.register stat = links := by
  unfold Stat.route? at regular
  unfold register
  cases role : stat.role <;> simp [role] at regular ⊢

theorem unregister?_of_route (links : Links) (conveys : stat.route? = some (share, source, target)) :
    links.unregister? stat = links.clear? source target (Link.put share none) := by
  unfold Stat.route? at conveys
  unfold unregister?
  cases role : stat.role with
  | regular => simp [role] at conveys
  | conversion first second | gain first second =>
      simp only [role, Option.some.injEq, Prod.mk.injEq] at conveys
      obtain ⟨rfl, rfl, rfl⟩ := conveys
      rfl

theorem revoke_of_regular (links : Links) (regular : stat.route? = none) :
    links.revoke stat = links := by
  unfold Stat.route? at regular
  unfold revoke unregister?
  cases role : stat.role <;> simp [role] at regular ⊢

/-- A stat that is linked conveys what it says, and everything else is conveyed as before. -/
theorem conveyor?_register (links : Links) (stat : Stat) (share : Share) (source target : StatId) :
    (links.register stat).conveyor? share source target =
      if stat.route? = some (share, source, target) then some stat
      else links.conveyor? share source target := by
  cases conveys : stat.route? with
  | none => rw [register_of_regular links conveys, if_neg (by simp)]
  | some route =>
      obtain ⟨own, first, second⟩ := route
      obtain ⟨origin, rfl, registered⟩ := register_of_route links conveys
      rw [conveyor?, registered, link?_update]
      by_cases here : source = origin.id ∧ target = second
      · obtain ⟨rfl, rfl⟩ := here
        rw [if_pos ⟨rfl, rfl⟩, Option.bind_some, Link.via_put]
        by_cases same : share = own
        · simp [same]
        · rw [if_neg same, if_neg (by simpa using Ne.symm same), conveyor?]
          cases links.link? origin.id target <;> simp
      · rw [if_neg here, if_neg, conveyor?]
        simp only [Option.some.injEq, Prod.mk.injEq, not_and]
        rintro - rfl rfl
        exact here ⟨rfl, rfl⟩

/-- A stat that is unlinked leaves nothing that conveys what it says. -/
theorem conveyor?_revoke (links : Links) (stat : Stat) (share : Share) (source target : StatId) :
    (links.revoke stat).conveyor? share source target =
      if stat.route? = some (share, source, target) then none
      else links.conveyor? share source target := by
  cases conveys : stat.route? with
  | none => rw [revoke_of_regular links conveys, if_neg (by simp)]
  | some route =>
      obtain ⟨own, first, second⟩ := route
      rw [revoke, unregister?_of_route links conveys]
      cases cleared : links.clear? first second (Link.put own none) with
      | none =>
          have missing := link?_of_clear?_none cleared
          split
          · next same =>
            cases same
            rw [Option.getD_none, conveyor?, missing, Option.bind_none]
          · rfl
      | some other =>
          obtain ⟨old, linked, after⟩ := link?_clear cleared
          rw [Option.getD_some, conveyor?, after]
          by_cases here : source = first ∧ target = second
          · obtain ⟨rfl, rfl⟩ := here
            have side : ((if (old.put own none).isEmpty then none else some (old.put own none)).bind
                (·.via share)) = (old.put own none).via share := by
              split
              · next empty => exact ((Link.isEmpty_iff _).mp empty share).symm
              · rfl
            rw [if_pos ⟨rfl, rfl⟩, side, Link.via_put]
            by_cases same : share = own
            · simp [same]
            · rw [if_neg same, if_neg (by simpa using Ne.symm same), conveyor?, linked,
                Option.bind_some]
          · rw [if_neg here, if_neg, conveyor?]
            simp only [Option.some.injEq, Prod.mk.injEq, not_and]
            rintro - rfl rfl
            exact here ⟨rfl, rfl⟩

theorem Proper.register (proper : links.Proper) (stat : Stat) : (links.register stat).Proper := by
  cases conveys : stat.route? with
  | none => exact (register_of_regular links conveys).symm ▸ proper
  | some route =>
      obtain ⟨share, source, target⟩ := route
      obtain ⟨origin, rfl, registered⟩ := register_of_route links conveys
      rw [registered]
      constructor
      · intro first outlet found
        rw [update, Table.get?_insert] at found
        split at found
        · next same =>
          subst same
          cases found
          cases there : links.outlets.get? origin.id with
          | none => rfl
          | some old => exact proper.keyed _ old there
        · exact proper.keyed first outlet found
      · intro first outlet found
        rw [update, Table.get?_insert] at found
        split at found
        · cases found
          refine Bool.eq_false_iff.mpr fun empty => ?_
          have absent := Graph.entries_eq_nil empty target
          rw [Table.get?_insert_self] at absent
          contradiction
        · exact proper.linked first outlet found
      · intro first second link found
        rw [link?_update] at found
        split at found
        · cases found
          refine Bool.eq_false_iff.mpr fun empty => ?_
          have absent := (Link.isEmpty_iff _).mp empty share
          rw [Link.via_put, if_pos rfl] at absent
          contradiction
        · exact proper.filled first second link found

theorem Proper.revoke (proper : links.Proper) (stat : Stat) : (links.revoke stat).Proper := by
  cases conveys : stat.route? with
  | none => exact (revoke_of_regular links conveys).symm ▸ proper
  | some route =>
      obtain ⟨share, source, target⟩ := route
      rw [Links.revoke, unregister?_of_route links conveys]
      cases cleared : links.clear? source target (Link.put share none) with
      | none => exact proper
      | some other =>
          obtain ⟨_, _, after⟩ := link?_clear cleared
          obtain ⟨outlet, _, found, _, targets, _, cases⟩ := clear?_cases cleared
          refine ⟨fun first old there => ?_, fun first old there => ?_, fun first second link there => ?_⟩
          · rcases cases with ⟨_, rfl⟩ | ⟨_, rfl⟩
            · exact proper.keyed first old (Table.get?_of_erase there)
            · replace there := (Table.get?_insert _ _ _ _).symm.trans there
              split at there
              · next same =>
                cases there
                exact same ▸ proper.keyed source outlet found
              · exact proper.keyed first old there
          · rcases cases with ⟨_, rfl⟩ | ⟨left, rfl⟩
            · exact proper.linked first old (Table.get?_of_erase there)
            · replace there := (Table.get?_insert _ _ _ _).symm.trans there
              split at there
              · cases there
                exact left
              · exact proper.linked first old there
          · replace there := (after first second).symm.trans there
            split at there
            · split at there
              · contradiction
              · next some =>
                cases there
                exact Bool.not_eq_true _ ▸ some
            · exact proper.filled first second link there

/-! ### What links list -/

theorem mem_targets_iff (links : Links) (source target : StatId) :
    target ∈ links.targets source ↔ (links.link? source target).isSome := by
  rw [targets, link?]
  cases links.outlets.get? source with
  | none => simp
  | some outlet => exact outlet.targets.mem_keys_iff target

theorem nodup_targets (links : Links) (source : StatId) : (links.targets source).Nodup := by
  rw [targets]
  split
  · next outlet _ => exact outlet.targets.nodup_keys
  · exact List.nodup_nil

theorem Proper.sourcesInto_eq (proper : links.Proper) (target : StatId) :
    (links.sourcesInto target).map (·.id) =
      (links.outlets.entries.filter (·.2.targets.contains target)).map Prod.fst := by
  rw [sourcesInto, Table.values, List.filter_map, List.map_map, List.map_map]
  refine List.map_congr_left fun entry member => ?_
  exact proper.keyed entry.1 entry.2
    ((Table.get?_eq_some_iff _ _ _).mpr (List.mem_of_mem_filter member))

theorem Proper.mem_sourcesInto_iff (proper : links.Proper) (source target : StatId) :
    source ∈ (links.sourcesInto target).map (·.id) ↔ (links.link? source target).isSome := by
  rw [proper.sourcesInto_eq, link?]
  constructor
  · intro listed
    obtain ⟨⟨key, outlet⟩, inside, rfl⟩ := List.mem_map.mp listed
    obtain ⟨member, linked⟩ := List.mem_filter.mp inside
    rw [(Table.get?_eq_some_iff _ _ _).mpr member, Option.bind_some]
    exact linked
  · intro linked
    obtain ⟨link, found⟩ := Option.isSome_iff_exists.mp linked
    obtain ⟨outlet, here, inside⟩ := Option.bind_eq_some_iff.mp found
    refine List.mem_map.mpr ⟨(source, outlet), List.mem_filter.mpr ⟨?_, ?_⟩, rfl⟩
    · exact (Table.get?_eq_some_iff _ _ _).mp here
    · exact (congrArg Option.isSome inside).trans rfl

theorem Proper.nodup_sourcesInto (proper : links.Proper) (target : StatId) :
    ((links.sourcesInto target).map (·.id)).Nodup := by
  rw [proper.sourcesInto_eq]
  exact links.outlets.distinct.sublist (List.filter_sublist.map Prod.fst)

theorem mem_conversionStats_iff (links : Links) (source : StatId) (stat : Stat) :
    stat ∈ links.conversionStats source ↔
      ∃ target, links.conveyor? .conversion source target = some stat := by
  simp only [conversionStats, conveyor?, link?]
  cases links.outlets.get? source with
  | none => simp
  | some outlet =>
      simp only [List.mem_filterMap, Option.bind_some, Option.bind_eq_some_iff, Table.mem_values_iff]
      constructor
      · rintro ⟨link, ⟨target, linked⟩, converts⟩
        exact ⟨target, link, linked, converts⟩
      · rintro ⟨target, link, linked, converts⟩
        exact ⟨link, ⟨target, linked⟩, converts⟩

theorem isConverted_iff (links : Links) (source : StatId) :
    links.isConverted source = true ↔
      ∃ target stat, links.conveyor? .conversion source target = some stat := by
  simp only [isConverted, conveyor?, link?]
  cases links.outlets.get? source with
  | none => simp
  | some outlet =>
      simp only [List.any_eq_true, Option.bind_some, Option.bind_eq_some_iff, Table.mem_values_iff,
        Option.isSome_iff_exists]
      constructor
      · rintro ⟨link, ⟨target, linked⟩, stat, converts⟩
        exact ⟨target, stat, link, linked, converts⟩
      · rintro ⟨target, stat, link, linked, converts⟩
        exact ⟨link, ⟨target, linked⟩, stat, converts⟩

/-- Stats that convey to different targets are told apart, if their identity says where they
convey to. -/
theorem nodup_conversionStats {source : StatId}
    (placed : ∀ first second stat other, links.conveyor? .conversion source first = some stat →
      links.conveyor? .conversion source second = some other → stat.id = other.id →
        first = second) :
    ((links.conversionStats source).map (·.id)).Nodup := by
  rw [conversionStats]
  cases found : links.outlets.get? source with
  | none => exact List.nodup_nil
  | some outlet =>
      have conveys {target : StatId} {link : Link} {stat : Stat}
          (member : (target, link) ∈ outlet.targets.entries) (converts : link.conversion = some stat) :
          links.conveyor? .conversion source target = some stat := by
        rw [conveyor?, link?, found, Option.bind_some, (Table.get?_eq_some_iff _ _ _).mpr member]
        exact converts
      show ((outlet.targets.entries.map Prod.snd).filterMap (·.conversion) |>.map (·.id)).Nodup
      rw [List.filterMap_map, List.Nodup, List.pairwise_map, List.pairwise_filterMap]
      refine List.Pairwise.imp_of_mem ?_ (List.pairwise_map.mp outlet.targets.distinct)
      rintro ⟨first, link⟩ ⟨second, next⟩ member later apart stat converts other follows same
      exact apart (placed first second stat other (conveys member converts) (conveys later follows)
        same)

end Links

theorem Stat.route?_of_ends? {stat : Stat} (regular : stat.ends? = none) : stat.route? = none := by
  unfold ends? at regular
  unfold route?
  cases role : stat.role <;> simp [role] at regular ⊢

namespace Graph

variable {vocabulary : Vocabulary} {graph other : Graph} {modifier : Modifier} {stat kept : Stat}

theorem links_linkIf (graph : Graph) (first : Prop) [Decidable first] (stat : Stat) :
    (graph.linkIf first stat).links = if first then graph.links.register stat else graph.links := by
  unfold linkIf
  split
  · cases ends : stat.ends? with
    | none => exact (Links.register_of_regular _ (Stat.route?_of_ends? ends)).symm
    | some both => exact congrArg Shape.links (graph.shape_relink _ _ _ _)
  · rfl

theorem links_unlinkIf (graph : Graph) (last : Prop) [Decidable last] (stat : Stat) :
    (graph.unlinkIf last stat).links = if last then graph.links.revoke stat else graph.links := by
  unfold unlinkIf
  split
  · cases ends : stat.ends? with
    | none => exact (Links.revoke_of_regular _ (Stat.route?_of_ends? ends)).symm
    | some both =>
        rw [Links.revoke]
        cases graph.links.unregister? stat with
        | none => rfl
        | some links => exact congrArg Shape.links (graph.shape_relink _ _ _ _)
  · rfl

/-! ### Engaged stats -/

/-- Some modifier contributes to a stat. -/
def Engaged (graph : Graph) (stat : StatId) : Prop :=
  ∃ form path, graph.members stat form path ≠ []

theorem Joins.engaged_iff {stats : List Stat} (joins : Joins modifier stats graph other)
    (id : StatId) : other.Engaged id ↔ (∃ stat ∈ stats, stat.id = id) ∨ graph.Engaged id := by
  constructor
  · rintro ⟨form, path, some⟩
    rw [joins.members] at some
    split at some
    · next serves => exact .inl serves.1.1
    · exact .inr ⟨form, path, some⟩
  · rintro (named | ⟨form, path, some⟩)
    · refine ⟨modifier.form, modifier.path.id, ?_⟩
      rw [joins.members]
      split
      · simp
      · next stays =>
        intro empty
        refine stays ⟨⟨named, rfl, rfl⟩, ?_⟩
        simp [empty]
    · refine ⟨form, path, ?_⟩
      rw [joins.members]
      split
      · simp
      · exact some

/-- A pipeline without memberships is one to which no modifier contributes. -/
theorem Counted.memberships_eq_zero_iff (counted : graph.Counted) {pipeline : Pipeline}
    {own : StatId} (here : graph.pipelines.get? own = some pipeline) :
    pipeline.memberships = 0 ↔ ¬ graph.Engaged own := by
  rw [counted own pipeline here]
  constructor
  · rintro none ⟨form, path, some⟩
    have few := pipeline.length_members_le form path
    rw [none, Nat.le_zero, List.length_eq_zero_iff] at few
    rw [members, here] at some
    exact some few
  · intro idle
    refine List.sum_eq_zero_iff_forall_eq_nat.mpr fun count inside => ?_
    obtain ⟨slot, listed, rfl⟩ := List.mem_map.mp inside
    obtain ⟨⟨form, path⟩, filled⟩ := (Table.mem_values_iff _ _).mp listed
    by_contra some
    refine idle ⟨form, path, ?_⟩
    rw [members_of_filled here filled]
    exact fun empty => some (congrArg List.length empty)

/-! ### Stats that pipelines keep -/

theorem Keeps.of_pipelines (keeps : graph.Keeps kept) (same : other.pipelines = graph.pipelines) :
    other.Keeps kept := by
  rwa [Keeps, same]

theorem pipelines_changeRoster (graph : Graph) (slot : SlotId) (filled : Slot) (memberships : Nat)
    (change : Delta ModifierId) (widens : Bool) :
    (graph.changeRoster slot filled memberships change widens).pipelines =
      (graph.enterRoster slot filled memberships).pipelines :=
  congrArg Shape.pipelines (graph.shape_changeRoster slot filled memberships change widens)

/-- A pipeline keeps its stat when one of its rosters changes. -/
theorem Keeps.changeRoster (keeps : graph.Keeps kept) (slot : SlotId) (filled : Slot)
    (memberships : Nat) (change : Delta ModifierId) (widens : Bool) :
    (graph.changeRoster slot filled memberships change widens).Keeps kept := by
  obtain ⟨pipeline, here, same⟩ := keeps
  have entered : (graph.enterRoster slot filled memberships).Keeps kept := by
    rw [Keeps, pipelines_enterRoster]
    split
    · exact ⟨pipeline.fill slot.form slot.path filled memberships, by rw [here]; rfl, same⟩
    · exact ⟨pipeline, here, same⟩
  exact entered.of_pipelines (graph.pipelines_changeRoster slot filled memberships change widens)

theorem links_changeRoster (graph : Graph) (slot : SlotId) (filled : Slot) (memberships : Nat)
    (change : Delta ModifierId) (widens : Bool) :
    (graph.changeRoster slot filled memberships change widens).links = graph.links :=
  congrArg Shape.links (graph.shape_changeRoster slot filled memberships change widens)

/-! ### Links of stats that modifiers join and leave -/

/-- What becomes of links and of kept stats when a modifier joins the roster of a stat: the stat is
linked, as its pipeline keeps it, if no modifier contributed to it before. -/
structure Recruits (stat : Stat) (graph other : Graph) : Prop where
  keeps : ∀ kept, graph.Keeps kept → other.Keeps kept
  engaged : graph.Engaged stat.id → other.links = graph.links
  idle : ¬ graph.Engaged stat.id → ∃ kept, other.Keeps kept ∧ kept.id = stat.id ∧
    other.links = graph.links.register kept

/-- What becomes of links and of kept stats when a modifier leaves the roster of a stat, where it
is: the stat is unlinked, as its pipeline keeps it, if no modifier contributes to it any more. -/
structure Releases (stat : Stat) (graph other : Graph) : Prop where
  keeps : ∀ kept, graph.Keeps kept → other.Keeps kept
  engaged : other.Engaged stat.id → other.links = graph.links
  idle : ¬ other.Engaged stat.id → ∃ kept, graph.Keeps kept ∧ kept.id = stat.id ∧
    other.links = graph.links.revoke kept

theorem recruits_joinRoster (sound : graph.Sound vocabulary) (counted : graph.Counted)
    (resolved : stat.isResolved = true) (within : stat.HeadWithin vocabulary)
    (route : modifier.path.Within vocabulary) :
    Recruits stat graph (joinRoster modifier graph stat) := by
  have advances : Advances vocabulary graph (graph.obtain stat modifier.form.stage modifier.path).2 :=
    advances_obtain sound.formed sound.stacked resolved within route
  have grows := advances.grows
  have opens : graph.Undisturbed (graph.obtain stat modifier.form.stage modifier.path).2 :=
    .of_extends grows.toExtends
  have same (id : StatId) : (graph.obtain stat modifier.form.stage modifier.path).2.Engaged id ↔
      graph.Engaged id := by simp only [Engaged, opens.members]
  obtain ⟨ready, pipeline, rfl, here, ⟨joined, inside⟩ | ⟨roster, change, _, joined⟩⟩ :=
    joinRoster_cases sound.formed sound.stacked resolved within route
  · rw [members_seat here, opens.members] at inside
    rw [joined]
    exact ⟨fun _ => grows.keeps, fun _ => grows.links,
      fun idle => absurd ⟨_, _, List.ne_nil_of_mem inside⟩ idle⟩
  · have none := (opens.counted counted).memberships_eq_zero_iff here
    rw [same] at none
    have links : (joinRoster modifier graph stat).links =
        if pipeline.memberships + 1 = 1 then graph.links.register pipeline.stat
        else graph.links := by
      rw [joined, links_linkIf, receive, links_changeRoster, grows.links]
    have stays (kept : Stat)
        (keeps : (graph.obtain stat modifier.form.stage modifier.path).2.Keeps kept) :
        (joinRoster modifier graph stat).Keeps kept := by
      rw [joined]
      exact (keeps.changeRoster _ _ _ _ _).of_pipelines (pipelines_linkIf _ _ _)
    have keyed := (advances.formed.pipelines _ pipeline here).keyed
    refine ⟨fun kept keeps => stays kept (grows.keeps keeps), fun engaged => ?_, fun idle => ?_⟩
    · rw [links, if_neg]
      intro first
      exact none.mp (by omega) engaged
    · refine ⟨pipeline.stat, stays _ ⟨pipeline, by rw [keyed]; exact here, rfl⟩, keyed, ?_⟩
      rw [links, if_pos (by rw [none.mpr idle])]

theorem releases_leaveRoster (formed : graph.WellFormed vocabulary) (counted : graph.Counted)
    (inside : modifier.id ∈ graph.members stat.id modifier.form modifier.path.id) :
    Releases stat graph (leaveRoster modifier graph stat) := by
  rcases graph.leaveRoster_cases modifier stat with ⟨_, absent⟩ |
    ⟨pipeline, slot, roster, change, here, filled, removed, left⟩
  · exact absurd inside absent
  · have keyed := (formed.pipelines _ pipeline here).keyed
    have links : (leaveRoster modifier graph stat).links =
        if pipeline.memberships - 1 = 0 then graph.links.revoke pipeline.stat
        else graph.links := by
      rw [left, links_unlinkIf, dismiss, links_changeRoster]
    have after : (leaveRoster modifier graph stat).pipelines.get? stat.id =
        some (pipeline.fill modifier.form modifier.path.id { slot with roster }
          (pipeline.memberships - 1)) := by
      rw [left, pipelines_unlinkIf, dismiss, pipelines_changeRoster, pipelines_enterRoster,
        if_pos rfl, here]
      rfl
    have none := ((quits_leaveRoster formed modifier stat).counted counted).memberships_eq_zero_iff
      after
    have few : pipeline.memberships - 1 = 0 ↔ ¬ (leaveRoster modifier graph stat).Engaged stat.id :=
      none
    refine ⟨fun kept keeps => ?_, fun engaged => ?_, fun idle => ?_⟩
    · rw [left]
      exact (keeps.changeRoster _ _ _ _ _).of_pipelines (pipelines_unlinkIf _ _ _)
    · rw [links, if_neg fun last => few.mp last engaged]
    · exact ⟨pipeline.stat, ⟨pipeline, by rw [keyed]; exact here, rfl⟩, keyed,
        by rw [links, if_pos (few.mpr idle)]⟩

/-! ### Paths -/

theorem hasMembersOn_iff_members (pipeline : Pipeline) (path : PathId) :
    pipeline.hasMembersOn path = true ↔ ∃ form, pipeline.members form path ≠ [] := by
  simp only [Pipeline.hasMembersOn, List.any_eq_true, Bool.and_eq_true, decide_eq_true_eq]
  constructor
  · rintro ⟨⟨⟨form, own⟩, slot⟩, member, rfl, occupied⟩
    refine ⟨form, ?_⟩
    rw [Pipeline.members, (Table.get?_eq_some_iff _ _ _).mpr member]
    simpa using occupied
  · rintro ⟨form, occupied⟩
    rw [Pipeline.members] at occupied
    split at occupied
    · next slot filled =>
      exact ⟨((form, path), slot), (Table.get?_eq_some_iff _ _ _).mp filled, rfl, by simpa using occupied⟩
    · contradiction

/-- A stat has the main path, the paths on which modifiers contribute to it, and those of the
sources that are linked to it. -/
theorem WellFormed.mem_paths_iff (formed : graph.WellFormed vocabulary) (own : StatId) (path : PathId) :
    path ∈ (graph.paths own).map PathOf.id ↔ path = .main ∨
      (∃ form, graph.members own form path ≠ []) ∨
        ∃ source ∈ (graph.links.sourcesInto own).map (·.id), path = .convertedFrom source := by
  rw [paths_eq, id_mem_foldl_insertPath, List.map_append, List.mem_append]
  refine or_congr (by simp) (or_congr ?_ ?_)
  · simp only [members]
    cases here : graph.pipelines.get? own with
    | none => simp
    | some pipeline =>
        rw [Option.elim_some, ← (formed.pipelines own pipeline here).hasMembersOn_iff]
        exact hasMembersOn_iff_members pipeline path
  · simp only [List.map_map, List.mem_map, Function.comp_apply]
    constructor
    · rintro ⟨source, member, rfl⟩
      exact ⟨source.id, ⟨source, member, rfl⟩, rfl⟩
    · rintro ⟨_, ⟨source, member, rfl⟩, rfl⟩
      exact ⟨source, member, rfl⟩

end Graph
end CharacterSheet
