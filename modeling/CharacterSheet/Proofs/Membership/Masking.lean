import CharacterSheet.Proofs.Membership.Backing

/-!
Contract: links seen without some of their shares.

Owns:
- links without some shares, as the list of what is left of each source;
- to register or to revoke a stat that conveys a share which is left out does not show;
- proper links that do not convey what is left out are what they look like.

Stats may be registered and revoked in any order, and several of them may convey the same. What the
links look like without the shares of these stats stays the same all the way, in the same order.
-/

namespace CharacterSheet

variable {gone : StatId → StatId → Share → Prop} [∀ source target, DecidablePred (gone source target)]

/-- A link without some shares. -/
def Link.without (gone : Share → Prop) [DecidablePred gone] (link : Link) : Link where
  conversion := if gone .conversion then none else link.conversion
  gain := if gone .gain then none else link.gain

/-- What is left of a link to a target, if anything. -/
def Link.left? (gone : StatId → Share → Prop) [∀ target, DecidablePred (gone target)]
    (entry : StatId × Link) : Option (StatId × Link) :=
  let link := entry.2.without (gone entry.1)
  if link.isEmpty then none else some (entry.1, link)

/-- What is left of the links of a source, if anything. -/
def Outlet.left? (gone : StatId → StatId → Share → Prop)
    [∀ source target, DecidablePred (gone source target)] (entry : StatId × Outlet) :
    Option (StatId × Stat × List (StatId × Link)) :=
  let targets := entry.2.targets.entries.filterMap (Link.left? (gone entry.1))
  if targets.isEmpty then none else some (entry.1, entry.2.source, targets)

/-- What is left of links without some shares. -/
def Links.without (gone : StatId → StatId → Share → Prop)
    [∀ source target, DecidablePred (gone source target)] (links : Links) :
    List (StatId × Stat × List (StatId × Link)) :=
  links.outlets.entries.filterMap (Outlet.left? gone)

/-- Whatever a stat conveys is left out. -/
def Stat.LeftOut (gone : StatId → StatId → Share → Prop) (stat : Stat) : Prop :=
  ∀ share source target, stat.route? = some (share, source, target) → gone source target share

/-! ### One link -/

theorem Link.without_put {gone : Share → Prop} [DecidablePred gone] {share : Share}
    (masked : gone share) (stat : Option Stat) (link : Link) :
    (link.put share stat).without gone = link.without gone := by
  cases share <;> simp [put, without, masked]

theorem Link.isEmpty_without {gone : Share → Prop} [DecidablePred gone] {link : Link}
    (empty : link.isEmpty = true) : (link.without gone).isEmpty = true := by
  rw [isEmpty_iff] at empty ⊢
  have conversion := empty .conversion
  have gain := empty .gain
  simp only [via] at conversion gain
  intro share
  cases share <;> simp [via, without, conversion, gain]

theorem Link.without_eq {gone : Share → Prop} [DecidablePred gone] {link : Link}
    (clean : ∀ share, gone share → link.via share = none) : link.without gone = link := by
  obtain ⟨conversion, gain⟩ := link
  have first := clean .conversion
  have second := clean .gain
  simp only [via] at first second
  simp only [without, mk.injEq]
  constructor
  · split
    · next masked => exact (first masked).symm
    · rfl
  · split
    · next masked => exact (second masked).symm
    · rfl

namespace Links

variable {links other : Links} {source target : StatId} {share : Share} {stat : Stat}

/-! ### Links that are changed -/

/-- To put a share that is left out into a table of links does not show. -/
theorem filterMap_put {masks : StatId → Share → Prop} [∀ target, DecidablePred (masks target)]
    (masked : masks target share) (targets : Table StatId Link) (stat : Option Stat) :
    (targets.insert target (((targets.get? target).getD {}).put share stat)).entries.filterMap
        (Link.left? masks) = targets.entries.filterMap (Link.left? masks) := by
  refine targets.filterMap_insert ?_
  cases targets.get? target with
  | none =>
      have empty : (({} : Link).without (masks target)).isEmpty = true :=
        Link.isEmpty_without rfl
      simp only [Option.getD_none, Link.left?, Link.without_put masked, empty, ↓reduceIte,
        Option.bind_none]
  | some old => simp only [Option.getD_some, Link.left?, Link.without_put masked, Option.bind_some]

theorem without_update (masked : gone stat.id target share) (links : Links) (conveyor : Option Stat) :
    (links.update stat target (Link.put share conveyor)).without gone = links.without gone := by
  refine links.outlets.filterMap_insert ?_
  have same := filterMap_put masked
  cases links.outlets.get? stat.id with
  | none =>
      have nothing := same .empty conveyor
      simp only [Option.getD_none, Outlet.left?, Option.bind_none]
      rw [nothing]
      rfl
  | some outlet => simp only [Option.getD_some, Outlet.left?, Option.bind_some, same]

/-- To register a stat that conveys a share which is left out does not show. -/
theorem without_register (masked : stat.LeftOut gone) (links : Links) :
    (links.register stat).without gone = links.without gone := by
  cases conveys : stat.route? with
  | none => rw [register_of_regular links conveys]
  | some route =>
      obtain ⟨share, source, target⟩ := route
      obtain ⟨origin, rfl, registered⟩ := register_of_route links conveys
      rw [registered, without_update (masked share origin.id target conveys)]

/-- To take a share that is left out from a link does not show, whether the link goes or not. -/
theorem filterMap_cleared {masks : StatId → Share → Prop} [∀ target, DecidablePred (masks target)]
    (masked : masks target share) {targets : Table StatId Link} {old : Link}
    (linked : targets.get? target = some old) :
    (if (old.put share none).isEmpty then targets.erase target
      else targets.insert target (old.put share none)).entries.filterMap (Link.left? masks) =
        targets.entries.filterMap (Link.left? masks) := by
  split
  · next empty =>
    refine targets.filterMap_erase fun link found => ?_
    rw [linked] at found
    cases found
    have nothing : ((old.put share none).without (masks target)).isEmpty = true :=
      Link.isEmpty_without empty
    rw [Link.without_put masked] at nothing
    simp only [Link.left?, nothing, ↓reduceIte]
  · have same := filterMap_put masked targets none
    rwa [linked, Option.getD_some] at same

theorem without_clear (masked : gone source target share)
    (cleared : links.clear? source target (Link.put share none) = some other) :
    other.without gone = links.without gone := by
  obtain ⟨outlet, old, found, linked, targets, left, cases⟩ := clear?_cases cleared
  have same := filterMap_cleared masked linked
  rw [← left] at same
  rcases cases with ⟨empty, rfl⟩ | ⟨_, rfl⟩
  · refine links.outlets.filterMap_erase fun outlet' found' => ?_
    rw [found] at found'
    cases found'
    have none : targets.entries = [] := List.isEmpty_iff.mp empty
    simp only [Outlet.left?, ← same, none, List.filterMap_nil, List.isEmpty_nil, ↓reduceIte]
  · refine links.outlets.filterMap_insert ?_
    rw [found, Option.bind_some]
    simp only [Outlet.left?, same]

/-- To revoke a stat that conveys a share which is left out does not show. -/
theorem without_revoke (masked : stat.LeftOut gone) (links : Links) :
    (links.revoke stat).without gone = links.without gone := by
  cases conveys : stat.route? with
  | none => rw [revoke_of_regular links conveys]
  | some route =>
      obtain ⟨share, source, target⟩ := route
      rw [revoke, unregister?_of_route links conveys]
      cases cleared : links.clear? source target (Link.put share none) with
      | none => rfl
      | some other => exact without_clear (masked share source target conveys) cleared

/-! ### Links that convey nothing that is left out -/

theorem Proper.without_eq (proper : links.Proper)
    (clean : ∀ share source target, gone source target share →
      links.conveyor? share source target = none) :
    links.without gone = links.outlets.entries.map fun entry =>
      (entry.1, entry.2.source, entry.2.targets.entries) := by
  have links? (source : StatId) (outlet : Outlet) (found : links.outlets.get? source = some outlet) :
      outlet.targets.entries.filterMap (Link.left? (gone source)) = outlet.targets.entries := by
    refine (List.filterMap_congr ?_).trans List.filterMap_some
    rintro ⟨target, link⟩ member
    have linked : links.link? source target = some link := by
      rw [link?, found, Option.bind_some, (Table.get?_eq_some_iff _ _ _).mpr member]
    have same : link.without (gone source target) = link := Link.without_eq fun share masked => by
      have none := clean share source target masked
      rwa [conveyor?, linked, Option.bind_some] at none
    simp only [Link.left?, same, proper.filled source target link linked, Bool.false_eq_true,
      ↓reduceIte]
  rw [Links.without, ← List.filterMap_eq_map]
  refine List.filterMap_congr ?_
  rintro ⟨source, outlet⟩ member
  have found := (Table.get?_eq_some_iff _ _ _).mpr member
  have some : outlet.targets.entries.isEmpty = false := proper.linked source outlet found
  simp only [Outlet.left?, links? source outlet found, some, Bool.false_eq_true, ↓reduceIte,
    Function.comp_apply]

/-- Proper links that convey nothing that is left out are the same if they look the same. -/
theorem Proper.eq_of_without (proper : links.Proper) (properToo : other.Proper)
    (clean : ∀ share source target, gone source target share →
      links.conveyor? share source target = none)
    (cleanToo : ∀ share source target, gone source target share →
      other.conveyor? share source target = none)
    (same : links.without gone = other.without gone) : links = other := by
  rw [proper.without_eq clean, properToo.without_eq cleanToo] at same
  have told : Function.Injective fun entry : StatId × Outlet =>
      (entry.1, entry.2.source, entry.2.targets.entries) := by
    rintro ⟨source, origin, targets⟩ ⟨source', origin', targets'⟩ equal
    simp only [Prod.mk.injEq] at equal
    obtain ⟨rfl, rfl, entries⟩ := equal
    rw [Table.eq_of_entries entries]
  have outlets := Table.eq_of_entries (List.map_injective_iff.mpr told same)
  cases links
  cases other
  cases outlets
  rfl

end Links
end CharacterSheet
