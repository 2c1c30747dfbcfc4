import CharacterSheet.Proofs.Change.Rosters

/-!
Contract: how a change of one link turns a graph.

Owns:
- tables after an insertion, as seen by a selection of their entries;
- changes of links that stay between one source and one target;
- the proof that linking and unlinking are such changes, and turns.

A link is read by the base of the target on the path converted from the source, by the total
of the source's main path, and by the sum over the target's paths. If the shares of a source
are weighed against each other, every target of the source reads every link of the source.
-/

namespace CharacterSheet

theorem Table.filterMap_insert {κ α β : Type} [DecidableEq κ] (table : Table κ α) {key : κ}
    {value : α} {select : κ × α → Option β}
    (same : select (key, value) = (table.get? key).bind fun old => select (key, old)) :
    (table.insert key value).entries.filterMap select = table.entries.filterMap select := by
  have general (entries : List (κ × α))
      (same : select (key, value) = (findIn key entries).bind fun old => select (key, old)) :
      (putIn key value entries).filterMap select = entries.filterMap select := by
    induction entries with
    | nil => simpa [putIn, findIn] using same
    | cons entry rest inductionHypothesis =>
        by_cases own : entry.1 = key
        · subst own
          simp only [findIn, ↓reduceIte, Option.bind_some] at same
          simp only [putIn, ↓reduceIte, List.filterMap_cons, same]
        · simp only [findIn, own, ↓reduceIte] at same
          simp only [putIn, own, ↓reduceIte, List.filterMap_cons, inductionHypothesis same]
  exact general table.entries same

theorem Table.filterMap_erase {κ α β : Type} [DecidableEq κ] (table : Table κ α) {key : κ}
    {select : κ × α → Option β}
    (dropped : ∀ old, table.get? key = some old → select (key, old) = none) :
    (table.erase key).entries.filterMap select = table.entries.filterMap select := by
  show (table.entries.filter fun entry => !decide (entry.1 = key)).filterMap select = _
  rw [List.filterMap_filter]
  apply List.filterMap_congr
  rintro ⟨other, value⟩ member
  by_cases same : other = key
  · subst same
    simp [dropped value ((table.get?_eq_some_iff _ _).mpr member)]
  · simp [same]

namespace Links

variable {links other : Links} {source target : StatId}

/-- Links that differ at most between a source and a target. -/
structure Relinks (links other : Links) (source target : StatId) : Prop where
  link? : ∀ first second, first ≠ source ∨ second ≠ target →
    other.link? first second = links.link? first second
  conversionStats : ∀ first, first ≠ source →
    other.conversionStats first = links.conversionStats first
  isConverted : ∀ first, first ≠ source → other.isConverted first = links.isConverted first
  sourcesInto : ∀ second, second ≠ target → other.sourcesInto second = links.sourcesInto second

theorem link?_of_not_mem {first second : StatId} (unlinked : second ∉ links.targets first) :
    links.link? first second = none := by
  unfold targets at unlinked
  unfold Links.link?
  cases found : links.outlets.get? first with
  | none => rfl
  | some outlet =>
      simp only [found, Table.mem_keys_iff] at unlinked
      simpa using unlinked

theorem sourcesInto_eq (links : Links) (target : StatId) :
    links.sourcesInto target = links.outlets.entries.filterMap fun entry =>
      if entry.2.targets.contains target then some entry.2.source else none := by
  unfold sourcesInto Table.values
  induction links.outlets.entries with
  | nil => rfl
  | cons entry rest inductionHypothesis =>
      simp only [List.map_cons, List.filter_cons, List.filterMap_cons]
      by_cases linked : entry.2.targets.contains target = true
      · simp [linked, inductionHypothesis]
      · simp [linked, inductionHypothesis]

/-- Only the outlet of the source matters, and in it only the link of the target. -/
theorem relinks_of_outlet
    (elsewhere : ∀ first, first ≠ source → other.outlets.get? first = links.outlets.get? first)
    (inside : ∀ second, second ≠ target →
      other.link? source second = links.link? source second)
    (sourcesInto : ∀ second, second ≠ target →
      other.sourcesInto second = links.sourcesInto second) :
    links.Relinks other source target where
  link? := by
    intro first second apart
    by_cases same : first = source
    · subst same
      exact inside second (apart.resolve_left fun distinct => distinct rfl)
    · simp only [Links.link?, elsewhere first same]
  conversionStats := fun first apart => by simp only [Links.conversionStats, elsewhere first apart]
  isConverted := fun first apart => by simp only [Links.isConverted, elsewhere first apart]
  sourcesInto := sourcesInto

theorem relinks_update (links : Links) (source : Stat) (target : StatId) (change : Link → Link) :
    links.Relinks (links.update source target change) source.id target := by
  apply relinks_of_outlet
  · intro first apart
    exact Table.get?_insert_other _ apart _
  · intro second apart
    simp only [Links.link?, update, Table.get?_insert_self, Option.bind_some,
      Table.get?_insert_other _ apart]
    cases links.outlets.get? source.id <;> rfl
  · intro second apart
    rw [sourcesInto_eq, sourcesInto_eq]
    apply links.outlets.filterMap_insert
    simp only [Table.contains, Table.get?_insert_other _ apart]
    cases links.outlets.get? source.id <;> rfl

theorem relinks_register (links : Links) {stat source target : Stat}
    (ends : stat.ends? = some (source, target)) :
    links.Relinks (links.register stat) source.id target.id := by
  unfold Stat.ends? at ends
  unfold register
  cases role : stat.role with
  | regular => simp [role] at ends
  | conversion first second =>
      simp only [role, Option.some.injEq, Prod.mk.injEq] at ends
      obtain ⟨rfl, rfl⟩ := ends
      exact links.relinks_update _ _ _
  | gain first second =>
      simp only [role, Option.some.injEq, Prod.mk.injEq] at ends
      obtain ⟨rfl, rfl⟩ := ends
      exact links.relinks_update _ _ _

/-- To clear one side of a link takes an outlet with the link, and leaves its targets without an
empty link. -/
theorem clear?_cases {change : Link → Link} (cleared : links.clear? source target change = some other) :
    ∃ outlet old, links.outlets.get? source = some outlet ∧ outlet.targets.get? target = some old ∧
      ∃ targets, targets = (if (change old).isEmpty then outlet.targets.erase target
          else outlet.targets.insert target (change old)) ∧
        (targets.isEmpty = true ∧ other = ⟨links.outlets.erase source⟩ ∨
          targets.isEmpty = false ∧
            other = ⟨links.outlets.insert source { outlet with targets }⟩) := by
  unfold clear? at cleared
  cases found : links.outlets.get? source with
  | none => simp [found] at cleared
  | some outlet =>
      cases linked : outlet.targets.get? target with
      | none => simp [found, linked] at cleared
      | some old =>
          simp only [found, linked, Option.pure_def, Option.bind_eq_bind, Option.bind_some] at cleared
          refine ⟨outlet, old, rfl, linked, _, rfl, ?_⟩
          generalize (if (change old).isEmpty = true then outlet.targets.erase target
            else outlet.targets.insert target (change old)) = targets at cleared
          cases empty : targets.isEmpty <;>
            simp only [empty, Bool.false_eq_true, ↓reduceIte, Option.some.injEq] at cleared
          · exact .inr ⟨rfl, cleared.symm⟩
          · exact .inl ⟨rfl, cleared.symm⟩

theorem get?_cleared (outlet : Outlet) (target : StatId) (change : Link → Link) (old : Link)
    (second : StatId) :
    (if (change old).isEmpty then outlet.targets.erase target
      else outlet.targets.insert target (change old)).get? second =
      if second = target then if (change old).isEmpty then none else some (change old)
      else outlet.targets.get? second := by
  by_cases empty : (change old).isEmpty
  · simp only [empty, ↓reduceIte, Table.get?_erase]
  · simp only [empty, Bool.false_eq_true, ↓reduceIte, Table.get?_insert]

theorem relinks_clear {change : Link → Link} (cleared : links.clear? source target change = some other) :
    links.Relinks other source target := by
  obtain ⟨outlet, old, found, _, targets, left, cases⟩ := clear?_cases cleared
  have kept (second : StatId) (apart : second ≠ target) :
      targets.get? second = outlet.targets.get? second := by
    rw [left, get?_cleared, if_neg apart]
  rcases cases with ⟨empty, rfl⟩ | ⟨_, rfl⟩
  · have none (second : StatId) (apart : second ≠ target) : outlet.targets.get? second = none := by
      rw [← kept second apart]
      unfold Table.isEmpty at empty
      simp [Table.get?, List.isEmpty_iff.mp empty, Table.findIn]
    apply relinks_of_outlet
    · intro first apart
      simp [Table.get?_erase, apart]
    · intro second apart
      simp [Links.link?, Table.get?_erase, found, none second apart]
    · intro second apart
      rw [sourcesInto_eq, sourcesInto_eq]
      apply links.outlets.filterMap_erase
      intro old present
      rw [found] at present
      cases present
      simp [Table.contains, none second apart]
  · apply relinks_of_outlet
    · intro first apart
      exact Table.get?_insert_other _ apart _
    · intro second apart
      simp [Links.link?, found, kept second apart]
    · intro second apart
      rw [sourcesInto_eq, sourcesInto_eq]
      apply links.outlets.filterMap_insert
      simp only [found, Option.bind_some, Table.contains, kept second apart]
      rfl

theorem relinks_unregister {stat source target : Stat}
    (ends : stat.ends? = some (source, target)) (undone : links.unregister? stat = some other) :
    links.Relinks other source.id target.id := by
  unfold Stat.ends? at ends
  unfold unregister? at undone
  cases role : stat.role with
  | regular => simp [role] at ends
  | conversion first second =>
      simp only [role, Option.some.injEq, Prod.mk.injEq] at ends undone
      obtain ⟨rfl, rfl⟩ := ends
      exact relinks_clear undone
  | gain first second =>
      simp only [role, Option.some.injEq, Prod.mk.injEq] at ends undone
      obtain ⟨rfl, rfl⟩ := ends
      exact relinks_clear undone

/-! ### Well-formed links -/

section WellFormed

variable {vocabulary : Vocabulary}

theorem WellFormed.update (closed : vocabulary.Closed) (formed : links.WellFormed vocabulary)
    {source : Stat} {target : StatId} {change : Link → Link} (within : source.Within vocabulary)
    (keeps : ∀ link : Link, link.Within vocabulary → (change link).Within vocabulary) :
    (links.update source target change).WellFormed vocabulary := by
  intro first outlet found
  simp only [Links.update, Table.get?_insert] at found
  split at found
  · next same =>
    subst same
    cases found
    have before : ((links.outlets.get? source.id).getD { source }).WellFormed vocabulary source.id := by
      cases here : links.outlets.get? source.id with
      | some outlet => exact formed source.id outlet here
      | none => exact ⟨rfl, within, .convertedFrom closed within, by simp⟩
    refine ⟨before.keyed, before.within, before.path, ?_⟩
    intro second link linked
    simp only [Table.get?_insert] at linked
    split at linked
    · cases linked
      apply keeps
      cases here : ((links.outlets.get? source.id).getD { source }).targets.get? target with
      | none => exact ⟨by simp, by simp⟩
      | some link => exact before.links target link here
    · exact before.links second link linked
  · exact formed first outlet found

theorem WellFormed.register (closed : vocabulary.Closed) (formed : links.WellFormed vocabulary)
    {stat : Stat} (within : stat.HeadWithin vocabulary) :
    (links.register stat).WellFormed vocabulary := by
  unfold Links.register
  cases role : stat.role with
  | regular => exact formed
  | conversion source target =>
      have ends := within.role
      rw [role] at ends
      have full := within.within (closed.linking stat within.head (by simp [Stat.ends?, role]))
      apply formed.update closed ends.1
      rintro link ⟨_, gain⟩
      exact ⟨by simpa using full, gain⟩
  | gain source target =>
      have ends := within.role
      rw [role] at ends
      have full := within.within (closed.linking stat within.head (by simp [Stat.ends?, role]))
      apply formed.update closed ends.1
      rintro link ⟨conversion, _⟩
      exact ⟨conversion, by simpa using full⟩

theorem WellFormed.clear (formed : links.WellFormed vocabulary) {change : Link → Link}
    (keeps : ∀ link : Link, link.Within vocabulary → (change link).Within vocabulary)
    (cleared : links.clear? source target change = some other) : other.WellFormed vocabulary := by
  obtain ⟨outlet, old, found, linked, targets, left, cases⟩ := clear?_cases cleared
  have before := formed source outlet found
  have kept (second : StatId) (link : Link) (there : targets.get? second = some link) :
      link.Within vocabulary := by
    rw [left, get?_cleared] at there
    split at there
    · split at there
      · contradiction
      · cases there
        exact keeps old (before.links target old linked)
    · exact before.links second link there
  rcases cases with ⟨_, rfl⟩ | ⟨_, rfl⟩
  · intro first other there
    simp only [Table.get?_erase] at there
    split at there
    · contradiction
    · exact formed first other there
  · intro first other there
    simp only [Table.get?_insert] at there
    split at there
    · next same =>
      subst same
      cases there
      exact ⟨before.keyed, before.within, before.path, kept⟩
    · exact formed first other there

theorem WellFormed.unregister (formed : links.WellFormed vocabulary) {stat : Stat}
    (undone : links.unregister? stat = some other) : other.WellFormed vocabulary := by
  unfold unregister? at undone
  cases role : stat.role with
  | regular => simp [role] at undone
  | conversion source target =>
      simp only [role] at undone
      refine formed.clear ?_ undone
      intro link before
      exact ⟨by simp, before.gain⟩
  | gain source target =>
      simp only [role] at undone
      refine formed.clear ?_ undone
      intro link before
      exact ⟨before.conversion, by simp⟩

end WellFormed

end Links

namespace Graph

variable {vocabulary : Vocabulary} {graph : Graph} {links : Links} {source target : StatId}

/-! ### The change of a link -/

/-- Put other links in place and invalidate what depends on them. -/
def relink (graph : Graph) (links : Links) (entry : Record) (source target : StatId) : Graph :=
  ({ graph with links }.record entry).linkChanged source target

theorem mem_linkTargets_iff (graph : Graph) (source target : StatId) (node : NodeId) :
    node ∈ graph.linkTargets source target ↔
      graph.node? source .pathTotal .main = some node ∨
        ∃ stat, (stat ∈ graph.links.targets source ∨ stat = target) ∧
          (graph.node? stat .uncappedSubtotal .main = some node ∨
            graph.node? stat .base (.convertedFrom source) = some node) := by
  unfold linkTargets
  simp only [List.mem_append, List.mem_flatMap, Option.mem_toList]
  apply or_congr Iff.rfl
  constructor
  · rintro ⟨stat, member, here⟩
    refine ⟨stat, ?_, here⟩
    split at member
    · exact Or.inl member
    · simpa using member
  · rintro ⟨stat, member, here⟩
    refine ⟨stat, ?_, here⟩
    split
    · next linked =>
      rcases member with before | rfl
      · exact before
      · exact linked
    · simpa using member

theorem alters_links (global : vocabulary.Global) (formed : graph.WellFormed vocabulary)
    (relinks : graph.links.Relinks links source target) :
    graph.Alters { graph with links } Clean
      fun node => node ∈ linkTargets { graph with links } source target := by
  refine Alters.of_content rfl (fun _ => rfl) (fun query _ found => by cases query <;> exact found)
    (fun _ _ found => found) ?_
  intro node address clean found
  rw [mem_linkTargets_iff, not_or] at clean
  cases address with
  | contribution modifier => exact ⟨rfl, rfl⟩
  | pipeline stat stage path =>
      refine ⟨?_, rfl⟩
      obtain ⟨located, place⟩ := formed.node?_of_address found
      apply planOf_congr _ place fun other there => (formed.pipelines stat other there).keyed
      constructor
      · rfl
      · exact fun _ _ => rfl
      · exact fun _ _ _ => rfl
      · rintro rfl own converted
        by_cases same : own.id = source
        · subst same
          have within := formed.addressed _ _ _ _ found
          have from' : path.id = .convertedFrom own.id := by
            have root := global path within.allowed (by simp [converted])
            obtain ⟨origin, conversions⟩ := path
            cases conversions with
            | nil => simp [PathOf.convertedStat?] at converted
            | cons first rest =>
                cases rest with
                | cons => simp [PathOf.convertedStat?] at converted
                | nil =>
                    simp only [PathOf.convertedStat?, Option.some.injEq] at converted
                    subst converted root
                    rfl
          rw [from'] at located
          by_cases linked : stat ∈ links.targets own.id ∨ stat = target
          · exact absurd ⟨stat, linked, Or.inr located⟩ clean.2
          · rw [not_or] at linked
            have link := relinks.link? own.id stat (Or.inr linked.2)
            exact ⟨link, Or.inr (link ▸ Links.link?_of_not_mem linked.1)⟩
        · exact ⟨relinks.link? _ _ (Or.inl same), Or.inl (relinks.conversionStats _ same)⟩
      · rintro rfl main
        have apart : stat ≠ source := by
          rintro rfl
          apply clean.1
          rw [PathOf.isMain_iff] at main
          rw [main] at located
          exact located
        exact ⟨relinks.isConverted stat apart, relinks.conversionStats stat apart⟩
      · rintro rfl
        have apart : stat ≠ target := by
          rintro rfl
          apply clean.2
          have main : path.id = .main := place.symm
          rw [main] at located
          exact ⟨stat, Or.inr rfl, Or.inl located⟩
        simp only [paths, relinks.sourcesInto stat apart]

theorem shape_relink (graph : Graph) (links : Links) (entry : Record) (source target : StatId) :
    (graph.relink links entry source target).shape = { graph with links }.shape := by
  rw [relink, shape_linkChanged, shape_record]

/-- The change of a link is a turn. -/
theorem turns_relink (sound : graph.Sound vocabulary)
    (relinks : graph.links.Relinks links source target) (formed : links.WellFormed vocabulary)
    {entry : Record} (inward : entry.isAnnouncement = false) :
    Turns vocabulary graph (graph.relink links entry source target) := by
  have noted (faithful : vocabulary.Faithful) :
      graph.Alters ({ graph with links }.record entry) Clean
        fun node => node ∈ linkTargets { graph with links } source target :=
    (alters_links faithful.global sound.formed relinks).record entry
  have formedLinks : ({ graph with links }.record entry).WellFormed vocabulary :=
    { sound.formed with links := formed }
  have stacked : ({ graph with links }.record entry).Stacked :=
    ⟨sound.stacked.computing, sound.stacked.distinct, sound.stacked.outdated⟩
  have quiet : graph.Audience ({ graph with links }.record entry) :=
    { staged := fun _ present _ found => ⟨present.cache, found⟩
      watched := fun _ present found _ => ⟨present.cache, found⟩
      rosters := fun _ => rfl
      subscriptions := rfl
      lastSubscription := rfl
      announcements := announcements_record inward
      depth := rfl
      pending := fun _ member _ => member
      once := fun distinct => distinct }
  rw [relink, linkChanged_eq]
  have fades := ({ graph with links }.record entry).fades_invalidateAll
    (({ graph with links }.record entry).linkTargets source target)
  refine .of_clean sound ⟨formedLinks.of_shape fades.shape, stacked.of_fades fades,
    fades.evaluating.trans sound.idle⟩
    (quiet.trans (.of_grows (.of_fades fades)))
    (fun faithful => (noted faithful).invalidate _ fun _ _ _ => Or.inl) ?_
  intro node _ reached
  exact (pending_invalidateAll _ _ node).mpr (Or.inr reached)

end Graph
end CharacterSheet
