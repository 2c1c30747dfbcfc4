import CharacterSheet.Proofs.Membership.Accounting

/-!
Contract: a link is there for every stat that conveys and to which a modifier contributes.

Owns:
- vocabularies in which the identity of a stat says what it conveys;
- bonded graphs, in which no link is missing, and that no run loses one if no two identities convey
  the same.

Links are backed by modifiers whatever stats are named. The converse needs that no two identities
convey the same: of two stats that do, the one that loses its modifiers takes the link with it.
-/

namespace CharacterSheet

/-- What the stats of each identity convey, if they convey anything. -/
abbrev Routes : Type := StatId → Option (Share × StatId × StatId)

/-- No two identities convey the same share of the same source to the same target. -/
def Routes.Apart (routes : Routes) : Prop :=
  ∀ first second route, routes first = some route → routes second = some route → first = second

/-- Everything, as long as a stat conveys what its identity says. -/
def Vocabulary.routed (routes : Routes) : Vocabulary where
  head named := named.route? = routes named.id
  stat named := named.route? = routes named.id
  path _ := True
  formula _ := True
  behavior _ := True
  main := trivial
  head_of_stat _ conveys := conveys

theorem Vocabulary.closed_routed {routes : Routes} : (Vocabulary.routed routes).Closed where
  item _ := trivial
  convertedFrom _ _ := trivial
  linking _ conveys _ := conveys

/-- A stat that conveys by a link can be unlinked. -/
theorem Links.isSome_unregister? {links : Links} {stat : Stat} {share : Share} {source target : StatId}
    (conveys : stat.route? = some (share, source, target))
    (linked : (links.conveyor? share source target).isSome) : (links.unregister? stat).isSome := by
  rw [unregister?_of_route links conveys, Option.isSome_iff_ne_none]
  intro none
  rw [conveyor?, link?_of_clear?_none none] at linked
  contradiction

namespace Graph

variable {routes : Routes} {graph other : Graph} {modifier : Modifier} {stat : Stat}

theorem Keeps.route?_eq (formed : graph.WellFormed (.routed routes)) {kept : Stat}
    (keeps : graph.Keeps kept) : kept.route? = routes kept.id := (keeps.within formed).head

/-- Whoever names a stat says the same of what it conveys. -/
theorem WellFormed.route?_pipeline (formed : graph.WellFormed (.routed routes)) {pipeline : Pipeline}
    (here : graph.pipelines.get? stat.id = some pipeline) (within : stat.HeadWithin (.routed routes)) :
    pipeline.stat.route? = stat.route? := by
  have kept := formed.pipelines _ pipeline here
  rw [kept.within.head, kept.keyed, within.head]

/-- A link is there for every stat that conveys and to which a modifier contributes. -/
def Bonded (routes : Routes) (graph : Graph) : Prop :=
  ∀ id share source target, graph.Engaged id → routes id = some (share, source, target) →
    (graph.links.conveyor? share source target).isSome

theorem Bonded.initial : ({} : Graph).Bonded routes := by
  rintro id share source target ⟨form, path, some⟩
  exact absurd rfl some

theorem Bonded.keep (bonded : graph.Bonded routes) (links : other.links = graph.links)
    (engaged : ∀ id, other.Engaged id → graph.Engaged id) : other.Bonded routes := by
  intro id share source target engages conveys
  rw [links]
  exact bonded id share source target (engaged id engages) conveys

theorem Bonded.isSome_unregister? (bonded : graph.Bonded routes) {id : StatId}
    (engaged : graph.Engaged id) (named : stat.route? = routes id) (conveys : stat.route?.isSome) :
    (graph.links.unregister? stat).isSome := by
  obtain ⟨⟨share, source, target⟩, route⟩ := Option.isSome_iff_exists.mp conveys
  exact Links.isSome_unregister? route
    (bonded id share source target engaged (named.symm.trans route))

theorem Quits.engaged {stats : List Stat} (quits : Quits modifier stats graph other) {id : StatId}
    (engaged : other.Engaged id) : graph.Engaged id := by
  obtain ⟨form, path, some⟩ := engaged
  refine ⟨form, path, fun empty => some ?_⟩
  rw [quits.members, empty]
  simp

theorem Recruits.bonded (recruits : Recruits stat graph other)
    (joins : Joins modifier [stat] graph other) (formed : other.WellFormed (.routed routes))
    (bonded : graph.Bonded routes) : other.Bonded routes := by
  intro id share source target engaged conveys
  rw [joins.engaged_iff] at engaged
  by_cases busy : graph.Engaged stat.id
  · rw [recruits.engaged busy]
    refine bonded id share source target ?_ conveys
    rcases engaged with ⟨_, member, rfl⟩ | before
    · rwa [List.mem_singleton.mp member]
    · exact before
  · obtain ⟨kept, keeps, same, links⟩ := recruits.idle busy
    rw [links, Links.conveyor?_register]
    split
    · rfl
    · next elsewhere =>
      rcases engaged with ⟨_, member, rfl⟩ | before
      · rw [List.mem_singleton.mp member, ← same, ← keeps.route?_eq formed] at conveys
        exact absurd conveys elsewhere
      · exact bonded id share source target before conveys

theorem Releases.bonded (apart : routes.Apart) (releases : Releases stat graph other)
    (quits : Quits modifier [stat] graph other) (formed : graph.WellFormed (.routed routes))
    (bonded : graph.Bonded routes) : other.Bonded routes := by
  by_cases busy : other.Engaged stat.id
  · exact bonded.keep (releases.engaged busy) fun _ => quits.engaged
  · obtain ⟨kept, keeps, same, links⟩ := releases.idle busy
    intro id share source target engaged conveys
    rw [links, Links.conveyor?_revoke, if_neg]
    · exact bonded id share source target (quits.engaged engaged) conveys
    · -- what the stat that is unlinked conveys is conveyed by no other
      intro route
      rw [keeps.route?_eq formed] at route
      rw [← same, apart _ _ _ route conveys] at busy
      exact busy engaged

theorem bonded_joinRosters {stats : List Stat} (sound : graph.Sound (.routed routes))
    (known : graph.modifiers.get? modifier.id = some modifier)
    (named : ∀ stat ∈ stats, stat ∈ modifier.stats ∧ stat.isResolved = true) (counted : graph.Counted)
    (bonded : graph.Bonded routes) : (stats.foldl (joinRoster modifier) graph).Bonded routes := by
  revert counted bonded
  refine joinRosters_induct Vocabulary.closed_routed stats graph sound known named
    (fun _ _ _ bonded => bonded) ?_
  intro head rest graph joining later counted bonded
  have within := joining.within
  have route : modifier.path.Within (.routed routes) :=
    Modifier.Within.path Vocabulary.closed_routed modifier
  have joins := joins_joinRoster joining.sound joining.resolved within route
  have recruits := recruits_joinRoster joining.sound counted joining.resolved within route
  have turns := (turns_joinRoster Vocabulary.closed_routed joining.sound joining.known joining.member
    joining.resolved).1
  exact later (joins.counted counted) (recruits.bonded joins turns.sound.formed bonded)

theorem bonded_leaveRoster (apart : routes.Apart) (formed : graph.WellFormed (.routed routes))
    (counted : graph.Counted) (bonded : graph.Bonded routes) (modifier : Modifier) (stat : Stat) :
    (leaveRoster modifier graph stat).Bonded routes := by
  by_cases inside : modifier.id ∈ graph.members stat.id modifier.form modifier.path.id
  · exact (releases_leaveRoster formed counted inside).bonded apart
      (quits_leaveRoster formed modifier stat) formed bonded
  · exact (leaveRoster_absent formed inside).symm ▸ bonded

theorem bonded_leaveRosters (apart : routes.Apart) (modifier : Modifier) (stats : List Stat)
    (sound : graph.Sound (.routed routes)) (counted : graph.Counted) (bonded : graph.Bonded routes) :
    (stats.foldl (leaveRoster modifier) graph).Bonded routes := by
  induction stats generalizing graph with
  | nil => exact bonded
  | cons head rest inductionHypothesis =>
      exact inductionHypothesis (leaves_leaveRoster sound modifier head).1.turns.sound
        ((quits_leaveRoster sound.formed modifier head).counted counted)
        (bonded_leaveRoster apart sound.formed counted bonded modifier head)

/-- No operation loses a link to whose stat a modifier contributes. -/
theorem lasting_bonded (apart : routes.Apart) : Lasting (.routed routes) (Bonded routes) where
  move := by
    intro graph other intact move bonded
    have undisturbed := undisturbed_move intact move
    exact bonded.keep undisturbed.links fun _ => undisturbed.toTallies.symm.engaged
  add := by
    intro graph modifier intact counted within bonded
    rcases graph.addModifier_cases modifier with ⟨_, same⟩ |
      ⟨absent, ⟨_, _, same⟩ | ⟨resolved, same⟩⟩
    · exact same.symm ▸ bonded
    · exact same.symm ▸ bonded
    · rw [same]
      have noted := intact.record (.adding modifier.id modifier.description)
      have introduced := turns_introduce noted.formed absent noted.toSound within
      exact bonded_joinRosters introduced.sound (Table.get?_insert_self _ _ _)
        (fun stat member => ⟨member, resolved stat member⟩) counted bonded
  remove := by
    intro graph id intact counted bonded
    cases known : graph.modifiers.get? id with
    | none =>
        rw [removeModifier, known]
        exact bonded
    | some modifier =>
        obtain ⟨rfl, _, _⟩ := intact.formed.present id modifier known
        obtain ⟨node, _, removed⟩ := removeModifier_eq intact.toSound known
        have noted := intact.record (.removing modifier.id modifier.description)
        have left : (graph.dismissed modifier).Bonded routes :=
          bonded_leaveRosters apart modifier modifier.stats noted.toSound counted bonded
        have undisturbed := (discards_dismissed intact.toSound known intact.wired.joined node).undisturbed
        rw [removed]
        exact left.keep undisturbed.links fun _ => undisturbed.toTallies.symm.engaged

end Graph

/-- After any operations under which identities say what stats convey, and no two the same, no link
is missing. -/
theorem Sheet.bonded_run {routes : Routes} (apart : routes.Apart) (settings : Settings)
    (retention : Retention) {operations : List Operation}
    (within : ∀ operation ∈ operations, operation.Within (.routed routes)) :
    (Sheet.run { settings, retention } operations).graph.Bonded routes :=
  (Graph.lasting_bonded apart).run Vocabulary.closed_routed .initial .initial .initial within

end CharacterSheet
