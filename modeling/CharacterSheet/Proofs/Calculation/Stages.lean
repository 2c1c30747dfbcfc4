import CharacterSheet.Proofs.Calculation.Shape

/-!
Contract: what the plans of nodes ask for, and what they depend on.

Owns:
- the requests that each stage may make, one by one;
- the scope of a node: stages of its own stat and of stats within the vocabulary, and
  the contributions of the members of its own roster;
- the plan of every node stays in its scope, and passes on every fault that it meets;
- the parts of a graph that the plan of a stage depends on.
-/

namespace CharacterSheet

theorem Table.mem_values_iff {κ α : Type} [DecidableEq κ] (table : Table κ α) (value : α) :
    value ∈ table.values ↔ ∃ key, table.get? key = some value := by
  simp only [values, List.mem_map, Table.get?_eq_some_iff]
  constructor
  · rintro ⟨⟨key, _⟩, member, rfl⟩
    exact ⟨key, member⟩
  · rintro ⟨key, member⟩
    exact ⟨_, member, rfl⟩

theorem mem_insertPath {paths : List Path} {path other : Path}
    (member : other ∈ insertPath paths path) : other ∈ paths ∨ other = path := by
  unfold insertPath at member
  split at member
  · exact Or.inl member
  · simpa using member

theorem mem_foldl_insertPath {α : Type} {place : α → Path} {items : List α} {paths : List Path}
    {path : Path}
    (member : path ∈ items.foldl (fun paths item => insertPath paths (place item)) paths) :
    path ∈ paths ∨ ∃ item ∈ items, path = place item := by
  induction items generalizing paths with
  | nil => exact Or.inl member
  | cons item rest inductionHypothesis =>
      rcases inductionHypothesis member with before | ⟨other, later, same⟩
      · rcases mem_insertPath before with earlier | same
        · exact Or.inl earlier
        · exact Or.inr ⟨item, List.mem_cons_self, same⟩
      · exact Or.inr ⟨other, List.mem_cons_of_mem _ later, same⟩

namespace Graph

variable {vocabulary : Vocabulary} {graph : Graph}

/-- A stage collects the contributions of the members of its own roster. -/
def Enrolls (graph : Graph) : Address → ModifierId → Prop
  | .pipeline stat stage path, modifier =>
      ∃ form, stage.form? = some form ∧ modifier ∈ graph.members stat form path.id
  | .contribution _, _ => False

/-- The stat of a pipeline as it is kept there. -/
def Keeps (graph : Graph) (stat : Stat) : Prop :=
  ∃ pipeline, graph.pipelines.get? stat.id = some pipeline ∧ pipeline.stat = stat

def scopeOf (vocabulary : Vocabulary) (graph : Graph) (address : Address) : Scope where
  query
    | .node stat _ path => (stat.Within vocabulary ∨ graph.Keeps stat) ∧ path.Within vocabulary
    | .contribution modifier => graph.Enrolls address modifier
  place stat stage path := ∃ full : Path, address = .pipeline stat stage full ∧ full.id = path
  transform transform := transform.Within vocabulary

theorem WellFormed.link_within (formed : graph.WellFormed vocabulary) {source target : StatId}
    {link : Link} (linked : graph.links.link? source target = some link) :
    link.Within vocabulary := by
  rw [Links.link?, Option.bind_eq_some_iff] at linked
  obtain ⟨outlet, found, inside⟩ := linked
  exact (formed.links source outlet found).links target link inside

theorem WellFormed.conversionStats_within (formed : graph.WellFormed vocabulary) {source : StatId}
    {stat : Stat} (member : stat ∈ graph.links.conversionStats source) :
    stat.Within vocabulary := by
  unfold Links.conversionStats at member
  split at member
  · next outlet found =>
    obtain ⟨link, inside, converts⟩ := List.mem_filterMap.mp member
    obtain ⟨target, linked⟩ := (Table.mem_values_iff _ _).mp inside
    exact ((formed.links source outlet found).links target link linked).conversion stat converts
  · contradiction

theorem mem_ownPaths {pipeline : Pipeline} {path : Path} (member : path ∈ pipeline.ownPaths) :
    path = .main ∨ ∃ key slot, pipeline.slots.get? key = some slot ∧
      slot.roster.members ≠ [] ∧ path = slot.path := by
  rcases mem_foldl_insertPath member with first | ⟨slot, listed, same⟩
  · exact Or.inl (List.mem_singleton.mp first)
  · obtain ⟨inside, occupied⟩ := List.mem_filter.mp listed
    obtain ⟨key, found⟩ := (Table.mem_values_iff _ _).mp inside
    exact Or.inr ⟨key, slot, found, by simpa using occupied, same⟩

theorem mem_paths {stat : StatId} {path : Path} (member : path ∈ graph.paths stat) :
    path = .main ∨
      (∃ pipeline key slot, graph.pipelines.get? stat = some pipeline ∧
        pipeline.slots.get? key = some slot ∧ slot.roster.members ≠ [] ∧ path = slot.path) ∨
      ∃ source outlet, graph.links.outlets.get? source = some outlet ∧
        outlet.targets.contains stat ∧ path = .convertedFrom outlet.source := by
  rcases mem_foldl_insertPath member with own | ⟨source, feeding, same⟩
  · cases found : graph.pipelines.get? stat with
    | none =>
        simp only [found, List.mem_singleton] at own
        exact Or.inl own
    | some pipeline =>
        simp only [found] at own
        rcases mem_ownPaths own with first | ⟨key, slot, inside, occupied, same⟩
        · exact Or.inl first
        · exact Or.inr (Or.inl ⟨pipeline, key, slot, rfl, inside, occupied, same⟩)
  · obtain ⟨outlet, listed, rfl⟩ := List.mem_map.mp feeding
    obtain ⟨inside, linked⟩ := List.mem_filter.mp listed
    obtain ⟨key, found⟩ := (Table.mem_values_iff _ _).mp inside
    exact Or.inr (Or.inr ⟨key, outlet, found, linked, same⟩)

theorem WellFormed.paths_within (formed : graph.WellFormed vocabulary) {stat : StatId} {path : Path}
    (member : path ∈ graph.paths stat) : path.Within vocabulary := by
  rcases mem_paths member with rfl | ⟨pipeline, key, slot, found, inside, _, rfl⟩ |
    ⟨source, outlet, found, _, rfl⟩
  · exact PathOf.Within.main
  · exact ((formed.pipelines stat pipeline found).slots key.1 key.2 slot inside).within
  · exact (formed.links source outlet found).path

/-! ### Conversion, step by step -/

/-- What is converted of a source by one of its conversion stats. -/
def convertedShare (graph : Graph) (conversion : Option Stat) (source : StatId) : Plan Value :=
  match conversion with
  | none => pure (.scalar 0)
  | some stat => (Plan.total stat).bind fun
      | none => pure (.scalar 0)
      | some percent => (graph.conversionSum source).bind fun sum =>
          pure ((.scalar 0 : Value) + effectiveConversion percent sum)

/-- What a gain stat adds to what is converted. -/
def gainedShare (gain : Option Stat) (converted : Value) : Plan Value :=
  match gain with
  | none => pure converted
  | some stat => (Plan.total stat).bind fun
      | none => pure converted
      | some percent => pure (converted + percent)

theorem gainedShare_bind {α : Type} (gain : Option Stat) (converted : Value)
    (next : Value → Plan α) :
    (gainedShare gain converted).bind next =
      match gain with
      | none => next converted
      | some stat => (Plan.total stat).bind fun
          | none => next converted
          | some percent => next (converted + percent) := by
  cases gain with
  | none => rfl
  | some stat =>
      simp only [gainedShare, Plan.bind_assoc]
      congr 1
      funext percent
      cases percent <;> rfl

theorem convertedBase_eq (graph : Graph) (source target : Stat) :
    graph.convertedBase source target =
      match graph.links.link? source.id target.id with
      | none => pure none
      | some link => (Plan.read source .base .main).bind fun
          | none => pure none
          | some base => (graph.convertedShare link.conversion source.id).bind fun converted =>
              (gainedShare link.gain converted).bind fun share =>
                pure (some ((base * share).map (· / 100))) := by
  unfold convertedBase
  cases graph.links.link? source.id target.id with
  | none => rfl
  | some link =>
      obtain ⟨conversion, gain⟩ := link
      simp only [gainedShare_bind]
      show Plan.bind _ _ = Plan.bind _ _
      congr 1
      funext base
      cases base with
      | none => rfl
      | some base =>
          cases conversion with
          | none => cases gain <;> rfl
          | some stat =>
              simp only [convertedShare, Plan.bind_assoc]
              show Plan.bind _ _ = Plan.bind _ _
              congr 1
              funext percent
              cases percent with
              | none => cases gain <;> rfl
              | some percent =>
                  simp only [Plan.bind_assoc]
                  show Plan.bind _ _ = Plan.bind _ _
                  congr 1

theorem planOf_contribution {modifier : ModifierId} {present : Modifier}
    (found : graph.modifiers.get? modifier = some present) :
    graph.planOf (.contribution modifier) =
      Plan.degrade (.contribution modifier) present.plan := by
  simp only [planOf, found]
  rfl

theorem planOf_pipeline {stat : StatId} {stage : Stage} {path : Path} {pipeline : Pipeline}
    (found : graph.pipelines.get? stat = some pipeline) :
    graph.planOf (.pipeline stat stage path) =
      (graph.stagePlan pipeline.stat stage path).bind fun value =>
        Plan.degrade (.pipeline stat stage path.id)
          (.consult stat stage path.id (Transform.planAll value)) := by
  simp only [planOf, found]
  rfl

/-! ### Requests of stages -/

section Requests

variable {asked : Query → Prop}

theorem onlyReads_conversionSum {source : StatId}
    (conveyed : ∀ stat ∈ graph.links.conversionStats source, asked (.node stat .total .main)) :
    (graph.conversionSum source).OnlyReads asked := by
  apply Plan.onlyReads_bind
    (Plan.onlyReads_gather fun stat member => Plan.onlyReads_read (conveyed stat member))
  intro percents
  exact Plan.onlyReads_pure _

theorem onlyReads_convertedShare {conversion : Option Stat} {source : StatId}
    (own : ∀ stat ∈ conversion, asked (.node stat .total .main))
    (conveyed : ∀ stat ∈ graph.links.conversionStats source, asked (.node stat .total .main)) :
    (graph.convertedShare conversion source).OnlyReads asked := by
  cases conversion with
  | none => exact Plan.onlyReads_pure _
  | some stat =>
      apply Plan.onlyReads_bind (Plan.onlyReads_read (own stat rfl))
      intro percent
      cases percent with
      | none => exact Plan.onlyReads_pure _
      | some percent =>
          apply Plan.onlyReads_bind (onlyReads_conversionSum conveyed)
          intro sum
          exact Plan.onlyReads_pure _

theorem onlyReads_gainedShare {gain : Option Stat} (converted : Value)
    (own : ∀ stat ∈ gain, asked (.node stat .total .main)) :
    (gainedShare gain converted).OnlyReads asked := by
  cases gain with
  | none => exact Plan.onlyReads_pure _
  | some stat =>
      apply Plan.onlyReads_bind (Plan.onlyReads_read (own stat rfl))
      intro percent
      cases percent <;> exact Plan.onlyReads_pure _

theorem onlyReads_convertedBase {source target : Stat}
    (linked : ∀ link, graph.links.link? source.id target.id = some link →
      asked (.node source .base .main) ∧
        ∀ stat, stat ∈ link.conversion ∨ stat ∈ link.gain ∨
          stat ∈ graph.links.conversionStats source.id → asked (.node stat .total .main)) :
    (graph.convertedBase source target).OnlyReads asked := by
  rw [convertedBase_eq]
  cases found : graph.links.link? source.id target.id with
  | none => exact Plan.onlyReads_pure _
  | some link =>
      obtain ⟨own, conveyed⟩ := linked link found
      apply Plan.onlyReads_bind (Plan.onlyReads_read own)
      intro base
      cases base with
      | none => exact Plan.onlyReads_pure _
      | some base =>
          apply Plan.onlyReads_bind
            (onlyReads_convertedShare (fun stat converts => conveyed stat (.inl converts))
              fun stat converts => conveyed stat (.inr (.inr converts)))
          intro converted
          apply Plan.onlyReads_bind
            (onlyReads_gainedShare converted fun stat gains => conveyed stat (.inr (.inl gains)))
          intro share
          exact Plan.onlyReads_pure _

end Requests

/-- What a stage of a stat on a path may ask for: contributions to it, earlier stages of the same stat,
and totals of the stats that convey shares or are bounds. -/
inductive Reads (graph : Graph) (stat : Stat) (path : Path) : Stage → Query → Prop where
  | collected {stage form modifier} : stage.form? = some form →
      modifier ∈ graph.members stat.id form (path.id.at stage) →
      Reads graph stat path stage (.contribution modifier)
  /-- What counts on the main path counts on every other path too. -/
  | general {stage} : stage = .increase ∨ stage = .more → path.isMain = false →
      Reads graph stat path stage (.node stat stage .main)
  | earlier {stage lower} : stage ∈ lower.above →
      Reads graph stat path stage (.node stat lower (path.at stage))
  | part {other} : other ∈ graph.paths stat.id →
      Reads graph stat path .uncappedSubtotal (.node stat .pathTotal other)
  | source {source} : path.convertedStat? = some source →
      (graph.links.link? source.id stat.id).isSome →
      Reads graph stat path .base (.node source .base .main)
  | share {source link other} : path.convertedStat? = some source →
      graph.links.link? source.id stat.id = some link →
      other ∈ link.conversion ∨ other ∈ link.gain ∨ other ∈ graph.links.conversionStats source.id →
      Reads graph stat path .base (.node other .total .main)
  /-- What is converted away is taken from the main path. -/
  | retained {other} : path.isMain = true → other ∈ graph.links.conversionStats stat.id →
      Reads graph stat path .pathTotal (.node other .total .main)
  | bound {limit} : limit ∈ stat.minimum ∨ limit ∈ stat.maximum →
      Reads graph stat path .subtotal (.node limit .total .main)

/-- A stage makes no other requests than these, and has no faults of its own. -/
theorem onlyReads_stagePlan (graph : Graph) (stat : Stat) (stage : Stage) (path : Path) :
    (graph.stagePlan stat stage path).OnlyReads (graph.Reads stat path stage) := by
  have earlier {lower : Stage} (below : stage ∈ lower.above) :
      (Plan.read stat lower (path.at stage)).OnlyReads (graph.Reads stat path stage) :=
    Plan.onlyReads_read (.earlier below)
  have collected {form : Form} (collects : stage.form? = some form) :
      (graph.contributionsTo stat.id form (path.id.at stage)).OnlyReads
        (graph.Reads stat path stage) :=
    Plan.onlyReads_gather fun modifier member =>
      Plan.onlyReads_contribution (.collected collects member)
  cases stage with
  | baseSet =>
      apply Plan.onlyReads_bind (collected rfl)
      intro values
      exact Plan.onlyReads_pure _
  | baseAdd =>
      apply Plan.onlyReads_bind (collected rfl)
      intro values
      exact Plan.onlyReads_pure _
  | increase =>
      apply Plan.onlyReads_bind (collected rfl)
      intro values
      cases isMain : path.isMain with
      | true => exact Plan.onlyReads_pure _
      | false =>
          apply Plan.onlyReads_bind (Plan.onlyReads_read (.general (.inl rfl) isMain))
          intro general
          cases general <;> exact Plan.onlyReads_pure _
  | more =>
      apply Plan.onlyReads_bind (collected rfl)
      intro values
      cases isMain : path.isMain with
      | true => exact Plan.onlyReads_pure _
      | false =>
          apply Plan.onlyReads_bind (Plan.onlyReads_read (.general (.inr rfl) isMain))
          intro general
          cases general <;> exact Plan.onlyReads_pure _
  | base =>
      apply Plan.onlyReads_bind (earlier (by decide))
      intro set
      apply Plan.onlyReads_bind (earlier (by decide))
      intro add
      cases conversion : path.convertedStat? with
      | none => exact Plan.onlyReads_pure _
      | some source =>
          refine Plan.onlyReads_bind (onlyReads_convertedBase fun link linked => ?_) fun _ =>
            Plan.onlyReads_pure _
          exact ⟨.source conversion (by rw [linked]; rfl),
            fun other conveys => .share conversion linked conveys⟩
  | pathTotal =>
      apply Plan.onlyReads_bind (earlier (by decide))
      intro base
      cases base with
      | none => exact Plan.onlyReads_pure _
      | some base =>
          apply Plan.onlyReads_bind (earlier (by decide))
          intro increase
          apply Plan.onlyReads_bind (earlier (by decide))
          intro more
          by_cases shared : (path.isMain && graph.links.isConverted stat.id) = true
          · have isMain : path.isMain = true := (Bool.and_eq_true_iff.mp shared).1
            simp only [shared, ↓reduceIte]
            exact Plan.onlyReads_bind (onlyReads_conversionSum fun other converts =>
              .retained isMain converts) fun _ => Plan.onlyReads_pure _
          · simp only [shared]
            exact Plan.onlyReads_pure _
  | totalOverride =>
      apply Plan.onlyReads_bind (collected rfl)
      intro values
      exact Plan.onlyReads_pure _
  | uncappedSubtotal =>
      exact Plan.onlyReads_bind (Plan.onlyReads_gather fun place member =>
        Plan.onlyReads_read (.part member)) fun _ => Plan.onlyReads_pure _
  | subtotal =>
      have bound {limit : Option Stat}
          (limits : ∀ other ∈ limit, other ∈ stat.minimum ∨ other ∈ stat.maximum) :
          (boundPlan limit).OnlyReads (graph.Reads stat path .subtotal) := by
        cases limit with
        | none => exact Plan.onlyReads_pure _
        | some other => exact Plan.onlyReads_read (.bound (limits other rfl))
      apply Plan.onlyReads_bind (earlier (by decide))
      intro uncapped
      cases uncapped with
      | none => exact Plan.onlyReads_pure _
      | some uncapped =>
          apply Plan.onlyReads_bind (bound fun _ => .inl)
          intro lower
          apply Plan.onlyReads_bind (bound fun _ => .inr)
          intro upper
          exact Plan.onlyReads_pure _
  | total =>
      apply Plan.onlyReads_bind (earlier (by decide))
      intro override
      cases override with
      | none =>
          apply Plan.onlyReads_bind (earlier (by decide))
          intro value
          exact Plan.onlyReads_pure _
      | some override => trivial

theorem asks_stagePlan {scope : Scope} {stat : Stat} {stage : Stage} {path : Path}
    (allowed : ∀ query, graph.Reads stat path stage query → scope.query query) :
    (graph.stagePlan stat stage path).Asks scope :=
  (graph.onlyReads_stagePlan stat stage path).asks allowed

/-- The path of a node is one on which its stage lives. -/
theorem WellFormed.at_addressed (formed : graph.WellFormed vocabulary) {node : NodeId} {stat : StatId}
    {stage : Stage} {path : Path} (found : graph.addressOf? node = some (.pipeline stat stage path)) :
    path.id.at stage = path.id := by
  obtain ⟨_, here, inside⟩ := formed.named _ _ _ _ found
  exact (formed.listed _ _ _ _ _ here inside).choose_spec.2.2

theorem stagePlan_asks (formed : graph.WellFormed vocabulary) {node : NodeId} {stat : StatId}
    {stage : Stage} {path : Path} {pipeline : Pipeline}
    (address : graph.addressOf? node = some (.pipeline stat stage path))
    (found : graph.pipelines.get? stat = some pipeline) :
    (graph.stagePlan pipeline.stat stage path).Asks
      (graph.scopeOf vocabulary (.pipeline stat stage path)) := by
  have pipelineFormed := formed.pipelines stat pipeline found
  have keyed : pipeline.stat.id = stat := pipelineFormed.keyed
  have pathWithin : path.Within vocabulary := formed.addressed _ _ _ _ address
  have keeps : graph.Keeps pipeline.stat := ⟨pipeline, by rw [keyed]; exact found, rfl⟩
  refine asks_stagePlan fun query reads => ?_
  cases reads with
  | collected collects member =>
      rw [keyed, formed.at_addressed address] at member
      exact ⟨_, collects, member⟩
  | general => exact ⟨.inr keeps, .main⟩
  | earlier => exact ⟨.inr keeps, pathWithin.at _⟩
  | part member => exact ⟨.inr keeps, formed.paths_within member⟩
  | source converted => exact ⟨.inl (pathWithin.convertedStat converted), .main⟩
  | share _ linked conveys =>
      refine ⟨.inl ?_, .main⟩
      rcases conveys with converts | gains | converts
      · exact (formed.link_within linked).conversion _ converts
      · exact (formed.link_within linked).gain _ gains
      · exact formed.conversionStats_within converts
  | retained _ converts => exact ⟨.inl (formed.conversionStats_within converts), .main⟩
  | bound limits =>
      refine ⟨.inl ?_, .main⟩
      rcases limits with lower | upper
      · exact boundWithin_iff.mp pipelineFormed.within.minimum _ lower
      · exact boundWithin_iff.mp pipelineFormed.within.maximum _ upper

/-- Every node asks only for what is in its scope. -/
theorem planOf_asks (formed : graph.WellFormed vocabulary) {node : NodeId} {address : Address}
    (found : graph.addressOf? node = some address) :
    (graph.planOf address).Asks (graph.scopeOf vocabulary address) := by
  have stated (query : Query) (allowed : query.Stated vocabulary) :
      (graph.scopeOf vocabulary address).query query := by
    cases query with
    | node stat stage path => exact ⟨Or.inl allowed.1, allowed.2⟩
    | contribution other => exact allowed.elim
  cases address with
  | contribution modifier =>
      cases present : graph.modifiers.get? modifier with
      | none =>
          simp only [planOf, present]
          exact Plan.asks_pure _
      | some added =>
          have within := (formed.present modifier added present).2.1
          rw [planOf_contribution present]
          exact Plan.asks_degrade _ (Modifier.plan_asks stated within)
  | pipeline stat stage path =>
      obtain ⟨pipeline, here, _⟩ := formed.named _ _ _ _ found
      rw [planOf_pipeline here]
      apply Plan.asks_bind (stagePlan_asks formed found here)
      intro value
      apply Plan.asks_degrade
      refine ⟨⟨path, rfl, rfl⟩, ?_⟩
      intro transforms within
      exact Transform.planAll_asks stated within value

/-! ### Faults in stages -/

/-- A stage passes on every fault that it meets, if the behaviors in force do, whatever the formulas
of its modifiers are. -/
theorem planOf_stage_passes {permitted : Fault → Prop} (stat : StatId) (stage : Stage) (path : Path) :
    (graph.planOf (.pipeline stat stage path)).Propagates (Transform.Passes permitted) fun fault =>
      fault.isLocal = false ∧ permitted fault := by
  cases found : graph.pipelines.get? stat with
  | none =>
      simp only [planOf, found]
      exact Plan.propagates_pure _
  | some pipeline =>
      rw [planOf_pipeline found]
      apply Plan.propagates_bind (graph.onlyReads_stagePlan _ _ _).propagates
      intro value
      apply Plan.propagates_degrade
      intro transforms passes
      exact Transform.planAll_passes passes value

/-- A node passes on every fault that it meets, and fails otherwise only with faults of formulas and
transforms that are not local. -/
theorem planOf_passes {permitted : Fault → Prop} (passing : vocabulary.Passing permitted)
    (formed : graph.WellFormed vocabulary) (address : Address) :
    (graph.planOf address).Propagates (Transform.Passes permitted) fun fault =>
      fault.isLocal = false ∧ permitted fault := by
  cases address with
  | contribution modifier =>
      cases present : graph.modifiers.get? modifier with
      | none =>
          simp only [planOf, present]
          exact Plan.propagates_pure _
      | some added =>
          have passes := Modifier.plan_passes passing (formed.present modifier added present).2.1
          rw [planOf_contribution present]
          refine (Plan.propagates_degrade _ passes).mono (fun _ _ => trivial) ?_
          rintro fault ⟨nonlocal, either⟩
          exact ⟨nonlocal, either.resolve_right (Bool.eq_false_iff.mp nonlocal)⟩
  | pipeline stat stage path => exact planOf_stage_passes stat stage path

/-- A node passes on every fault that it meets, and no fault that it ends with is local. -/
theorem planOf_propagates (propagating : vocabulary.Propagating)
    (formed : graph.WellFormed vocabulary) (address : Address) :
    (graph.planOf address).Propagates Transform.Propagates fun fault => fault.isLocal = false :=
  (planOf_passes propagating.passing formed address).mono (fun _ heeded => heeded) fun _ => And.left

/-! ### What the plan of a stage depends on -/

/-- Two graphs agree on all that a stage is calculated from. -/
structure AgreesOn (graph other : Graph) (stat : StatId) (stage : Stage) (path : Path) : Prop where
  kept : (other.pipelines.get? stat).map (·.stat) = (graph.pipelines.get? stat).map (·.stat)
  members : ∀ form, stage.form? = some form →
    other.members stat form path.id = graph.members stat form path.id
  priorities : stage = .baseSet → ∀ member ∈ graph.members stat .baseSet path.id,
    other.priorityOf member = graph.priorityOf member
  shares : stage = .base → ∀ source, path.convertedStat? = some source →
    other.links.link? source.id stat = graph.links.link? source.id stat ∧
      (other.links.conversionStats source.id = graph.links.conversionStats source.id ∨
        graph.links.link? source.id stat = none)
  retained : stage = .pathTotal → path.isMain = true →
    other.links.isConverted stat = graph.links.isConverted stat ∧
      other.links.conversionStats stat = graph.links.conversionStats stat
  paths : stage = .uncappedSubtotal → other.paths stat = graph.paths stat

theorem stagePlan_congr {other : Graph} {stat : Stat} {stage : Stage} {path : Path}
    (agrees : graph.AgreesOn other stat.id stage path) (place : path.id.at stage = path.id) :
    other.stagePlan stat stage path = graph.stagePlan stat stage path := by
  cases stage with
  | baseSet =>
      have members := agrees.members .baseSet rfl
      have priorities := List.map_congr_left (agrees.priorities rfl)
      simp only [stagePlan, baseSetPlan, contributionsTo, members, priorities]
  | baseAdd =>
      have members := agrees.members .baseAdd rfl
      simp only [stagePlan, baseAddPlan, contributionsTo, members]
  | increase =>
      have members := agrees.members .increase rfl
      simp only [stagePlan, increasePlan, contributionsTo, members]
  | more =>
      have members := agrees.members .more rfl
      simp only [stagePlan, morePlan, contributionsTo, members]
  | base =>
      cases conversion : path.convertedStat? with
      | none => simp only [stagePlan, basePlan, conversion]
      | some source =>
          obtain ⟨link, shares⟩ := agrees.shares rfl source conversion
          have converted : other.convertedBase source stat = graph.convertedBase source stat := by
            rw [convertedBase_eq, convertedBase_eq, link]
            rcases shares with same | missing
            · simp only [convertedShare, conversionSum, same]
            · simp only [missing]
          simp only [stagePlan, basePlan, conversion, converted]
  | pathTotal =>
      by_cases isMain : path.isMain
      · obtain ⟨converted, stats⟩ := agrees.retained rfl isMain
        simp only [stagePlan, pathTotalPlan, conversionSum, converted, stats]
      · simp only [stagePlan, pathTotalPlan, isMain, Bool.false_and]
        rfl
  | totalOverride =>
      have members := agrees.members .totalOverride rfl
      have main : path.id = .main := place.symm
      rw [main] at members
      simp only [stagePlan, totalOverridePlan, contributionsTo, members]
  | uncappedSubtotal => simp only [stagePlan, uncappedPlan, agrees.paths rfl]
  | subtotal => rfl
  | total => rfl

/-- A node calculates the same on graphs that agree on its stage. -/
theorem planOf_congr {other : Graph} {stat : StatId} {stage : Stage} {path : Path}
    (agrees : graph.AgreesOn other stat stage path) (place : path.id.at stage = path.id)
    (keyed : ∀ pipeline, graph.pipelines.get? stat = some pipeline → pipeline.stat.id = stat) :
    other.planOf (.pipeline stat stage path) = graph.planOf (.pipeline stat stage path) := by
  have kept := agrees.kept
  cases found : graph.pipelines.get? stat with
  | none =>
      rw [found, Option.map_none, Option.map_eq_none_iff] at kept
      simp only [planOf, found, kept]
  | some pipeline =>
      rw [found, Option.map_some, Option.map_eq_some_iff] at kept
      obtain ⟨replaced, here, same⟩ := kept
      have own := keyed pipeline found
      rw [planOf_pipeline found, planOf_pipeline here, same]
      rw [← own] at agrees
      rw [stagePlan_congr agrees place]

end Graph
end CharacterSheet
