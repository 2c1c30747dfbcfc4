import CharacterSheet.Proofs.Calculation.Advancing
import Mathlib.Data.List.Dedup
import Mathlib.Data.List.Nodup

/-!
Contract: calculations from outside always come to an end.

Owns:
- the vocabulary of all that a graph mentions, within which the graph is well-formed;
- the names that nodes of a graph can ever have, and the depth of the stack, which they
  bound;
- the levels that a graph allots suffice, so a read from outside is a calculation.
-/

namespace CharacterSheet

/-- The vocabulary of all stats and paths that are listed. -/
def Vocabulary.listed (mentions : List Mention) (main : .path .main ∈ mentions) : Vocabulary where
  head named := .stat named.id ∈ mentions
  stat named := .stat named.id ∈ mentions
  path path := .path path.id ∈ mentions
  formula _ := True
  behavior _ := True
  main := main
  head_of_stat _ listed := listed

section Listed

variable {mentions : List Mention} {main : .path .main ∈ mentions}

mutual

theorem Stat.within_listed : (stat : Stat) → (∀ mention ∈ stat.mentions, mention ∈ mentions) →
    stat.Within (.listed mentions main)
  | ⟨id, role, minimum, maximum, rounding, dataType, behaviors⟩, listed => by
      simp only [Stat.mentions, List.mem_cons, List.mem_append] at listed
      exact ⟨listed _ (Or.inl rfl),
        role.within_listed fun mention member => listed mention (by simp [member]),
        bound_within_listed minimum fun mention member => listed mention (by simp [member]),
        bound_within_listed maximum fun mention member => listed mention (by simp [member]),
        behaviors_within_listed behaviors fun mention member => listed mention (by simp [member])⟩

theorem bound_within_listed : (bound : Option Stat) →
    (∀ mention ∈ boundMentions bound, mention ∈ mentions) →
      BoundWithin (.listed mentions main) bound
  | none, _ => trivial
  | some stat, listed => by
      unfold BoundWithin
      exact stat.within_listed listed

theorem Role.within_listed : (role : Role) → (∀ mention ∈ role.mentions, mention ∈ mentions) →
    role.Within (.listed mentions main)
  | .regular, _ => by
      unfold Role.Within
      trivial
  | .conversion source target, listed => by
      simp only [Role.mentions, List.mem_append] at listed
      unfold Role.Within
      exact ⟨source.within_listed fun mention member => listed mention (Or.inl member),
        target.within_listed fun mention member => listed mention (Or.inr member)⟩
  | .gain source target, listed => by
      simp only [Role.mentions, List.mem_append] at listed
      unfold Role.Within
      exact ⟨source.within_listed fun mention member => listed mention (Or.inl member),
        target.within_listed fun mention member => listed mention (Or.inr member)⟩

theorem Behavior.within_listed : (behavior : Behavior) →
    (∀ mention ∈ behavior.mentions, mention ∈ mentions) →
      behavior.Within (.listed mentions main)
  | ⟨_, _, _, transform⟩, listed => by
      unfold Behavior.Within
      exact ⟨trivial, transform.within_listed listed⟩

theorem behaviors_within_listed : (behaviors : List Behavior) →
    (∀ mention ∈ behaviorMentions behaviors, mention ∈ mentions) →
      BehaviorsWithin (.listed mentions main) behaviors
  | [], _ => by
      unfold BehaviorsWithin
      trivial
  | behavior :: rest, listed => by
      simp only [behaviorMentions, List.mem_append] at listed
      unfold BehaviorsWithin
      exact ⟨behavior.within_listed fun mention member => listed mention (Or.inl member),
        behaviors_within_listed rest fun mention member => listed mention (Or.inr member)⟩

theorem Transform.within_listed : (transform : Transform) →
    (∀ mention ∈ transform.mentions, mention ∈ mentions) →
      transform.Within (.listed mentions main)
  | .multiply factor, listed => by
      unfold Transform.Within
      exact factor.within_listed listed
  | .plus formula, listed => by
      unfold Transform.Within
      exact formula.within_listed listed
  | .add _, _ | .scale _, _ | .set _, _ | .fallback _, _ | .fail _, _ => by
      unfold Transform.Within
      trivial

theorem Formula.within_listed : (formula : Formula) →
    (∀ mention ∈ formula.mentions, mention ∈ mentions) → formula.Within (.listed mentions main)
  | .reference stat _ ⟨source, conversions⟩, listed => by
      simp only [Formula.mentions, List.mem_cons, List.mem_append] at listed
      unfold Formula.Within
      exact ⟨stat.within_listed fun mention member => listed mention (by simp [member]),
        listed _ (Or.inl rfl),
        stats_within_listed conversions fun mention member => listed mention (by simp [member])⟩
  | .perStep stat _ _, listed | .holds stat, listed => by
      unfold Formula.Within
      exact stat.within_listed listed
  | .component inner _, listed | .probe _ inner, listed | .attempt inner _, listed => by
      unfold Formula.Within
      exact inner.within_listed listed
  | .sum terms, listed | .product terms, listed => by
      unfold Formula.Within
      exact formulas_within_listed terms listed
  | .difference left right, listed | .quotient left right, listed => by
      simp only [Formula.mentions, List.mem_append] at listed
      unfold Formula.Within
      exact ⟨left.within_listed fun mention member => listed mention (Or.inl member),
        right.within_listed fun mention member => listed mention (Or.inr member)⟩
  | .constant _, _ | .fail _, _ => by
      unfold Formula.Within
      trivial

theorem formulas_within_listed : (formulas : List Formula) →
    (∀ mention ∈ formulaMentions formulas, mention ∈ mentions) →
      FormulasWithin (.listed mentions main) formulas
  | [], _ => by
      unfold FormulasWithin
      trivial
  | formula :: rest, listed => by
      simp only [formulaMentions, List.mem_append] at listed
      unfold FormulasWithin
      exact ⟨formula.within_listed fun mention member => listed mention (Or.inl member),
        formulas_within_listed rest fun mention member => listed mention (Or.inr member)⟩

theorem stats_within_listed : (stats : List Stat) →
    (∀ mention ∈ statMentions stats, mention ∈ mentions) →
      StatsWithin (.listed mentions main) stats
  | [], _ => by
      unfold StatsWithin
      trivial
  | stat :: rest, listed => by
      simp only [statMentions, List.mem_append] at listed
      unfold StatsWithin
      exact ⟨stat.within_listed fun mention member => listed mention (Or.inl member),
        stats_within_listed rest fun mention member => listed mention (Or.inr member)⟩

end

theorem PathOf.within_listed {path : Path} (listed : ∀ mention ∈ path.mentions, mention ∈ mentions) :
    path.Within (.listed mentions main) := by
  simp only [PathOf.mentions, List.mem_cons] at listed
  exact ⟨listed _ (Or.inl rfl),
    stats_within_listed _ fun mention member => listed mention (Or.inr member)⟩

theorem Modifier.within_listed {modifier : Modifier}
    (listed : ∀ mention ∈ modifier.mentions, mention ∈ mentions) :
    modifier.Within (.listed mentions main) := by
  simp only [Modifier.mentions, List.mem_append] at listed
  have stats : StatsWithin (.listed mentions main) modifier.stats :=
    stats_within_listed _ fun mention member => listed mention (Or.inl (Or.inl member))
  constructor
  · intro stat member
    exact (statsWithin_iff.mp stats stat member).headWithin
  · exact ⟨trivial, modifier.value.within_listed fun mention member =>
      listed mention (Or.inl (Or.inr member))⟩
  · intro condition conditional
    refine ⟨trivial, condition.within_listed fun mention member => listed mention (Or.inr ?_)⟩
    rw [Option.mem_def] at conditional
    rw [conditional]
    exact member

theorem Link.within_listed {link : Link}
    (listed : ∀ mention ∈ link.mentions, mention ∈ mentions) : link.Within (.listed mentions main) := by
  simp only [Link.mentions, List.mem_append] at listed
  constructor
  · intro stat converts
    apply stat.within_listed
    intro mention member
    rw [Option.mem_def] at converts
    exact listed mention (Or.inl (by rw [converts]; exact member))
  · intro stat gains
    apply stat.within_listed
    intro mention member
    rw [Option.mem_def] at gains
    exact listed mention (Or.inr (by rw [gains]; exact member))

end Listed

def Mention.stat? : Mention → Option StatId
  | .stat id => some id
  | .path _ => none

def Mention.path? : Mention → Option PathId
  | .path id => some id
  | .stat _ => none

/-- Whether nodes can have a name: those of a whole stat are on the main path only. -/
def NodeName.stands : NodeName → Bool
  | .pipeline _ stage path => decide (path.at stage = path)
  | .contribution _ => true

namespace Graph

variable {vocabulary : Vocabulary} {graph : Graph}

theorem main_mem_mentions (graph : Graph) : .path .main ∈ graph.mentions := List.mem_cons_self

/-- All that a graph mentions. -/
def mentioned (graph : Graph) : Vocabulary := .listed graph.mentions graph.main_mem_mentions

theorem mem_mentions_iff {mention : Mention} :
    mention ∈ graph.mentions ↔ mention = .path .main ∨
      (∃ node ∈ graph.nodes.values, mention ∈ node.address.mentions) ∨
      (∃ pipeline ∈ graph.pipelines.values, mention ∈ pipeline.mentions) ∨
      (∃ modifier ∈ graph.modifiers.values, mention ∈ modifier.mentions) ∨
      mention ∈ behaviorMentions graph.behaviors.values.flatten ∨
      ∃ outlet ∈ graph.links.outlets.values, mention ∈ outlet.mentions := by
  simp only [mentions, List.mem_cons, List.mem_append, List.mem_flatMap, or_assoc]

theorem WellFormed.pipeline_mentioned (formed : graph.WellFormed vocabulary) {stat : StatId}
    {pipeline : Pipeline} (found : graph.pipelines.get? stat = some pipeline) :
    pipeline.WellFormed graph.mentioned graph.modifiers stat := by
  have before := formed.pipelines stat pipeline found
  have listed (mention : Mention) (member : mention ∈ pipeline.mentions) :
      mention ∈ graph.mentions :=
    mem_mentions_iff.mpr (Or.inr (Or.inr (Or.inl
      ⟨pipeline, (Table.mem_values_iff _ _).mpr ⟨stat, found⟩, member⟩)))
  simp only [Pipeline.mentions, List.mem_append, List.mem_flatMap] at listed
  refine ⟨before.keyed, before.resolved, ?_, ?_⟩
  · exact (pipeline.stat.within_listed fun mention member => listed _ (Or.inl member)).headWithin
  · intro form path slot inside
    have old := before.slots form path slot inside
    refine ⟨old.path_id, old.place, ?_, old.distinct, old.enrolled⟩
    apply PathOf.within_listed
    intro mention member
    exact listed _ (Or.inr ⟨slot, (Table.mem_values_iff _ _).mpr ⟨_, inside⟩, member⟩)

theorem WellFormed.links_mentioned (formed : graph.WellFormed vocabulary) :
    graph.links.WellFormed graph.mentioned := by
  intro source outlet found
  have listed (mention : Mention) (member : mention ∈ outlet.mentions) :
      mention ∈ graph.mentions :=
    mem_mentions_iff.mpr (Or.inr (Or.inr (Or.inr (Or.inr (Or.inr
      ⟨outlet, (Table.mem_values_iff _ _).mpr ⟨source, found⟩, member⟩)))))
  simp only [Outlet.mentions, List.mem_append, List.mem_flatMap] at listed
  refine ⟨(formed.links source outlet found).keyed, ?_, ?_, ?_⟩
  · exact outlet.source.within_listed fun mention member => listed _ (Or.inl (Or.inl member))
  · exact PathOf.within_listed fun mention member => listed _ (Or.inl (Or.inr member))
  · intro target link linked
    exact Link.within_listed fun mention member =>
      listed mention (Or.inr ⟨link, (Table.mem_values_iff _ _).mpr ⟨target, linked⟩, member⟩)

/-- A well-formed graph is well-formed within what it mentions itself. -/
theorem WellFormed.mentioned (formed : graph.WellFormed vocabulary) :
    graph.WellFormed graph.mentioned where
  numbered := formed.numbered
  listed := formed.listed
  named := formed.named
  addressed := by
    intro node stat stage path address
    rw [addressOf?, Option.map_eq_some_iff] at address
    obtain ⟨present, found, same⟩ := address
    apply PathOf.within_listed
    intro mention member
    refine mem_mentions_iff.mpr (Or.inr (Or.inl
      ⟨present, (Table.mem_values_iff _ _).mpr ⟨node, found⟩, ?_⟩))
    rw [same]
    exact List.mem_cons_of_mem _ member
  contributing := formed.contributing
  contributed := formed.contributed
  present := by
    intro id modifier found
    obtain ⟨same, _, hosted⟩ := formed.present id modifier found
    refine ⟨same, ?_, hosted⟩
    apply Modifier.within_listed
    intro mention member
    exact mem_mentions_iff.mpr (Or.inr (Or.inr (Or.inr (Or.inl
      ⟨modifier, (Table.mem_values_iff _ _).mpr ⟨id, found⟩, member⟩))))
  pipelines := fun _ _ found => formed.pipeline_mentioned found
  behaviors := by
    intro stat behaviors found behavior member
    have all : BehaviorsWithin graph.mentioned graph.behaviors.values.flatten :=
      behaviors_within_listed _ fun mention inside => mem_mentions_iff.mpr (by simp [inside])
    apply behaviorsWithin_iff.mp all
    exact List.mem_flatten.mpr ⟨behaviors, (Table.mem_values_iff _ _).mpr ⟨stat, found⟩, member⟩
  links := formed.links_mentioned

/-! ### Names and the depth of the stack -/

/-- Every stage of every mentioned stat on every mentioned path, and every modifier. -/
def names (mentions : List Mention) (modifiers : Table ModifierId Modifier) : List NodeName :=
  (mentions.filterMap Mention.stat?).flatMap (fun stat =>
    Stage.all.flatMap fun stage => (mentions.filterMap Mention.path?).map fun path =>
      .pipeline stat stage path) ++
    modifiers.keys.map .contribution

theorem length_names (graph : Graph) :
    (names graph.mentions graph.modifiers).length = graph.nameCount := by
  have counts {α : Type} {select : Mention → Option α} {counted : Mention → Bool}
      (same : ∀ mention, (select mention).isSome = counted mention) :
      (graph.mentions.filterMap select).length = graph.mentions.countP counted := by
    rw [List.length_filterMap_eq_countP]
    exact List.countP_congr fun mention _ => by rw [same]
  have length : (names graph.mentions graph.modifiers).length =
      (graph.mentions.filterMap Mention.stat?).length * (Stage.all.length *
        (graph.mentions.filterMap Mention.path?).length) + graph.modifiers.size := by
    simp only [names, List.length_append, List.length_flatMap, List.length_map, Table.keys,
      Table.size, List.map_const', List.sum_replicate_nat]
  rw [length, ← Nat.mul_assoc, nameCount]
  refine congrArg (· + _) (congrArg₂ (· * ·) (congrArg (· * _) (counts ?_)) (counts ?_))
  · rintro (_ | _) <;> rfl
  · rintro (_ | _) <;> rfl

/-- The names that nodes can have, once each. -/
def keys (mentions : List Mention) (modifiers : Table ModifierId Modifier) : List NodeName :=
  ((names mentions modifiers).filter NodeName.stands).dedup

theorem length_keys_le (mentions : List Mention) (modifiers : Table ModifierId Modifier) :
    (keys mentions modifiers).length ≤ (names mentions modifiers).length :=
  Nat.le_trans (List.dedup_sublist _).length_le (List.length_filter_le _ _)

/-- Nodes of one name are one node. -/
theorem WellFormed.named_once (formed : graph.WellFormed vocabulary) {node other : NodeId}
    {name : NodeName} (first : graph.nameOf? node = some name)
    (second : graph.nameOf? other = some name) : node = other := by
  rw [nameOf?_eq, Option.map_eq_some_iff] at first second
  obtain ⟨address, here, rfl⟩ := first
  obtain ⟨again, there, same⟩ := second
  cases address with
  | pipeline stat stage path =>
      cases again with
      | contribution modifier => cases same
      | pipeline otherStat otherStage otherPath =>
          simp only [Address.name, NodeName.pipeline.injEq] at same
          obtain ⟨rfl, rfl, routes⟩ := same
          obtain ⟨pipeline, found, listed⟩ := formed.named _ _ _ _ here
          obtain ⟨again, foundAgain, listedAgain⟩ := formed.named _ _ _ _ there
          rw [found] at foundAgain
          cases foundAgain
          rw [routes, listed] at listedAgain
          cases listedAgain
          rfl
  | contribution modifier =>
      cases again with
      | pipeline stat stage path => cases same
      | contribution otherModifier =>
          simp only [Address.name, NodeName.contribution.injEq] at same
          subst same
          have listed := (formed.contributed _ _ here).1
          rw [(formed.contributed _ _ there).1] at listed
          cases listed
          rfl

/-- The name of every node is among the names that are possible. -/
theorem WellFormed.name_mem {mentions : List Mention} {main : .path .main ∈ mentions}
    (formed : graph.WellFormed (.listed mentions main)) {node : NodeId} {name : NodeName}
    (found : graph.nameOf? node = some name) : name ∈ keys mentions graph.modifiers := by
  rw [nameOf?, Option.map_eq_some_iff] at found
  obtain ⟨present, here, rfl⟩ := found
  have address := addressOf?_of_get? here
  rw [keys, List.mem_dedup, List.mem_filter, names, List.mem_append]
  cases place : present.address with
  | pipeline stat stage path =>
      rw [place] at address
      obtain ⟨pipeline, opened, listed⟩ := formed.named _ _ _ _ address
      obtain ⟨_, _, _, level⟩ := formed.listed _ _ _ _ _ opened listed
      have pipelineFormed := formed.pipelines _ _ opened
      have stated : .stat pipeline.stat.id ∈ mentions := pipelineFormed.within.head
      rw [pipelineFormed.keyed] at stated
      have routed : .path path.id ∈ mentions := (formed.addressed _ _ _ _ address).allowed
      refine ⟨Or.inl ?_, decide_eq_true level⟩
      simp only [List.mem_flatMap, List.mem_filterMap, List.mem_map]
      exact ⟨stat, ⟨_, stated, rfl⟩, stage, Stage.mem_all stage, path.id, ⟨_, routed, rfl⟩, rfl⟩
  | contribution modifier =>
      rw [place] at address
      have added := (formed.contributed _ _ address).2
      exact ⟨Or.inr (List.mem_map_of_mem ((Table.mem_keys_iff _ _).mpr added)), rfl⟩

/-- The names of the nodes that are being calculated, innermost first. -/
def running (graph : Graph) : List NodeName := graph.evaluating.filterMap graph.nameOf?

theorem Stacked.named (stacked : graph.Stacked) {node : NodeId} (running : node ∈ graph.evaluating) :
    (graph.nameOf? node).isSome := by
  obtain ⟨present, found, _⟩ := (stacked.computing node).mpr running
  rw [nameOf?_of_get? found, Option.isSome_some]

theorem Stacked.length_running (stacked : graph.Stacked) :
    graph.running.length = graph.evaluating.length := by
  rw [running, List.filterMap_length_eq_length]
  exact fun node running => stacked.named running

theorem running_enter {node : NodeId} {present : Node} (found : graph.nodes.get? node = some present) :
    (graph.enter node).running = present.address.name :: graph.running := by
  rw [running, nameOf?_of_shape (shape_enter graph node)]
  exact List.filterMap_cons_some (nameOf?_of_get? found)

theorem nameOf?_of_advances {other : Graph} (advances : Advances vocabulary graph other)
    (stacked : graph.Stacked) {node : NodeId} (running : node ∈ graph.evaluating) :
    other.nameOf? node = graph.nameOf? node := by
  obtain ⟨present, found, _⟩ := (stacked.computing node).mpr running
  have address := addressOf?_of_get? found
  rw [nameOf?_eq, nameOf?_eq, advances.grows.addressed address, address]

/-- The nodes that are being calculated keep their names. -/
theorem Advances.running {other : Graph} (advances : Advances vocabulary graph other)
    (stacked : graph.Stacked) : other.running = graph.running := by
  rw [Graph.running, Graph.running, advances.evaluating]
  exact List.filterMap_congr fun node member => nameOf?_of_advances advances stacked member

theorem WellFormed.nodup_running (formed : graph.WellFormed vocabulary) (stacked : graph.Stacked) :
    graph.running.Nodup :=
  stacked.distinct.filterMap fun _ _ _ first second => formed.named_once first second

theorem WellFormed.running_subset {mentions : List Mention} {main : .path .main ∈ mentions}
    (formed : graph.WellFormed (.listed mentions main)) :
    graph.running ⊆ keys mentions graph.modifiers := by
  intro name member
  obtain ⟨node, _, found⟩ := List.mem_filterMap.mp member
  exact formed.name_mem found

/-- The stack is never higher than there are names. -/
theorem WellFormed.depth_le {mentions : List Mention} {main : .path .main ∈ mentions}
    (formed : graph.WellFormed (.listed mentions main)) (stacked : graph.Stacked) :
    graph.evaluating.length ≤ (keys mentions graph.modifiers).length := by
  rw [← stacked.length_running]
  exact (formed.nodup_running stacked).length_le_of_subset formed.running_subset

end Graph

/-! ### The levels suffice -/

open CharacterSheet.Graph

section Levels

variable {mentions : List Mention} {main : .path .main ∈ mentions}

/-- A run has an outcome if every calculation that it can begin has one. -/
theorem run_isSome {evaluator : Evaluator} {depth : Nat} {modifiers : Table ModifierId Modifier}
    (calculates : ∀ node graph, graph.WellFormed (.listed mentions main) → graph.Stacked →
      graph.evaluating.length = depth → graph.modifiers = modifiers →
        (evaluator node graph).isSome)
    (sound : ∀ node graph reply after, evaluator node graph = some (reply, after) →
      Evaluates node graph reply after)
    {plan : Plan (Option Value)} {frame : Frame} (asks : plan.Asks (statedScope (.listed mentions main)))
    (formed : frame.graph.WellFormed (.listed mentions main)) (stacked : frame.graph.Stacked)
    (high : frame.graph.evaluating.length = depth) (same : frame.graph.modifiers = modifiers) :
    (plan.run (Frame.interpreter evaluator) frame).isSome := by
  induction plan generalizing frame with
  | finish outcome => rfl
  | ask query resume inductionHypothesis =>
      have advances := advances_locate formed stacked asks.1
      rw [Plan.run, show (Frame.interpreter evaluator).answer = Frame.answer evaluator from rfl,
        Frame.answer_eq]
      rcases located : frame.graph.locate query with ⟨reply | node, graph⟩
      · rw [located] at advances
        exact inductionHypothesis reply (asks.2 reply) advances.formed advances.stacked
          (advances.evaluating ▸ high) (advances.grows.modifiers.trans same)
      · rw [located] at advances
        obtain ⟨⟨reply, after⟩, evaluated⟩ := Option.isSome_iff_exists.mp
          (calculates node graph advances.formed advances.stacked (advances.evaluating ▸ high)
            (advances.grows.modifiers.trans same))
        have further := (sound _ _ _ _ evaluated).advances advances.formed advances.stacked
        simp only [evaluated, Option.map_some]
        exact inductionHypothesis reply (asks.2 reply) further.formed further.stacked
          (further.evaluating ▸ advances.evaluating ▸ high)
          (further.grows.modifiers.trans (advances.grows.modifiers.trans same))
  | consult stat stage path resume inductionHypothesis =>
      exact inductionHypothesis _ (asks.2 _ formed.transforms_within) formed stacked high same
  | note record rest inductionHypothesis =>
      have noted := Advances.record formed stacked (Record.inward_of_note asks.1)
      exact inductionHypothesis asks.2 noted.formed noted.stacked high same

/-- With as many levels as there are names above the stack, a calculation has an outcome. -/
theorem evaluate_isSome {levels : Nat} {node : NodeId} {graph : Graph}
    (formed : graph.WellFormed (.listed mentions main)) (stacked : graph.Stacked)
    (enough : (keys mentions graph.modifiers).length + 1 ≤ levels + graph.evaluating.length) :
    (evaluate levels node graph).isSome := by
  induction levels generalizing node graph with
  | zero =>
      have bounded := formed.depth_le stacked
      omega
  | succ levels inductionHypothesis =>
      unfold evaluate evaluateBy
      split
      · rfl
      · next present found =>
        split
        · rfl
        · rfl
        · next stale =>
          have entered := formed.enter node
          have address := addressOf?_enter found
          have ran : (((graph.enter node).planOf present.address).run
              (Frame.interpreter (evaluate levels)) { graph := graph.enter node }).isSome := by
            apply run_isSome _ (fun _ _ _ _ => evaluate_sound)
              ((planOf_asks entered address).stated entered) entered (stacked.enter found stale)
              rfl rfl
            intro other inner innerFormed innerStacked high same
            apply inductionHypothesis innerFormed innerStacked
            have deeper : (graph.enter node).evaluating.length = graph.evaluating.length + 1 := rfl
            rw [same, high, deeper, show (graph.enter node).modifiers = graph.modifiers from rfl]
            omega
          obtain ⟨⟨reply, frame⟩, outcome⟩ := Option.isSome_iff_exists.mp ran
          simp only [outcome]
          rfl

end Levels

/-- Well-formed, with no calculation going on. -/
structure Graph.Resting (vocabulary : Vocabulary) (graph : Graph) : Prop where
  formed : graph.WellFormed vocabulary
  stacked : graph.Stacked
  idle : graph.evaluating = []

section Outside

variable {vocabulary : Vocabulary}

theorem Graph.Resting.advance {graph after : Graph} (resting : graph.Resting vocabulary)
    (advances : Advances vocabulary graph after) : after.Resting vocabulary :=
  ⟨advances.formed, advances.stacked, advances.evaluating.trans resting.idle⟩

/-- A read from outside is a calculation that comes to an end. -/
theorem evaluates_valueOf {graph : Graph} (resting : graph.Resting vocabulary) (node : NodeId) :
    Evaluates node graph (graph.valueOf node).1 (graph.valueOf node).2 := by
  have suffices' : (evaluate graph.levels node graph).isSome := by
    apply evaluate_isSome resting.formed.mentioned resting.stacked
    rw [levels, ← length_names, resting.idle]
    exact Nat.succ_le_succ (length_keys_le _ _)
  unfold valueOf
  split
  · next outcome found => exact evaluate_sound found
  · obtain ⟨⟨reply, after⟩, found⟩ := Option.isSome_iff_exists.mp suffices'
    rw [found]
    exact evaluate_sound found

/-- A plan that is performed from outside is run to its end. -/
theorem runs_perform {graph : Graph} (resting : graph.Resting vocabulary)
    {plan : Plan (Option Value)} (asks : plan.Asks (statedScope vocabulary)) :
    ∃ reads, Runs plan { graph } (graph.perform plan).1 { graph := (graph.perform plan).2, reads } := by
  have general {frame after : Frame} {plan : Plan (Option Value)} {reply : Reply}
      (resting : frame.graph.Resting vocabulary) (asks : plan.Asks (statedScope vocabulary))
      (ran : plan.run outside frame = some (reply, after)) : Runs plan frame reply after := by
    induction plan generalizing frame with
    | finish outcome =>
        cases ran
        exact .finish
    | ask query resume inductionHypothesis =>
        have advances := advances_locate resting.formed resting.stacked asks.1
        rw [Plan.run, outside, show (Frame.interpreter _).answer = Frame.answer _ from rfl,
          Frame.answer_eq] at ran
        rcases located : frame.graph.locate query with ⟨answer | node, grown⟩
        · rw [located] at advances ran
          exact .answered located
            (inductionHypothesis answer (resting.advance advances) (asks.2 answer) ran)
        · rw [located] at advances ran
          have rested := resting.advance advances
          have evaluates := evaluates_valueOf rested node
          have further := evaluates.advances rested.formed rested.stacked
          exact .read located evaluates
            (inductionHypothesis _ (rested.advance further) (asks.2 _) ran)
    | consult stat stage path resume inductionHypothesis =>
        exact .consult (inductionHypothesis _ resting (asks.2 _ resting.formed.transforms_within) ran)
    | note record rest inductionHypothesis =>
        have noted := Advances.record resting.formed resting.stacked
          (Record.inward_of_note asks.1)
        exact .note (inductionHypothesis (resting.advance noted) asks.2 ran)
  have outcome := Option.some_get (Plan.run_isSome outside_answers plan { graph })
  exact ⟨_, general resting asks outcome.symm⟩

end Outside

end CharacterSheet
