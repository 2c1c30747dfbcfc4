import CharacterSheet.Proofs.Total.Gathering
import Mathlib

/-!
Contract: which override is chosen.

Owns:
- the linear order of values: by their minima, then by their maxima;
- the highest of some values, which depends only on what values there are;
- the modifiers that override a stat, whatever their sources are;
- the value of the stage that overrides a total, to which the order does not matter in which these
  modifiers arrived.

Two values of one rank are the same bits. So it shows nowhere that of these the last one is taken.
-/

namespace CharacterSheet

/-! ### The order of values -/

/-- The place of a value among all values: the place of its minimum, then that of its maximum. -/
def Value.rank (value : Value) : ℤ ×ₗ ℤ :=
  toLex (Number.position value.minimum, Number.position value.maximum)

/-- A value is known by its rank, bit for bit. -/
theorem Value.rank_injective : Function.Injective Value.rank := by
  intro left right same
  obtain ⟨minima, maxima⟩ := Prod.mk.inj (toLex.injective same)
  cases left
  cases right
  cases Number.position_injective minima
  cases Number.position_injective maxima
  rfl

theorem Value.order_eq_gt_iff (left right : Value) :
    left.order right = .gt ↔ right.rank < left.rank := by
  rw [rank, rank, Prod.Lex.toLex_lt_toLex, order, Ordering.then_eq_gt, compare_gt_iff_gt,
    compare_eq_iff_eq, compare_gt_iff_gt]
  simp only [eq_comm]

/-! ### The highest value -/

theorem highest_append_singleton (values : List Value) (next : Value) :
    highest (values ++ [next]) =
      (highest values).elim (some next) fun best =>
        if next.rank < best.rank then some best else some next := by
  rw [highest, List.foldl_append, ← highest, List.foldl_cons, List.foldl_nil]
  cases highest values with
  | none => rfl
  | some best => simp only [Value.order_eq_gt_iff, Option.elim_some]

/-- The highest value is the one of the greatest rank. -/
theorem highest_eq_argmax (values : List Value) : highest values = values.argmax Value.rank := by
  induction values using List.reverseRecOn with
  | nil => rfl
  | append_singleton values next inductionHypothesis =>
      rw [highest_append_singleton, List.argmax_concat, inductionHypothesis]
      cases values.argmax Value.rank with
      | none => rfl
      | some best =>
          rcases lt_trichotomy next.rank best.rank with below | same | above
          · simp [below, below.not_gt]
          · cases Value.rank_injective same
            simp
          · simp [above, above.not_gt]

theorem highest_eq_none_iff {values : List Value} : highest values = none ↔ values = [] := by
  rw [highest_eq_argmax, List.argmax_eq_none]

theorem highest_eq_some_iff {values : List Value} {best : Value} :
    highest values = some best ↔ best ∈ values ∧ ∀ value ∈ values, value.rank ≤ best.rank := by
  rw [highest_eq_argmax]
  constructor
  · intro found
    exact ⟨List.argmax_mem found, fun value member => List.le_of_mem_argmax member found⟩
  · rintro ⟨member, greatest⟩
    cases found : values.argmax Value.rank with
    | none =>
        rw [List.argmax_eq_none.mp found] at member
        contradiction
    | some other =>
        have same := le_antisymm (greatest other (List.argmax_mem found))
          (List.le_of_mem_argmax member found)
        rw [Value.rank_injective same]

/-- The highest value depends only on what values there are. -/
theorem highest_congr {values others : List Value} (same : ∀ value, value ∈ values ↔ value ∈ others) :
    highest values = highest others := by
  ext best
  simp only [highest_eq_some_iff, same]

/-! ### The stage that overrides a total -/

/-- A modifier overrides the total of a stat. -/
def Modifier.Overrides (modifier : Modifier) (stat : StatId) : Prop :=
  modifier.form = .totalOverride ∧ ∃ named ∈ modifier.stats, named.id = stat

instance (modifier : Modifier) (stat : StatId) : Decidable (modifier.Overrides stat) :=
  inferInstanceAs (Decidable (_ ∧ _))

/-- Whatever its source is, a modifier that overrides a total stands in the roster of the main path. -/
theorem Modifier.serves_main_iff (modifier : Modifier) (stat : StatId) :
    modifier.Serves stat .totalOverride PathOf.main ↔ modifier.Overrides stat := by
  constructor
  · rintro ⟨named, form, _⟩
    exact ⟨form, named⟩
  · rintro ⟨form, named⟩
    refine ⟨named, form, ?_⟩
    rw [path, form]
    rfl

namespace Graph

/-- The stage that overrides a total collects the overrides of the main path. -/
theorem stagePlan_totalOverride {graph other : Graph} (grows : graph.Grows other) {stat kept : Stat}
    (keyed : kept.id = stat.id) (full : Path) :
    other.stagePlan kept .totalOverride full =
      (Plan.gather Plan.contribution (graph.members stat.id .totalOverride PathOf.main)).bind
        fun values => .finish (.ok (highest (values.filterMap id))) := by
  rw [stagePlan, totalOverridePlan, contributionsTo, keyed, grows.toExtends.members]
  rfl

end Graph

/-- After any calls, as long as no contribution fails and no behavior is in force there, the override of
a stat is the highest value that a modifier contributes to it. -/
theorem Sheet.value_totalOverride {settings : Settings} {retention : Retention}
    {operations : List Operation} {stat : Stat} {path : Path}
    {contribution : ModifierId → Option Value} {after : Graph}
    (supplies : (Sheet.run { settings, retention } operations).graph.Supplies stat .totalOverride path
      contribution after)
    (bare : after.transformsFor stat.id .totalOverride PathOf.main = []) :
    ((Sheet.run { settings, retention } operations).value stat .totalOverride path).1 =
      .ok (highest (((operations.foldl Operation.roll []).filter (·.Overrides stat.id)).filterMap
        fun modifier => contribution modifier.id)) := by
  obtain ⟨intact, enrolled, mustered⟩ := Sheet.mustered_run settings retention operations
  have overriders : (operations.foldl Operation.roll []).filter (·.Overrides stat.id) =
      (operations.foldl Operation.roll []).filter
        (·.Serves stat.id .totalOverride PathOf.main) :=
    List.filter_congr fun modifier _ => by simp only [modifier.serves_main_iff]
  have replied :
      ((Sheet.run { settings, retention } operations).value stat .totalOverride path).1 = _ :=
    supplies.read intact.toResting mustered stat.within_everything.headWithin path.within_everything
      bare fun _ _ full grows keyed _ => Graph.stagePlan_totalOverride grows keyed full
  rw [replied, overriders, show (path.at Form.totalOverride.stage).id = PathOf.main from rfl,
    enrolled.members, List.map_map, List.filterMap_map]
  rfl

/-- After any calls, as long as no contribution fails and no behavior is in force there, the override of
a stat is absent if and only if all its modifiers contribute nothing. Otherwise it is one of the
values that they contribute, bit for bit, and none of these has a higher rank. After any other calls
that leave the same modifiers in some other order, it is the same, as long as these contribute the
same. -/
theorem override_ignores_order (settings : Settings) (retention : Retention)
    (operations : List Operation) (stat : Stat) (path : Path)
    (contribution : ModifierId → Option Value) (after : Graph) :
    let sheet := Sheet.run { settings, retention } operations
    let overriders := (operations.foldl Operation.roll []).filter (·.Overrides stat.id)
    sheet.graph.Supplies stat .totalOverride path contribution after →
      after.transformsFor stat.id .totalOverride PathOf.main = [] →
        ∃ value, (sheet.value stat .totalOverride path).1 = .ok value ∧
          (value = none ↔ ∀ modifier ∈ overriders, contribution modifier.id = none) ∧
          (∀ best, value = some best →
            (∃ modifier ∈ overriders, contribution modifier.id = some best) ∧
              ∀ modifier ∈ overriders, ∀ other, contribution modifier.id = some other →
                other.rank ≤ best.rank) ∧
          ∀ (otherSettings : Settings) (otherRetention : Retention)
            (otherOperations : List Operation) (otherPath : Path)
            (otherContribution : ModifierId → Option Value) (otherAfter : Graph),
            let other := Sheet.run { settings := otherSettings, retention := otherRetention }
              otherOperations
            other.graph.Supplies stat .totalOverride otherPath otherContribution otherAfter →
              otherAfter.transformsFor stat.id .totalOverride PathOf.main = [] →
                ((otherOperations.foldl Operation.roll []).filter (·.Overrides stat.id)).Perm
                    overriders →
                  (∀ modifier ∈ overriders,
                    otherContribution modifier.id = contribution modifier.id) →
                    (other.value stat .totalOverride otherPath).1 = .ok value := by
  intro sheet overriders supplies bare
  have contributed (value : Value) :
      value ∈ overriders.filterMap (fun modifier => contribution modifier.id) ↔
        ∃ modifier ∈ overriders, contribution modifier.id = some value :=
    List.mem_filterMap
  refine ⟨_, Sheet.value_totalOverride supplies bare, ?_, ?_, ?_⟩
  · rw [highest_eq_none_iff, List.filterMap_eq_nil_iff]
  · intro best found
    obtain ⟨member, greatest⟩ := highest_eq_some_iff.mp found
    exact ⟨(contributed best).mp member, fun modifier inside other same =>
      greatest other ((contributed other).mpr ⟨modifier, inside, same⟩)⟩
  · intro otherSettings otherRetention otherOperations otherPath otherContribution otherAfter other
      otherSupplies otherBare permuted agree
    rw [Sheet.value_totalOverride otherSupplies otherBare]
    congr 1
    refine highest_congr fun value => ?_
    rw [contributed, List.mem_filterMap]
    refine exists_congr fun modifier => ?_
    rw [permuted.mem_iff]
    exact and_congr_right fun inside => by rw [agree modifier inside]

/-- A fixed total speed. -/
def fixedSpeed (number : Nat) (source : Source) (value : Option Value) : Modifier :=
  { id := ⟨number⟩, stats := [.named "Speed"], form := .totalOverride, value := .constant value,
    source }

/-- The two zeros from two sources, beside an item that fixes nothing. -/
def slowed : List Operation :=
  [.add (fixedSpeed 0 .global (some (.scalar 0))),
    .add (fixedSpeed 1 (.item "Chain") (some (.scalar (-0)))),
    .add (fixedSpeed 2 (.item "Boots") none)]

/-- The same, of which the first zero is removed and comes back last. -/
def slowedAgain : List Operation :=
  slowed ++ [.remove ⟨0⟩, .add (fixedSpeed 0 .global (some (.scalar 0)))]

/-- What the modifiers contribute to speed. -/
def speedValues (modifier : ModifierId) : Option Value :=
  if modifier = ⟨0⟩ then some (.scalar 0)
  else if modifier = ⟨1⟩ then some (.scalar (-0))
  else none

/-- Of the two zeros, the positive one wins, whether it comes first or last. -/
theorem positive_zero_overrides :
    let sheet := Sheet.run {} slowed
    let other := Sheet.run {} slowedAgain
    ∃ after otherAfter,
      (sheet.graph.Supplies (.named "Speed") .totalOverride .main speedValues after ∧
        after.transformsFor (Stat.named "Speed").id .totalOverride PathOf.main = []) ∧
      (other.graph.Supplies (.named "Speed") .totalOverride .main speedValues otherAfter ∧
        otherAfter.transformsFor (Stat.named "Speed").id .totalOverride PathOf.main = []) ∧
      ((slowedAgain.foldl Operation.roll []).filter (·.Overrides (Stat.named "Speed").id)).Perm
        ((slowed.foldl Operation.roll []).filter (·.Overrides (Stat.named "Speed").id)) ∧
      (sheet.value (.named "Speed") .totalOverride .main).1 = .ok (some (.scalar 0)) ∧
      (other.value (.named "Speed") .totalOverride .main).1 = .ok (some (.scalar 0)) := by
  intro sheet other
  obtain ⟨after, supplies, bare⟩ := @Graph.supplies_of_run sheet.graph (.named "Speed") rfl
    .totalOverride .main speedValues 3 (by decide +kernel)
  obtain ⟨otherAfter, otherSupplies, otherBare⟩ := @Graph.supplies_of_run other.graph
    (.named "Speed") rfl .totalOverride .main speedValues 3 (by decide +kernel)
  have permuted :
      ((slowedAgain.foldl Operation.roll []).filter (·.Overrides (Stat.named "Speed").id)).Perm
        ((slowed.foldl Operation.roll []).filter (·.Overrides (Stat.named "Speed").id)) :=
    List.perm_append_singleton (fixedSpeed 0 .global (some (.scalar 0)))
      [fixedSpeed 1 (.item "Chain") (some (.scalar (-0))), fixedSpeed 2 (.item "Boots") none]
  have reply : (sheet.value (.named "Speed") .totalOverride .main).1 = .ok (some (.scalar 0)) := by
    decide +kernel
  obtain ⟨value, replied, _, _, same⟩ := override_ignores_order {} {} slowed (.named "Speed") .main
    speedValues after supplies bare
  cases reply.symm.trans replied
  exact ⟨after, otherAfter, ⟨supplies, bare⟩, ⟨otherSupplies, otherBare⟩, permuted, reply,
    same {} {} slowedAgain .main speedValues otherAfter otherSupplies otherBare permuted fun _ _ => rfl⟩

end CharacterSheet
