import CharacterSheet.Proofs.Membership.Backing
import Mathlib.Algebra.BigOperators.Ring.List
import Mathlib.Algebra.Order.BigOperators.Group.List
import Mathlib.Algebra.Order.Field.Rat
import Mathlib.Tactic.FieldSimp
import Mathlib.Tactic.Linarith
import Mathlib.Tactic.Ring

/-!
Contract: how the base of a source is split among its targets and itself.

Owns:
- the split as formulas over any number type, from the links of a source and the percentages that its
  conversion and gain stats show;
- that the plans of the stages compute these formulas over numbers, whoever answers them;
- that over the rationals nothing is lost or made: what all targets are given by conversions and what
  the source retains are the whole base, and gains come on top.

Each target and the source itself sum the percentages of their own accord, so the split is never seen
as a whole by the program. Which bound is scaled down is decided for each bound alone; the laws are
therefore proved for one bound, and a range takes them twice.
-/

namespace CharacterSheet

namespace Range

variable {α : Type}

/-- The sum of some ranges, from the first to the last. -/
def sum [Add α] [OfNat α 0] (ranges : List (Range α)) : Range α :=
  ranges.foldl (· + ·) (.scalar 0)

theorem eq_of_bounds {left right : Range α} (minimum : left.minimum = right.minimum)
    (maximum : left.maximum = right.maximum) : left = right := by
  cases left
  cases right
  simp only at minimum maximum
  rw [minimum, maximum]

theorem add_eq [Add α] (left right : Range α) :
    left + right = ⟨left.minimum + right.minimum, left.maximum + right.maximum⟩ := rfl

theorem mul_eq [Mul α] (left right : Range α) :
    left * right = ⟨left.minimum * right.minimum, left.maximum * right.maximum⟩ := rfl

private theorem foldl_bounds (ranges : List (Range ℚ)) (start : Range ℚ) :
    ranges.foldl (· + ·) start =
      ⟨start.minimum + (ranges.map (·.minimum)).sum, start.maximum + (ranges.map (·.maximum)).sum⟩ := by
  induction ranges generalizing start with
  | nil => simp
  | cons first rest inductionHypothesis =>
      rw [List.foldl_cons, inductionHypothesis, List.map_cons, List.sum_cons, List.map_cons,
        List.sum_cons, ← add_assoc, ← add_assoc]
      rfl

/-- A sum of ranges of rationals is summed bound by bound. -/
theorem sum_eq (ranges : List (Range ℚ)) :
    sum ranges = ⟨(ranges.map (·.minimum)).sum, (ranges.map (·.maximum)).sum⟩ := by
  rw [sum, foldl_bounds]
  simp [scalar]

end Range

/-! ### The formulas -/

/-- What a split of the base of a source goes by: the links of the source, and what the totals of
conversion and gain stats show. -/
structure Split (α : Type) where
  links : Links
  source : StatId
  percent : Stat → Option (Range α)

namespace Split

section Formulas

variable {α : Type} (split : Split α)

/-- The percentages of all conversions of the source that show one. -/
def percents : List (Range α) :=
  (split.links.conversionStats split.source).filterMap split.percent

/-- The percentage that the conversion to a target shows. -/
def conversion? (target : StatId) : Option (Range α) :=
  ((split.links.link? split.source target).bind (·.conversion)).bind split.percent

/-- The percentage that the gain of a target shows. -/
def gain? (target : StatId) : Option (Range α) :=
  ((split.links.link? split.source target).bind (·.gain)).bind split.percent

variable [Add α] [Sub α] [Mul α] [Div α] [OfNat α 0] [OfNat α 1] [OfNat α 100] [LT α] [DecidableLT α]

/-- The conversion sum of the source. -/
def sum : Range α := Range.sum split.percents

/-- The percentage of the source that a target is given by its conversion. -/
def converted (target : StatId) : Range α :=
  match split.conversion? target with
  | none => .scalar 0
  | some percent => .scalar 0 + effectiveConversion percent split.sum

/-- The percentage of the source that reaches a target. -/
def share (target : StatId) : Range α :=
  match split.gain? target with
  | none => split.converted target
  | some percent => split.converted target + percent

/-- What of a base reaches a target that is linked. -/
def reaching (base : Option (Range α)) (target : StatId) : Option (Range α) :=
  if (split.links.link? split.source target).isSome then
    base.map fun base => (base * split.share target).map (· / 100)
  else none

/-- The total of the main path of the source. -/
def mainTotal (base increase more : Option (Range α)) : Option (Range α) :=
  base.map fun base =>
    let total := (base * (increase.getD (.scalar 0)).map (100 + ·)).map (· / 100) *
      more.getD (.scalar 1)
    if split.links.isConverted split.source then total * retainedFraction split.sum else total

end Formulas

end Split

/-! ### The stages compute the formulas -/

/-- Answer every request from a list of values that does not change. -/
def Interpreter.fixed (answers : Query → Option Value) : Interpreter Unit where
  answer query state := some (.ok (answers query), state)
  transforms _ _ _ _ := []
  record _ state := state

section Fixed

variable {answers : Query → Option Value}

theorem Plan.run_read_fixed (stat : Stat) (stage : Stage) (path : Path) :
    (Plan.read stat stage path).run (.fixed answers) () =
      some (.ok (answers (.node stat stage path)), ()) := rfl

theorem Plan.run_gather_total_fixed (stats : List Stat) :
    (Plan.gather Plan.total stats).run (.fixed answers) () =
      some (.ok (stats.map fun stat => answers (.node stat .total .main)), ()) := by
  induction stats with
  | nil => rfl
  | cons stat rest inductionHypothesis =>
      have first : (Plan.total stat).run (.fixed answers) () =
          some (.ok (answers (.node stat .total .main)), ()) := rfl
      show (Plan.bind _ fun first => Plan.bind _ fun others => pure (first :: others)).run _ _ = _
      simp only [Plan.run_bind, first, inductionHypothesis]
      rfl

end Fixed

namespace Graph

variable {graph : Graph} {answers : Query → Option Value}

/-- The split of a source as a graph has its links and as some answers have its percentages. -/
def splitOf (graph : Graph) (source : StatId) (answers : Query → Option Value) : Split Number where
  links := graph.links
  source := source
  percent stat := answers (.node stat .total .main)

/-- A fold that adds what is present and skips what is absent sums what is present. -/
theorem foldl_present (add : Value → Option Value → Value) (skips : ∀ sum, add sum none = sum)
    (adds : ∀ sum value, add sum (some value) = sum + value) (values : List (Option Value))
    (start : Value) : values.foldl add start = (values.filterMap id).foldl (· + ·) start := by
  induction values generalizing start with
  | nil => rfl
  | cons value rest inductionHypothesis =>
      rw [List.foldl_cons, inductionHypothesis]
      cases value with
      | none => rw [skips]; rfl
      | some value => rw [adds]; rfl

theorem run_conversionSum (source : StatId) :
    (graph.conversionSum source).run (.fixed answers) () =
      some (.ok (graph.splitOf source answers).sum, ()) := by
  show (Plan.bind _ _).run _ _ = _
  simp only [Plan.run_bind, Plan.run_gather_total_fixed]
  show some (Except.ok (List.foldl _ _ _), ()) = _
  rw [foldl_present _ (by intro sum; rfl) (by intro sum value; rfl), List.filterMap_map]
  rfl

theorem run_convertedShare {source target : StatId} {link : Link}
    (found : graph.links.link? source target = some link) :
    (graph.convertedShare link.conversion source).run (.fixed answers) () =
      some (.ok ((graph.splitOf source answers).converted target), ()) := by
  have linked : (graph.splitOf source answers).conversion? target =
      link.conversion.bind fun stat => answers (.node stat .total .main) := by
    show ((graph.links.link? source target).bind _).bind _ = _
    rw [found]
    rfl
  unfold Split.converted convertedShare
  rw [linked]
  cases link.conversion with
  | none => rfl
  | some stat =>
      have total : (Plan.total stat).run (.fixed answers) () =
          some (.ok (answers (.node stat .total .main)), ()) := rfl
      simp only [Option.bind_some, Plan.run_bind, total]
      cases answers (.node stat .total .main) with
      | none => rfl
      | some percent =>
          simp only [Plan.run_bind, run_conversionSum]
          rfl

theorem run_gainedShare {source target : StatId} {link : Link}
    (found : graph.links.link? source target = some link) :
    (gainedShare link.gain ((graph.splitOf source answers).converted target)).run (.fixed answers) () =
      some (.ok ((graph.splitOf source answers).share target), ()) := by
  have linked : (graph.splitOf source answers).gain? target =
      link.gain.bind fun stat => answers (.node stat .total .main) := by
    show ((graph.links.link? source target).bind _).bind _ = _
    rw [found]
    rfl
  unfold Split.share gainedShare
  rw [linked]
  cases link.gain with
  | none => rfl
  | some stat =>
      have total : (Plan.total stat).run (.fixed answers) () =
          some (.ok (answers (.node stat .total .main)), ()) := rfl
      simp only [Option.bind_some, Plan.run_bind, total]
      cases answers (.node stat .total .main) <;> rfl

theorem run_convertedBase (source target : Stat) :
    (graph.convertedBase source target).run (.fixed answers) () =
      some (.ok ((graph.splitOf source.id answers).reaching
        (answers (.node source .base .main)) target.id), ()) := by
  rw [convertedBase_eq]
  cases found : graph.links.link? source.id target.id with
  | none =>
      simp only [Split.reaching, splitOf, found]
      rfl
  | some link =>
      simp only [Split.reaching, splitOf, found, Plan.run_bind, Plan.run_read_fixed]
      cases answers (.node source .base .main) with
      | none => rfl
      | some base =>
          simp only [Plan.run_bind, run_convertedShare found, run_gainedShare found]
          rfl

theorem run_pathTotal (source : Stat) :
    (graph.pathTotalPlan source .main).run (.fixed answers) () =
      some (.ok ((graph.splitOf source.id answers).mainTotal (answers (.node source .base .main))
        (answers (.node source .increase .main)) (answers (.node source .more .main))), ()) := by
  show (Plan.bind _ _).run _ _ = _
  rw [Plan.run_bind, Plan.run_read_fixed]
  cases answers (.node source .base .main) with
  | none => rfl
  | some base =>
      show (Plan.bind _ fun _ => Plan.bind _ _).run _ _ = _
      rw [Plan.run_bind, Plan.run_read_fixed]
      show (Plan.bind _ _).run _ _ = _
      rw [Plan.run_bind, Plan.run_read_fixed]
      simp only [Split.mainTotal, PathOf.isMain_main, Bool.true_and]
      cases converts : graph.links.isConverted source.id with
      | false =>
          simp only [splitOf, converts, Bool.false_eq_true, ↓reduceIte, Option.map_some]
          rfl
      | true =>
          simp only [splitOf, converts, ↓reduceIte, Option.map_some]
          show (Plan.bind _ _).run _ _ = _
          rw [Plan.run_bind, run_conversionSum]
          rfl

end Graph

namespace Graph

/-- The stages compute the split of a source, if some answers are what their requests are given. -/
structure Splits (graph : Graph) (source : Stat) (answers : Query → Option Value) : Prop where
  sum : (graph.conversionSum source.id).run (.fixed answers) () =
    some (.ok (graph.splitOf source.id answers).sum, ())
  converted : ∀ target : Stat, (graph.convertedBase source target).run (.fixed answers) () =
    some (.ok ((graph.splitOf source.id answers).reaching
      (answers (.node source .base .main)) target.id), ())
  main : (graph.pathTotalPlan source .main).run (.fixed answers) () =
    some (.ok ((graph.splitOf source.id answers).mainTotal (answers (.node source .base .main))
      (answers (.node source .increase .main)) (answers (.node source .more .main))), ())

theorem splits (graph : Graph) (source : Stat) (answers : Query → Option Value) :
    graph.Splits source answers where
  sum := run_conversionSum source.id
  converted := run_convertedBase source
  main := run_pathTotal source

end Graph

/-! ### Nothing is lost, for one bound -/

/-- What counts of a bound of one percentage if the bounds of all of them add up to `all`. -/
def scaled (own all : ℚ) : ℚ := if 100 < all then own * 100 / all else own

/-- What is scaled adds up to a hundred, unless all of it was less. -/
theorem sum_scaled (percents : List ℚ) :
    (percents.map (scaled · percents.sum)).sum = min 100 percents.sum := by
  by_cases above : 100 < percents.sum
  · have positive : percents.sum ≠ 0 := by linarith
    have factor (own : ℚ) : scaled own percents.sum = own * (100 / percents.sum) := by
      rw [scaled, if_pos above, mul_div_assoc]
    simp only [factor]
    rw [List.sum_map_mul_right, List.map_id', mul_div_cancel₀ _ positive, min_eq_left above.le]
  · have same (own : ℚ) : scaled own percents.sum = own := by rw [scaled, if_neg above]
    simp only [same, List.map_id']
    rw [min_eq_right (not_lt.mp above)]

theorem clamp_of_nonneg {all : ℚ} (nonnegative : 0 ≤ all) : Number.clamp 0 100 all = min 100 all := by
  unfold Number.clamp
  rw [if_neg (not_lt.mpr nonnegative)]
  split
  · next above => rw [min_eq_left above.le]
  · next within => rw [min_eq_right (not_lt.mp within)]

theorem sum_scaled_retained {percents : List ℚ} (nonnegative : ∀ own ∈ percents, 0 ≤ own) :
    (percents.map fun own => scaled own percents.sum / 100).sum +
      (1 - Number.clamp 0 100 percents.sum / 100) = 1 := by
  have total : 0 ≤ percents.sum := List.sum_nonneg nonnegative
  simp only [div_eq_mul_inv, List.sum_map_mul_right, sum_scaled, clamp_of_nonneg total]
  ring

theorem scaled_nonneg {own all : ℚ} (nonnegative : 0 ≤ own) : 0 ≤ scaled own all := by
  unfold scaled
  split
  · next above =>
    exact div_nonneg (mul_nonneg nonnegative (by norm_num)) (by linarith)
  · exact nonnegative

theorem scaled_le {own all : ℚ} (nonnegative : 0 ≤ own) : scaled own all ≤ own := by
  unfold scaled
  split
  · next above =>
    rw [div_le_iff₀ (by linarith)]
    nlinarith
  · exact le_refl own

theorem scaled_mul_comm (own other all : ℚ) : scaled own all * other = scaled other all * own := by
  unfold scaled
  split <;> ring

/-- What each item takes of an amount, if it takes a part at all, adds up to what the parts take. -/
theorem sum_taken {β γ : Type} (amount : ℚ) (items : List β) (part? : β → Option γ) (part : γ → ℚ) :
    (items.map fun item => amount * ((part? item).map part).getD 0).sum =
      amount * ((items.filterMap part?).map part).sum := by
  induction items with
  | nil => simp
  | cons item rest inductionHypothesis =>
      rw [List.map_cons, List.sum_cons, inductionHypothesis, List.filterMap_cons]
      cases part? item with
      | none => simp
      | some taken => simp [mul_add]

/-! ### Nothing is lost, for ranges -/

namespace Links

/-- The conversion stats of a source stand in the order of their targets. -/
theorem conversionStats_eq (links : Links) (source : StatId) :
    links.conversionStats source = (links.targets source).filterMap fun target =>
      (links.link? source target).bind (·.conversion) := by
  unfold conversionStats targets link?
  cases links.outlets.get? source with
  | none => rfl
  | some outlet =>
      simp only [Table.values, Table.keys, List.filterMap_map]
      apply List.filterMap_congr
      intro entry member
      have found := (Table.get?_eq_some_iff outlet.targets entry.1 entry.2).mpr member
      simp only [Function.comp_apply, Option.bind_some, found]

/-- A source that is not converted has no conversion stats. -/
theorem conversionStats_of_not_isConverted {links : Links} {source : StatId}
    (unconverted : links.isConverted source = false) : links.conversionStats source = [] := by
  apply List.eq_nil_iff_forall_not_mem.mpr
  intro stat member
  obtain ⟨target, conveys⟩ := (links.mem_conversionStats_iff source stat).mp member
  have converts := (links.isConverted_iff source).mpr ⟨target, stat, conveys⟩
  rw [unconverted] at converts
  contradiction

end Links

namespace Split

variable (split : Split ℚ)

theorem percents_eq : split.percents =
    (split.links.targets split.source).filterMap split.conversion? := by
  rw [percents, Links.conversionStats_eq, List.filterMap_filterMap]
  rfl

/-- A split loses nothing and makes nothing. The shares are those of its conversions; what is added
for gains is apart from them. -/
structure Conserves : Prop where
  whole : Range.sum (split.percents.map fun percent =>
      (effectiveConversion percent split.sum).map (· / 100)) +
    retainedFraction split.sum = .scalar 1
  bounded : ∀ percent ∈ split.percents,
    (0 ≤ (effectiveConversion percent split.sum).minimum ∧
      (effectiveConversion percent split.sum).minimum ≤ percent.minimum) ∧
    0 ≤ (effectiveConversion percent split.sum).maximum ∧
      (effectiveConversion percent split.sum).maximum ≤ percent.maximum
  ratios : ∀ first ∈ split.percents, ∀ second ∈ split.percents,
    effectiveConversion first split.sum * second = effectiveConversion second split.sum * first
  unscaled : ∀ percent ∈ split.percents,
    (split.sum.minimum ≤ 100 →
      (effectiveConversion percent split.sum).minimum = percent.minimum) ∧
    (split.sum.maximum ≤ 100 →
      (effectiveConversion percent split.sum).maximum = percent.maximum)
  /-- The conversion parts of all targets and what is retained are the base. -/
  base : ∀ base : Range ℚ,
    Range.sum ((split.links.targets split.source).map fun target =>
        (base * split.converted target).map (· / 100)) +
      base * retainedFraction split.sum = base
  /-- What reaches a target is its conversion part and, on top of it, its gain. -/
  gains : ∀ base target, target ∈ split.links.targets split.source →
    split.reaching (some base) target =
      some ((base * split.converted target).map (· / 100) +
        match split.gain? target with
        | none => .scalar 0
        | some percent => (base * percent).map (· / 100))
  /-- The main path of the source goes on with what is retained of its base. -/
  main : ∀ base increase more, split.mainTotal (some base) increase more =
    some ((base * retainedFraction split.sum * (increase.getD (.scalar 0)).map (100 + ·)).map (· / 100) *
      more.getD (.scalar 1))

/-- The bounds of the sum are the sums of the bounds. -/
theorem sum_bounds : split.sum =
    ⟨(split.percents.map (·.minimum)).sum, (split.percents.map (·.maximum)).sum⟩ :=
  Range.sum_eq split.percents

variable {split}

theorem whole_of_nonneg (nonnegative : ∀ percent ∈ split.percents,
    0 ≤ percent.minimum ∧ 0 ≤ percent.maximum) :
    Range.sum (split.percents.map fun percent =>
        (effectiveConversion percent split.sum).map (· / 100)) +
      retainedFraction split.sum = .scalar 1 := by
  have minima : ∀ own ∈ split.percents.map (·.minimum), 0 ≤ own := by
    simpa using fun percent member => (nonnegative percent member).1
  have maxima : ∀ own ∈ split.percents.map (·.maximum), 0 ≤ own := by
    simpa using fun percent member => (nonnegative percent member).2
  have lower := sum_scaled_retained minima
  have upper := sum_scaled_retained maxima
  rw [List.map_map] at lower upper
  rw [Range.sum_eq, List.map_map, List.map_map, sum_bounds]
  exact Range.eq_of_bounds lower upper

theorem converted_eq (target : StatId) : split.converted target =
    ((split.conversion? target).map fun percent => effectiveConversion percent split.sum).getD
      (.scalar 0) := by
  unfold converted
  cases split.conversion? target with
  | none => rfl
  | some percent => exact Range.eq_of_bounds (zero_add _) (zero_add _)

/-- The conversion parts of all targets are what the effective percentages take of the base. -/
theorem sum_converted (base : Range ℚ) :
    Range.sum ((split.links.targets split.source).map fun target =>
        (base * split.converted target).map (· / 100)) =
      base * Range.sum (split.percents.map fun percent =>
        (effectiveConversion percent split.sum).map (· / 100)) := by
  have taken (amount : ℚ) (bound : Range ℚ → ℚ) :
      ((split.links.targets split.source).map fun target =>
          amount * ((split.conversion? target).map fun percent =>
            bound (effectiveConversion percent split.sum) / 100).getD 0).sum =
        amount * (split.percents.map fun percent =>
          bound (effectiveConversion percent split.sum) / 100).sum := by
    rw [sum_taken, ← percents_eq]
  have bounds (target : StatId) : (base * split.converted target).map (· / 100) =
      ⟨base.minimum * ((split.conversion? target).map fun percent =>
          (effectiveConversion percent split.sum).minimum / 100).getD 0,
        base.maximum * ((split.conversion? target).map fun percent =>
          (effectiveConversion percent split.sum).maximum / 100).getD 0⟩ := by
    rw [converted_eq, Range.mul_eq, Range.map]
    cases split.conversion? target with
    | none => simp [Range.scalar]
    | some percent => simp [mul_div_assoc]
  simp only [bounds]
  simp only [Range.sum_eq, List.map_map, Range.mul_eq, Function.comp_def]
  exact Range.eq_of_bounds (taken base.minimum Range.minimum) (taken base.maximum Range.maximum)

theorem conserves (nonnegative : ∀ stat ∈ split.links.conversionStats split.source,
    ∀ own ∈ split.percent stat, 0 ≤ own.minimum ∧ 0 ≤ own.maximum) : split.Conserves := by
  have shown : ∀ percent ∈ split.percents, 0 ≤ percent.minimum ∧ 0 ≤ percent.maximum := by
    intro percent member
    obtain ⟨stat, listed, shows⟩ := List.mem_filterMap.mp member
    exact nonnegative stat listed percent shows
  exact
    { whole := whole_of_nonneg shown
      bounded := by
        intro percent member
        obtain ⟨lower, upper⟩ := shown percent member
        exact ⟨⟨scaled_nonneg lower, scaled_le lower⟩, scaled_nonneg upper, scaled_le upper⟩
      ratios := fun first _ second _ =>
        Range.eq_of_bounds (scaled_mul_comm _ _ _) (scaled_mul_comm _ _ _)
      unscaled := fun percent _ =>
        ⟨fun within => if_neg (not_lt.mpr within), fun within => if_neg (not_lt.mpr within)⟩
      base := by
        intro base
        rw [sum_converted]
        have parts := whole_of_nonneg shown
        simp only [Range.add_eq, Range.scalar, Range.mk.injEq] at parts
        simp only [Range.add_eq, Range.mul_eq, ← mul_add, parts, mul_one]
      gains := by
        intro base target member
        rw [reaching, if_pos ((split.links.mem_targets_iff _ target).mp member), Option.map_some]
        congr 1
        unfold share
        cases split.gain? target with
        | none => exact Range.eq_of_bounds (add_zero _).symm (add_zero _).symm
        | some percent =>
            simp only [Range.add_eq, Range.mul_eq, Range.map, mul_add, add_div]
      main := by
        intro base increase more
        rw [mainTotal, Option.map_some]
        congr 1
        cases converts : split.links.isConverted split.source with
        | true =>
            simp only [↓reduceIte, Range.mul_eq, Range.map, Range.mk.injEq]
            constructor <;> ring
        | false =>
            have nothing : split.sum = .scalar 0 := by
              rw [sum, percents, Links.conversionStats_of_not_isConverted converts]
              rfl
            have kept : retainedFraction split.sum = .scalar 1 := by
              rw [nothing]
              decide +kernel
            simp [kept, Range.mul_eq, Range.scalar] }

end Split

/-- Over rationals, the formulas that the stages compute conserve the base of every source whose
conversion percentages are not negative. -/
theorem conversion_conserves (graph : Graph) (source : Stat) (percent : Stat → Option (Range ℚ))
    (nonnegative : ∀ stat ∈ graph.links.conversionStats source.id, ∀ own ∈ percent stat,
      0 ≤ own.minimum ∧ 0 ≤ own.maximum) :
    (∀ answers : Query → Option Value, graph.Splits source answers) ∧
      (Split.mk graph.links source.id percent).Conserves :=
  ⟨graph.splits source, Split.conserves nonnegative⟩

/-- Iron of which steel and bronze each take a share, and gold is gained beside them. -/
def alloying : Graph where
  links := (((({} : Links).register (Stat.conversion (.named "Iron") (.named "Steel"))).register
    (Stat.conversion (.named "Iron") (.named "Bronze"))).register
      (Stat.gain (.named "Iron") (.named "Gold")))

/-- From forty to seventy-five percent for each conversion, and thirty percent for the gain. -/
def alloyPercent (stat : Stat) : Option (Range ℚ) :=
  if stat.id = (Stat.gain (.named "Iron") (.named "Gold")).id then some (.scalar 30)
  else some ⟨40, 75⟩

/-- The maxima add up to more than the whole and are scaled, the minima are not. -/
theorem alloying_conserved :
    (∀ stat ∈ alloying.links.conversionStats (Stat.named "Iron").id, ∀ own ∈ alloyPercent stat,
      0 ≤ own.minimum ∧ 0 ≤ own.maximum) ∧
    ((∀ answers : Query → Option Value, alloying.Splits (.named "Iron") answers) ∧
      (Split.mk alloying.links (Stat.named "Iron").id alloyPercent).Conserves) ∧
    (Split.mk alloying.links (Stat.named "Iron").id alloyPercent).sum = ⟨80, 150⟩ := by
  have nonnegative : ∀ stat ∈ alloying.links.conversionStats (Stat.named "Iron").id,
      ∀ own ∈ alloyPercent stat, 0 ≤ own.minimum ∧ 0 ≤ own.maximum := by
    intro stat _ own shown
    unfold alloyPercent at shown
    split at shown <;> cases shown <;> norm_num [Range.scalar]
  exact ⟨nonnegative, conversion_conserves alloying (.named "Iron") alloyPercent nonnegative,
    by decide +kernel⟩

end CharacterSheet
