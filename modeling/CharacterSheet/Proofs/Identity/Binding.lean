import CharacterSheet.Proofs.Identity.Naming

/-!
Contract: what the binding of placeholders does to a stat and to all stats that it refers to.

Owns:
- the positions in a stat: the stat itself, its bounds, the ends that it links, and so on in these;
- a stat is resolved if and only if the entities at all positions in it are concrete;
- binding changes nothing but the placeholders, each of which gives way to the entity it is bound to;
- binding a stat that links two others is linking the two after they were bound.

What the behaviors of a stat refer to has no position in the stat, and it is not bound.
-/

namespace CharacterSheet

/-- Concrete entities stay, placeholders are replaced. -/
theorem Entity.isConcrete_resolve (entity binding : Entity) :
    (entity.resolve binding).isConcrete = (entity.isConcrete || binding.isConcrete) := by
  unfold Entity.resolve
  split
  · next concrete => rw [concrete, Bool.true_or]
  · next placeholder => rw [Bool.eq_false_iff.mpr placeholder, Bool.false_or]

/-! ### Positions -/

/-- A way in which a stat refers to another one. -/
inductive Branch where
  | minimum
  | maximum
  | source
  | target
deriving DecidableEq, Repr

namespace Stat

variable {stat part : Stat} {binding : Entity}

/-- The stat that a stat refers to in one way. -/
def branch? (stat : Stat) : Branch → Option Stat
  | .minimum => stat.minimum
  | .maximum => stat.maximum
  | .source => stat.ends?.map (·.1)
  | .target => stat.ends?.map (·.2)

/-- The stat to which some references lead, the first of them from the stat itself. -/
def at? (stat : Stat) : List Branch → Option Stat
  | [] => some stat
  | branch :: rest => (stat.branch? branch).bind (·.at? rest)

/-- In which way a stat links two others, if it does. -/
def share? (stat : Stat) : Option Share :=
  match stat.role with
  | .regular => none
  | .conversion _ _ => some .conversion
  | .gain _ _ => some .gain

theorem sizeOf_branch {branch : Branch} (found : stat.branch? branch = some part) :
    sizeOf part < sizeOf stat := by
  obtain ⟨id, role, minimum, maximum, rounding, dataType, behaviors⟩ := stat
  cases branch with
  | minimum =>
      cases found
      simp only [Stat.mk.sizeOf_spec, Option.some.sizeOf_spec]
      omega
  | maximum =>
      cases found
      simp only [Stat.mk.sizeOf_spec, Option.some.sizeOf_spec]
      omega
  | source | target =>
      cases role with
      | regular => contradiction
      | conversion source target =>
          cases found
          simp only [Stat.mk.sizeOf_spec, Role.conversion.sizeOf_spec]
          omega
      | gain source target =>
          cases found
          simp only [Stat.mk.sizeOf_spec, Role.gain.sizeOf_spec]
          omega

/-- What holds of a stat whenever it holds of the stats that it refers to holds of every stat. -/
@[elab_as_elim]
theorem branch_induct {motive : Stat → Prop} (stat : Stat)
    (step : ∀ stat, (∀ branch part, stat.branch? branch = some part → motive part) → motive stat) :
    motive stat :=
  step stat fun _ part _ => branch_induct part step
termination_by sizeOf stat
decreasing_by exact sizeOf_branch ‹_›

/-! ### Resolved stats -/

theorem isResolved_iff_branches : stat.isResolved = true ↔ stat.id.entity.isConcrete = true ∧
    ∀ branch part, stat.branch? branch = some part → part.isResolved = true := by
  obtain ⟨id, role, minimum, maximum, rounding, dataType, behaviors⟩ := stat
  have bound (bound : Option Stat) : boundIsResolved bound = true ↔
      ∀ part, bound = some part → part.isResolved = true := by
    cases bound <;> simp [boundIsResolved]
  have branches (holds : Stat → Prop) (branch? : Branch → Option Stat) :
      (∀ branch part, branch? branch = some part → holds part) ↔
        (∀ part, branch? .minimum = some part → holds part) ∧
        (∀ part, branch? .maximum = some part → holds part) ∧
        (∀ part, branch? .source = some part → holds part) ∧
        (∀ part, branch? .target = some part → holds part) :=
    ⟨fun all => ⟨all _, all _, all _, all _⟩, fun ⟨lower, upper, source, target⟩ branch => by
      cases branch <;> assumption⟩
  rw [branches, isResolved, Bool.and_eq_true, Bool.and_eq_true, Bool.and_eq_true, bound, bound]
  cases role <;> simp [branch?, ends?, Role.isResolved, and_assoc]

/-- A stat is resolved if and only if the entities at all positions in it are concrete. -/
theorem isResolved_iff (stat : Stat) : stat.isResolved = true ↔
    ∀ position part, stat.at? position = some part → part.id.entity.isConcrete = true := by
  induction stat using branch_induct with
  | step stat inductionHypothesis =>
      rw [isResolved_iff_branches]
      constructor
      · rintro ⟨own, below⟩ position part found
        cases position with
        | nil =>
            cases found
            exact own
        | cons branch rest =>
            obtain ⟨middle, first, later⟩ := Option.bind_eq_some_iff.mp found
            exact (inductionHypothesis branch middle first).mp (below branch middle first) rest part
              later
      · intro concrete
        refine ⟨concrete [] stat rfl, fun branch part found => ?_⟩
        refine (inductionHypothesis branch part found).mpr fun position other later => ?_
        exact concrete (branch :: position) other (by rw [at?, found, Option.bind_some, later])

/-! ### Binding -/

theorem branch?_resolve (stat : Stat) (binding : Entity) (branch : Branch) :
    (stat.resolve binding).branch? branch = (stat.branch? branch).map (resolve binding) := by
  obtain ⟨id, role, minimum, maximum, rounding, dataType, behaviors⟩ := stat
  have bound (bound : Option Stat) : resolveBound binding bound = bound.map (resolve binding) := by
    cases bound <;> rfl
  cases branch with
  | minimum => exact bound minimum
  | maximum => exact bound maximum
  | source | target => cases role <;> rfl

/-- Binding leads to the same positions. -/
theorem at?_resolve (stat : Stat) (binding : Entity) (position : List Branch) :
    (stat.resolve binding).at? position = (stat.at? position).map (resolve binding) := by
  induction position generalizing stat with
  | nil => rfl
  | cons branch rest inductionHypothesis =>
      rw [at?, at?, branch?_resolve, Option.bind_map, Option.map_bind]
      exact congrArg _ (funext inductionHypothesis)

/-- Two stats are one if they carry the same and refer to the same in every way. -/
theorem ext_branches {other : Stat} (id : stat.id = other.id) (share : stat.share? = other.share?)
    (branches : ∀ branch, stat.branch? branch = other.branch? branch)
    (rounding : stat.rounding = other.rounding) (dataType : stat.dataType = other.dataType)
    (behaviors : stat.behaviors = other.behaviors) : stat = other := by
  have minimum : stat.minimum = other.minimum := branches .minimum
  have maximum : stat.maximum = other.maximum := branches .maximum
  have source := branches .source
  have target := branches .target
  cases stat
  cases other
  next role _ _ _ _ _ _ role' _ _ _ _ _ =>
  cases role <;> cases role' <;> simp_all [share?, branch?, ends?]

/-- One stat is another with its own placeholder bound; what the two refer to is left open. -/
structure Bound (binding : Entity) (stat bound : Stat) : Prop where
  name : bound.id.name = stat.id.name
  concrete : stat.id.entity.isConcrete = true → bound.id.entity = stat.id.entity
  placeholder : stat.id.entity.isConcrete = false → bound.id.entity = binding
  share : bound.share? = stat.share?
  rounding : bound.rounding = stat.rounding
  dataType : bound.dataType = stat.dataType
  behaviors : bound.behaviors = stat.behaviors

theorem id_resolve (stat : Stat) (binding : Entity) :
    (stat.resolve binding).id = { stat.id with entity := stat.id.entity.resolve binding } := by
  cases stat
  rfl

theorem bound_resolve (stat : Stat) (binding : Entity) :
    Bound binding stat (stat.resolve binding) where
  name := by rw [id_resolve]
  concrete := fun concrete => by rw [id_resolve, Entity.resolve, if_pos concrete]
  placeholder := fun placeholder => by
    rw [id_resolve, Entity.resolve, if_neg (Bool.eq_false_iff.mp placeholder)]
  share := by
    obtain ⟨_, role, _, _, _, _, _⟩ := stat
    cases role <;> rfl
  rounding := by cases stat; rfl
  dataType := by cases stat; rfl
  behaviors := by cases stat; rfl

/-- A resolved stat stays as it is, whatever placeholders are bound to. -/
theorem resolve_of_isResolved (binding : Entity) (resolved : stat.isResolved = true) :
    stat.resolve binding = stat := by
  induction stat using branch_induct with
  | step stat inductionHypothesis =>
      obtain ⟨own, below⟩ := isResolved_iff_branches.mp resolved
      have bound := stat.bound_resolve binding
      refine ext_branches ?_ bound.share ?_ bound.rounding bound.dataType bound.behaviors
      · rw [id_resolve, Entity.resolve, if_pos own]
      · intro branch
        rw [branch?_resolve]
        cases found : stat.branch? branch with
        | none => rfl
        | some part =>
            exact congrArg some (inductionHypothesis branch part found (below branch part found))

/-- Binding resolves a stat, unless its placeholders are bound to a placeholder. -/
theorem isResolved_resolve (stat : Stat) (binding : Entity) :
    (stat.resolve binding).isResolved = true ↔
      stat.isResolved = true ∨ binding.isConcrete = true := by
  have entity (part : Stat) : (part.resolve binding).id.entity.isConcrete = true ↔
      part.id.entity.isConcrete = true ∨ binding.isConcrete = true := by
    rw [id_resolve, Entity.isConcrete_resolve, Bool.or_eq_true]
  simp only [isResolved_iff, at?_resolve, Option.map_eq_some_iff, forall_exists_index, and_imp,
    forall_apply_eq_imp_iff₂, entity]
  by_cases concrete : binding.isConcrete = true <;> simp [concrete]

end Stat

theorem Share.resolve_stat (share : Share) (source target : Stat) (binding : Entity) :
    (share.stat source target).resolve binding =
      share.stat (source.resolve binding) (target.resolve binding) := by
  cases share <;> cases source <;> cases target <;> rfl

/-- A stat is resolved if no placeholder stands at any position in it. By binding, each placeholder at
any position in a stat gives way to the entity that it is bound to, and all else stays; so a stat that
was resolved stays as it is. Binding to a concrete entity resolves every stat, once and for all; binding
to a placeholder resolves none. To bind a stat that links two others is to link the two after they were
bound. -/
theorem binding_resolves (stat : Stat) (binding : Entity) :
    (stat.isResolved = true ↔
      ∀ position part, stat.at? position = some part → part.id.entity.isConcrete = true) ∧
    (∀ position, Option.Rel (Stat.Bound binding) (stat.at? position)
      ((stat.resolve binding).at? position)) ∧
    (stat.isResolved = true → stat.resolve binding = stat) ∧
    (binding.isConcrete = true → (stat.resolve binding).isResolved = true ∧
      ∀ again, (stat.resolve binding).resolve again = stat.resolve binding) ∧
    (binding.isConcrete = false → stat.isResolved = false →
      (stat.resolve binding).isResolved = false) ∧
    ∀ share : Share, ∀ other, (share.stat stat other).resolve binding =
      share.stat (stat.resolve binding) (other.resolve binding) := by
  refine ⟨stat.isResolved_iff, fun position => ?_, Stat.resolve_of_isResolved binding,
    fun concrete => ?_, fun placeholder unresolved => ?_,
    fun share other => share.resolve_stat stat other binding⟩
  · rw [Stat.at?_resolve]
    cases stat.at? position with
    | none => exact .none
    | some part => exact .some (part.bound_resolve binding)
  · have resolved := (stat.isResolved_resolve binding).mpr (Or.inr concrete)
    exact ⟨resolved, fun again => Stat.resolve_of_isResolved again resolved⟩
  · rw [Bool.eq_false_iff, ne_eq, Stat.isResolved_resolve, placeholder, unresolved]
    simp

/-- What the source of a modifier has of steel is turned into gold; no more than iron can be. -/
def foreignSteel : Stat :=
  (Stat.conversion ((Stat.named "Steel").withEntity .modifierSource) (.named "Gold")).withMaximum
    ((Stat.gain (.named "Iron") ((Stat.named "Gold").withEntity .any)).withEntity .enemy)

/-- The placeholders of the stat itself, of the source that it converts and of the target of its bound
are bound; the entity of its bound stays. -/
theorem foreignSteel_resolved :
    foreignSteel.isResolved = false ∧
    (foreignSteel.resolve .totem).isResolved = true ∧
    (∀ again, (foreignSteel.resolve .totem).resolve again = foreignSteel.resolve .totem) ∧
    ((foreignSteel.resolve .totem).at? [.maximum, .target]).map (·.id.entity) = some .totem ∧
    ((foreignSteel.resolve .totem).at? [.maximum]).map (·.id.entity) = some .enemy ∧
    (foreignSteel.resolve .any).isResolved = false := by
  have unresolved : foreignSteel.isResolved = false := by decide
  obtain ⟨-, -, -, concrete, -, -⟩ := binding_resolves foreignSteel .totem
  obtain ⟨-, -, -, -, placeholder, -⟩ := binding_resolves foreignSteel .any
  obtain ⟨resolved, stays⟩ := concrete rfl
  exact ⟨unresolved, resolved, stays, rfl, rfl, placeholder rfl unresolved⟩

end CharacterSheet
