import CharacterSheet.Fault

/-!
Contract: stats with all they carry, and the rules that refer to stats.

Owns:
- stats: identity, role, bounds, rounding, data type and behaviors;
- formulas, by which modifiers and conditions get their values;
- transforms and the behaviors that apply them to stages of other stats;
- paths whose converted stats are given in full.

These types refer to each other, so a stat is a finite tree: every stat inside it is
a full stat of its own. Two stats are the same stat if their identities agree; what
they carry besides may differ.
-/

namespace CharacterSheet

/-- What the numbers of a stat stand for. -/
inductive DataType where
  | double
  /-- Integers; rounded down unless the stat says otherwise. -/
  | int
  /-- Truth values; the total becomes one or zero. -/
  | bool
  /-- One of a number of variants; the total is an index below their number. -/
  | variant (count : Nat)
deriving DecidableEq, Repr

/-- The paths of a stage to which a behavior applies. -/
inductive PathRule where
  | all
  | mainOnly
  | conversionOnly
  | nonConversion
deriving DecidableEq, Repr

namespace PathRule

def text : PathRule → String
  | all => "All"
  | mainOnly => "MainOnly"
  | conversionOnly => "ConversionOnly"
  | nonConversion => "NonConversion"

def admits {σ : Type} (rule : PathRule) (path : PathOf σ) : Bool :=
  match rule with
  | all => true
  | mainOnly => path.isMain
  | conversionOnly => path.isConversion
  | nonConversion => !path.isConversion

@[simp] theorem admits_map {σ τ : Type} (rule : PathRule) (change : σ → τ) (path : PathOf σ) :
    rule.admits (path.map change) = rule.admits path := by
  cases rule <;> simp [admits]

end PathRule

mutual

/-- A stat: its identity, which alone tells it from other stats, and what it carries. -/
structure Stat where
  id : StatId
  role : Role
  /-- The total of this stat bounds the subtotal from below. -/
  minimum : Option Stat
  /-- The total of this stat bounds the subtotal from above. -/
  maximum : Option Stat
  rounding : Rounding
  dataType : DataType
  /-- Rules in force while the stat is on the sheet. -/
  behaviors : List Behavior

/-- What a stat is for. -/
inductive Role where
  | regular
  /-- The percentage of `source` that is turned into `target`. -/
  | conversion (source target : Stat)
  /-- The percentage of `source` that is gained as extra `target`. -/
  | gain (source target : Stat)

/-- A rule that changes the values of some stages of some stats. -/
structure Behavior where
  affects : List StatId
  stages : List Stage
  paths : PathRule
  transform : Transform

/-- A change of a value. -/
inductive Transform where
  /-- Multiply by the total of a stat, if it has one. -/
  | multiply (factor : Stat)
  | add (amount : Number)
  | scale (factor : Number)
  /-- The same value always. -/
  | set (value : Option Value)
  /-- A value where there was none. -/
  | fallback (value : Option Value)
  /-- Add what a formula gives; the formula is calculated in any case. -/
  | plus (formula : Formula)
  | fail (fault : Fault)

/-- A rule that calculates a value from the values of nodes. -/
inductive Formula where
  | constant (value : Option Value)
  /-- The value of a node. -/
  | reference (stat : Stat) (stage : Stage) (path : PathOf Stat)
  /-- `amount` for each full `step` of the total of a stat. -/
  | perStep (stat : Stat) (step amount : Number)
  /-- One bound of another formula's value. -/
  | component (inner : Formula) (index : Nat)
  /-- Whether the total of a stat is true. -/
  | holds (stat : Stat)
  /-- Note each calculation in the journal. -/
  | probe (name : String) (inner : Formula)
  /-- A value in place of any fault. -/
  | attempt (inner : Formula) (fallback : Option Value)
  | fail (fault : Fault)
  | sum (terms : List Formula)
  | product (factors : List Formula)
  | difference (left right : Formula)
  | quotient (left right : Formula)

end

/-- A path whose converted stats are given in full. -/
abbrev Path := PathOf Stat

namespace Stat

/-- A stat that carries nothing. -/
def plain (id : StatId) : Stat := ⟨id, .regular, none, none, .none, .double, []⟩

/-- A plain stat of the character. -/
def named (name : String) : Stat := plain ⟨name, .character⟩

/-- The stat whose total is the percentage of `source` turned into `target`. -/
def conversion (source target : Stat) : Stat :=
  { plain (.conversion source.id target.id) with role := .conversion source target }

/-- The stat whose total is the percentage of `source` gained as extra `target`. -/
def gain (source target : Stat) : Stat :=
  { plain (.gain source.id target.id) with role := .gain source target }

def withEntity (stat : Stat) (entity : Entity) : Stat :=
  { stat with id := { stat.id with entity := entity } }

def withMinimum (stat bound : Stat) : Stat := { stat with minimum := some bound }

def withMaximum (stat bound : Stat) : Stat := { stat with maximum := some bound }

def withRounding (stat : Stat) (rounding : Rounding) : Stat := { stat with rounding := rounding }

def withDataType (stat : Stat) (dataType : DataType) : Stat := { stat with dataType := dataType }

def withBehavior (stat : Stat) (behavior : Behavior) : Stat :=
  { stat with behaviors := stat.behaviors ++ [behavior] }

/-- The rounding of the total: integers and variants are rounded down by default. -/
def effectiveRounding (stat : Stat) : Rounding :=
  match stat.rounding, stat.dataType with
  | .none, .int | .none, .variant _ => .floor
  | rounding, _ => rounding

/-- The stats that a conversion or gain stat links. -/
def ends? (stat : Stat) : Option (Stat × Stat) :=
  match stat.role with
  | .regular => none
  | .conversion source target | .gain source target => some (source, target)

end Stat

/-- The identity of a path. -/
def PathOf.id (path : Path) : PathId := path.map Stat.id

@[simp] theorem PathOf.id_main : (PathOf.main : Path).id = PathOf.main := rfl

/-- Whether a behavior applies to a stage of a stat on a path. -/
def Behavior.appliesTo (behavior : Behavior) (stat : StatId) (stage : Stage) (path : PathId) :
    Bool :=
  behavior.stages.contains stage && behavior.paths.admits path && behavior.affects.contains stat

mutual

/-- Whether a stat and all stats it refers to are bound to concrete entities. -/
def Stat.isResolved : Stat → Bool
  | ⟨id, role, minimum, maximum, _, _, _⟩ =>
      id.entity.isConcrete && boundIsResolved minimum && boundIsResolved maximum
        && role.isResolved

def boundIsResolved : Option Stat → Bool
  | none => true
  | some stat => stat.isResolved

def Role.isResolved : Role → Bool
  | .regular => true
  | .conversion source target => source.isResolved && target.isResolved
  | .gain source target => source.isResolved && target.isResolved

end

/-- Bind a placeholder to `binding`; a concrete entity stays. -/
def Entity.resolve (entity binding : Entity) : Entity :=
  if entity.isConcrete then entity else binding

mutual

/-- Bind every placeholder in a stat and in the stats it refers to. Names stay as they
are, and so do behaviors. -/
def Stat.resolve (binding : Entity) : Stat → Stat
  | ⟨id, role, minimum, maximum, rounding, dataType, behaviors⟩ =>
      ⟨{ id with entity := id.entity.resolve binding }, role.resolve binding,
        resolveBound binding minimum, resolveBound binding maximum, rounding, dataType, behaviors⟩

def resolveBound (binding : Entity) : Option Stat → Option Stat
  | none => none
  | some stat => some (stat.resolve binding)

def Role.resolve (binding : Entity) : Role → Role
  | .regular => .regular
  | .conversion source target => .conversion (source.resolve binding) (target.resolve binding)
  | .gain source target => .gain (source.resolve binding) (target.resolve binding)

end

namespace Formula

/-- The total of a stat. -/
def total (stat : Stat) : Formula := .reference stat .total .main

/-- What a formula calculates, for readers of a breakdown. -/
def description : Formula → String
  | constant none => "null"
  | constant (some value) => value.text
  | reference stat stage _ => stat.id.text ++ "." ++ stage.text
  | perStep stat step amount =>
      Number.text amount ++ " per " ++ Number.text step ++ " " ++ stat.id.text
  | component inner index => inner.description ++ "[" ++ toString index ++ "]"
  | holds stat => "if " ++ stat.id.text
  | probe _ inner => inner.description
  | attempt _ _ => "try"
  | fail _ => "fail"
  | sum _ => "sum"
  | product _ => "product"
  | difference _ _ => "difference"
  | quotient _ _ => "quotient"

end Formula

/-- What a transform does to a value. -/
def Transform.description : Transform → String
  | multiply factor => "× " ++ factor.id.text
  | add _ => "add"
  | scale _ => "scale"
  | set _ => "set"
  | fallback _ => "default"
  | plus _ => "plus"
  | fail _ => "fail"

end CharacterSheet
