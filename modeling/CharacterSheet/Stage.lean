import CharacterSheet.Identity

/-!
Contract: the stages of a stat's pipeline and the forms in which modifiers enter it.

Owns:
- the ten stages in calculation order and which of them exist once per stat;
- the five forms and the stage that collects each;
- the stages that read a given stage when a pipeline is wired normally.
-/

namespace CharacterSheet

/-- How a modifier contributes to a stat. -/
inductive Form where
  | baseSet
  | baseAdd
  /-- A percentage; all of them are summed. -/
  | increase
  /-- A percentage; all of them are multiplied. -/
  | more
  | totalOverride
deriving DecidableEq, Repr

/-- One stage of the calculation of a stat. -/
inductive Stage where
  | baseSet
  | baseAdd
  | increase
  | more
  /-- What was set and what was added on one path. -/
  | base
  /-- The base of one path after its increases and multipliers. -/
  | pathTotal
  | totalOverride
  /-- The sum of all path totals, before bounds. -/
  | uncappedSubtotal
  | subtotal
  | total
deriving DecidableEq, Repr

namespace Form

/-- All forms in listing order. -/
def all : List Form := [baseSet, baseAdd, increase, more, totalOverride]

/-- The stage that collects the modifiers of a form. -/
def stage : Form → Stage
  | baseSet => .baseSet
  | baseAdd => .baseAdd
  | increase => .increase
  | more => .more
  | totalOverride => .totalOverride

def text : Form → String
  | baseSet => "BaseSet"
  | baseAdd => "BaseAdd"
  | increase => "Increase"
  | more => "More"
  | totalOverride => "TotalOverride"

theorem mem_all (form : Form) : form ∈ all := by cases form <;> decide

end Form

namespace Stage

/-- All stages in calculation order. -/
def all : List Stage :=
  [baseSet, baseAdd, increase, more, base, pathTotal, totalOverride, uncappedSubtotal,
    subtotal, total]

/-- Stages that exist once per stat, on the main path. -/
def isStatLevel : Stage → Bool
  | totalOverride | uncappedSubtotal | subtotal | total => true
  | _ => false

/-- The form whose modifiers a stage collects, if it collects any. -/
def form? : Stage → Option Form
  | baseSet => some .baseSet
  | baseAdd => some .baseAdd
  | increase => some .increase
  | more => some .more
  | totalOverride => some .totalOverride
  | _ => none

/-- The stages through which a change of this one reaches the total, nearest first. -/
def above : Stage → List Stage
  | baseSet | baseAdd => [base, pathTotal, uncappedSubtotal, subtotal, total]
  | increase | more | base => [pathTotal, uncappedSubtotal, subtotal, total]
  | pathTotal => [uncappedSubtotal, subtotal, total]
  | uncappedSubtotal => [subtotal, total]
  | totalOverride | subtotal => [total]
  | total => []

def text : Stage → String
  | baseSet => "BaseSet"
  | baseAdd => "BaseAdd"
  | increase => "Increase"
  | more => "More"
  | base => "Base"
  | pathTotal => "PathTotal"
  | totalOverride => "TotalOverride"
  | uncappedSubtotal => "UncappedSubtotal"
  | subtotal => "Subtotal"
  | total => "Total"

/-- The place in calculation order. -/
def rank : Stage → Nat
  | baseSet => 0
  | baseAdd => 1
  | increase => 2
  | more => 3
  | base => 4
  | pathTotal => 5
  | totalOverride => 6
  | uncappedSubtotal => 7
  | subtotal => 8
  | total => 9

/-- The stages that come earlier in calculation order. -/
def below (stage : Stage) : List Stage := all.filter (·.rank < stage.rank)

theorem mem_all (stage : Stage) : stage ∈ all := by cases stage <;> decide

/-- A stage collects a form exactly if it is the stage of that form. -/
theorem form?_eq_some_iff (stage : Stage) (form : Form) :
    stage.form? = some form ↔ form.stage = stage := by
  cases stage <;> cases form <;> simp [form?, Form.stage]

/-- Stages on the way to the total come later in calculation order. -/
theorem rank_lt_of_mem_above {stage later : Stage} (member : later ∈ stage.above) :
    stage.rank < later.rank := by
  cases stage <;> cases later <;> simp_all [above, rank]

end Stage

/-- The path on which a stage lives: stages of the whole stat live on the main path. -/
def PathOf.at {σ : Type} (path : PathOf σ) (stage : Stage) : PathOf σ :=
  if stage.isStatLevel then .main else path

end CharacterSheet
