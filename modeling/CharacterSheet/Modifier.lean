import CharacterSheet.Stat

/-!
Contract: modifiers, the structured contributions from which stats are calculated.

A modifier names the stats it contributes to, the form in which it does so, a formula
for its value, the source it comes from and possibly a condition. Its identity is
kept by every changed copy, so that adding twice and removing a copy mean one
modifier.
-/

namespace CharacterSheet

structure Modifier where
  id : ModifierId
  stats : List Stat
  form : Form
  value : Formula
  source : Source := .global
  condition : Option Formula := none

namespace Modifier

/-- Add a constant to the base of a stat. -/
def baseAdd (id : ModifierId) (stat : Stat) (amount : Number) : Modifier :=
  { id, stats := [stat], form := .baseAdd, value := .constant (some (.scalar amount)) }

/-- Turn a percentage of one stat into another. -/
def conversion (id : ModifierId) (source target : Stat) (percent : Number) : Modifier :=
  baseAdd id (.conversion source target) percent

/-- Gain a percentage of one stat as extra points of another. -/
def gain (id : ModifierId) (source target : Stat) (percent : Number) : Modifier :=
  baseAdd id (.gain source target) percent

/-- The path on which the modifier contributes. -/
def path (modifier : Modifier) : Path := modifier.source.path.at modifier.form.stage

/-- Form, value and condition in words. -/
def description (modifier : Modifier) : String :=
  let contribution := modifier.form.text ++ " " ++ modifier.value.description
  match modifier.condition with
  | some condition => contribution ++ " (" ++ condition.description ++ ")"
  | none => contribution

/-- The first stat that is not bound to a concrete entity. -/
def unresolved? (modifier : Modifier) : Option Stat :=
  modifier.stats.find? fun stat => !stat.isResolved

end Modifier
end CharacterSheet
