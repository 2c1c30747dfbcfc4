import CharacterSheet.Number

/-!
Contract: the comparisons of numbers that the stages of a stat use.

Owns:
- the larger and the smaller of two numbers, where a NaN operand is ignored and a bound
  replaces what it equals;
- clamping between two numbers, which leaves a NaN alone;
- a position of every number on one linear scale, which tells `-0` from `0` and every
  pattern that is not a number from every other one.
-/

namespace CharacterSheet.Number

/-- The larger of a number and a bound. One that is not a number gives way to the other,
and the bound to the number if neither is; of two that are equal, which the two zeros are,
the bound is taken. -/
def larger (number bound : Number) : Number :=
  if bound.isNaN then number else if bound < number then number else bound

/-- The smaller of a number and a bound, with the same choices as for the larger. -/
def smaller (number bound : Number) : Number :=
  if bound.isNaN then number else if number < bound then number else bound

/-- The nearest number between `low` and `high`; what is neither below nor above
stays as it is, which includes a NaN. -/
def clamp {α : Type} [LT α] [DecidableLT α] (low high value : α) : α :=
  if value < low then low else if high < value then high else value

/-- The place of a number on a linear scale of all bit patterns: negative ones by
falling magnitude, then positive ones by rising magnitude. A NaN stands beyond the
infinity of its sign. -/
def position (number : Number) : Int :=
  let bits := number.bits.toNat
  if bits < Nat.pow 2 63 then Int.ofNat bits else -Int.ofNat (bits - Nat.pow 2 63) - 1

/-- A number is known by its position. -/
theorem position_injective {left right : Number} (same : position left = position right) :
    left = right := by
  have leftBound := left.bits.toNat_lt
  have rightBound := right.bits.toNat_lt
  have bits : left.bits.toNat = right.bits.toNat := by
    simp only [position] at same
    split at same <;> split at same <;> simp only [Int.ofNat_eq_natCast] at same <;> omega
  cases left
  cases right
  exact congrArg _ (UInt64.toNat_inj.mp bits)

end CharacterSheet.Number
