import CharacterSheet.Number.Order
import CharacterSheet.Number.Shortest

/-!
Contract: the values that flow through a sheet.

A value is a pair of bounds; a scalar has equal bounds. Whether a value is there at
all is said by `Option`, so `none` means that a stage has nothing to say.

Owns:
- ranges over any number type with bound-wise arithmetic;
- values, which are ranges of numbers, with rounding, clamping, order and text;
- folds over lists in which some values are absent.
-/

namespace CharacterSheet

/-- A pair of bounds. -/
structure Range (α : Type) where
  minimum : α
  maximum : α
deriving DecidableEq, Repr

namespace Range

variable {α : Type}

/-- The range whose bounds are both `bound`. -/
def scalar (bound : α) : Range α := ⟨bound, bound⟩

/-- Apply a function to both bounds. -/
def map (change : α → α) (range : Range α) : Range α :=
  ⟨change range.minimum, change range.maximum⟩

/-- Combine the bounds of two ranges one by one. -/
def combine (join : α → α → α) (left right : Range α) : Range α :=
  ⟨join left.minimum right.minimum, join left.maximum right.maximum⟩

instance [Add α] : Add (Range α) := ⟨combine (· + ·)⟩
instance [Sub α] : Sub (Range α) := ⟨combine (· - ·)⟩
instance [Mul α] : Mul (Range α) := ⟨combine (· * ·)⟩
instance [Div α] : Div (Range α) := ⟨combine (· / ·)⟩
instance [Neg α] : Neg (Range α) := ⟨map (- ·)⟩

/-- The bound at a position: the minimum, then the maximum. -/
def component? (range : Range α) : Nat → Option α
  | 0 => some range.minimum
  | 1 => some range.maximum
  | _ => none

end Range

/-- A value of a node or of a modifier. -/
abbrev Value := Range Number

/-- How the total of a stat is rounded. -/
inductive Rounding where
  | none
  | floor
  | ceiling
  /-- To the nearest integer, a half away from zero. -/
  | nearest
deriving DecidableEq, Repr

namespace Rounding

def all : List Rounding := [none, floor, ceiling, nearest]

def text : Rounding → String
  | none => "None"
  | floor => "Floor"
  | ceiling => "Ceiling"
  | nearest => "Nearest"

/-- Round one number. -/
def apply : Rounding → Number → Number
  | none, number => number
  | floor, number => number.floor
  | ceiling, number => number.ceiling
  | nearest, number => number.nearest

end Rounding

namespace Value

/-- The truth values of conditions: one and zero. -/
def ofBool (truth : Bool) : Value := .scalar (if truth then 1 else 0)

/-- Whether both bounds are the same number. -/
def isScalar (value : Value) : Bool := value.minimum.equals value.maximum

/-- A value is true if a bound differs from zero. -/
def isTrue (value : Value) : Bool := !value.minimum.isZero || !value.maximum.isZero

/-- Equality of numbers, by which a NaN differs from itself. -/
def equals (left right : Value) : Bool :=
  left.minimum.equals right.minimum && left.maximum.equals right.maximum

/-- Raise both bounds to `lower`, then lower them to `upper`; an upper bound below the
lower one wins. -/
def clamp (value : Value) (lower upper : Option Value) : Value :=
  let raised := match lower with
    | some bound => value.combine Number.larger bound
    | none => value
  match upper with
  | some bound => raised.combine Number.smaller bound
  | none => raised

def round (rounding : Rounding) (value : Value) : Value := value.map rounding.apply

/-- The linear order by which the highest override is chosen: minimum first, then
maximum, each by its position among all numbers. -/
def order (left right : Value) : Ordering :=
  (compare (Number.position left.minimum) (Number.position right.minimum)).then
    (compare (Number.position left.maximum) (Number.position right.maximum))

/-- One number for a scalar, else both bounds. -/
def text (value : Value) : String :=
  if value.isScalar then Number.text value.minimum
  else Number.text value.minimum ++ " to " ++ Number.text value.maximum

/-- The truth of a value that may be absent. -/
def holds (value : Option Value) : Bool := value.any isTrue

end Value

/-- Join all values that are present, from left to right; absent if none is. -/
def foldPresent {α : Type} (join : α → α → α) (values : List (Option α)) : Option α :=
  values.foldl
    (fun joined next => match joined, next with
      | some left, some right => some (join left right)
      | some left, none => some left
      | none, next => next)
    none

/-- The sum of all values that are present. -/
def sumPresent {α : Type} [Add α] (values : List (Option α)) : Option α :=
  foldPresent (· + ·) values

/-- The product of all values that are present. -/
def productPresent {α : Type} [Mul α] (values : List (Option α)) : Option α :=
  foldPresent (· * ·) values

/-- The last of the values that no other one exceeds. -/
def highest (values : List Value) : Option Value :=
  values.foldl
    (fun best next => match best with
      | some value => if value.order next = .gt then some value else some next
      | none => some next)
    none

end CharacterSheet
