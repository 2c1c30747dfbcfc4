/-!
Contract: the numbers that a sheet calculates with.

A number is a double-precision pattern of 64 bits. Many patterns stand for "not a
number"; they differ in sign and payload, calculations hand them on, and the order of
values tells them apart.

Owns:
- numbers, their reading as doubles and back;
- arithmetic, rounding and comparison.

An operation on numbers that are numbers is the operation on doubles. An operand that
is not a number is handed on, the left one first; a result that is not a number, where
no operand was one of these, is always the same pattern.
-/

namespace CharacterSheet

/-- A double-precision number, known by its bits. -/
structure Number where
  bits : UInt64
deriving DecidableEq, Repr

namespace Number

/-- The bits without the sign. -/
def magnitude (number : Number) : UInt64 := number.bits &&& 0x7fffffffffffffff

/-- The magnitude of an infinite number; every larger magnitude is not a number. -/
def infiniteMagnitude : UInt64 := 0x7ff0000000000000

def isNaN (number : Number) : Bool := infiniteMagnitude < number.magnitude

def isInfinite (number : Number) : Bool := number.magnitude == infiniteMagnitude

/-- Whether the sign is negative, which it can be for zero too. -/
def isSigned (number : Number) : Bool := number.bits != number.magnitude

/-- What a calculation gives that has no result, such as zero divided by zero. -/
def invalid : Number := ⟨0xfff8000000000000⟩

/-- Hand on what is not a number: its sign and payload stay, and the mark of a
signalling pattern goes. -/
def quieted (number : Number) : Number := ⟨number.bits ||| 0x0008000000000000⟩

/-- Read a number as a double; all that is not a number becomes one and the same. -/
def toFloat (number : Number) : Float := Float.ofBits number.bits

/-- The number that a double stands for. -/
def ofFloat (value : Float) : Number := if value.isNaN then invalid else ⟨value.toBits⟩

/-- Apply an operation on doubles to two numbers. -/
def combine (operation : Float → Float → Float) (left right : Number) : Number :=
  if left.isNaN then left.quieted
  else if right.isNaN then right.quieted
  else ofFloat (operation left.toFloat right.toFloat)

def ofNat (value : Nat) : Number := ofFloat (Float.ofNat value)

def ofInt (value : Int) : Number := ofFloat (Float.ofInt value)

instance (value : Nat) : OfNat Number value := ⟨ofNat value⟩

instance : OfScientific Number :=
  ⟨fun digits negative exponent => ofFloat (Float.ofScientific digits negative exponent)⟩

instance : Add Number := ⟨combine (· + ·)⟩
instance : Sub Number := ⟨combine (· - ·)⟩
instance : Mul Number := ⟨combine (· * ·)⟩
instance : Div Number := ⟨combine (· / ·)⟩

/-- The other sign, also for what is not a number. -/
def negate (number : Number) : Number := ⟨number.bits ^^^ 0x8000000000000000⟩

instance : Neg Number := ⟨negate⟩

/-- Less in value: false if an operand is not a number. -/
instance : LT Number := ⟨fun left right => left.toFloat < right.toFloat⟩

instance : DecidableLT Number := fun left right =>
  inferInstanceAs (Decidable (left.toFloat < right.toFloat))

/-- Equal in value: the two zeros are equal, and what is not a number differs even
from itself. -/
def equals (left right : Number) : Bool := left.toFloat == right.toFloat

def isZero (number : Number) : Bool := number.equals 0

/-- The next integer downwards; what is not a number stays exactly as it is. -/
def floor (number : Number) : Number :=
  if number.isNaN then number else ofFloat number.toFloat.floor

/-- The next integer upwards; what is not a number stays exactly as it is. -/
def ceiling (number : Number) : Number :=
  if number.isNaN then number else ofFloat number.toFloat.ceil

/-- The nearest integer, a half away from zero; what is not a number is handed on as by
any calculation. -/
def nearest (number : Number) : Number :=
  if number.isNaN then number.quieted else ofFloat number.toFloat.round

end Number
end CharacterSheet
