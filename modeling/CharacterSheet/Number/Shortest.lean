import CharacterSheet.Number

/-!
Contract: the decimal text of a double.

The text has the fewest significant digits that read back as the same double and,
of these, the digits nearest to it; an exact tie goes up. It is written positionally
at every magnitude, with no point when there is no fraction.

Owns: the exact decimal scale on which all doubles are integers, the search for the
digits, and the placing of the point.
-/

namespace CharacterSheet.Number

/-- Every finite double is an integral multiple of `10 ^ (-places)`. -/
def places : Nat := 1100

/-- A finite positive double and the ends of the interval of reals that round to it,
all multiplied by `10 ^ places`. The ends belong to the interval iff `closed`. -/
structure Scaled where
  value : Nat
  low : Nat
  high : Nat
  closed : Bool
deriving DecidableEq, Repr

/-- Read the magnitude of a finite double off its bits. The gap below a power of two
is half the gap above it. -/
def Scaled.ofBits (bits : Nat) : Scaled :=
  let field := bits / Nat.pow 2 52 % Nat.pow 2 11
  let fraction := bits % Nat.pow 2 52
  let mantissa := if field = 0 then fraction else fraction + Nat.pow 2 52
  let exponent := if field = 0 then 0 else field - 1
  -- one quarter of the unit in the last place, on the decimal scale
  let quarter := Nat.pow 10 places * Nat.pow 2 exponent / Nat.pow 2 1076
  let below := if fraction = 0 ∧ 1 < field then 1 else 2
  { value := 4 * mantissa * quarter
    low := (4 * mantissa - below) * quarter
    high := (4 * mantissa + 2) * quarter
    closed := mantissa % 2 = 0 }

/-- Whether a number on the scale reads back as the double. -/
def Scaled.admits (scaled : Scaled) (candidate : Nat) : Bool :=
  if scaled.closed then scaled.low ≤ candidate ∧ candidate ≤ scaled.high
  else scaled.low < candidate ∧ candidate < scaled.high

/-- The multiple of `unit` that reads back and is nearest, if one of the two
neighbours of the value does. -/
def Scaled.nearest? (scaled : Scaled) (unit : Nat) : Option Nat :=
  let below := scaled.value / unit
  let above := below + 1
  match scaled.admits (below * unit), scaled.admits (above * unit) with
  | true, true =>
      if scaled.value - below * unit < above * unit - scaled.value then some below else some above
  | true, false => some below
  | false, true => some above
  | false, false => none

/-- Significant digits and the number of decimal places they are shifted by. -/
structure Digits where
  digits : Nat
  shift : Int
deriving DecidableEq, Repr

/-- Search the grids of the next `fuel` digit counts, coarsest first. Nines that
carry into one more digit leave the single digit one. -/
def Scaled.search (scaled : Scaled) (length : Nat) : Nat → Nat → Digits
  | 0, _ => ⟨scaled.value, -(places : Int)⟩
  | fuel + 1, count =>
      match scaled.nearest? (Nat.pow 10 (length - count)) with
      | some digits =>
          if digits = Nat.pow 10 count then ⟨1, length - (places : Int)⟩
          else ⟨digits, (length - count : Nat) - (places : Int)⟩
      | none => Scaled.search scaled length fuel (count + 1)

/-- The fewest digits that read back as the double; seventeen always do. -/
def Scaled.shortest (scaled : Scaled) : Digits :=
  scaled.search (toString scaled.value).length 17 1

/-- Write digits positionally. -/
def Digits.text (number : Digits) : String :=
  let written := (toString number.digits).toList
  if 0 ≤ number.shift then
    String.ofList (written ++ List.replicate number.shift.toNat '0')
  else
    let fraction := (-number.shift).toNat
    let padded := List.replicate (fraction + 1 - written.length) '0' ++ written
    String.ofList
      (padded.take (padded.length - fraction) ++ '.' :: padded.drop (padded.length - fraction))

/-- The text of a number. -/
def text (number : Number) : String :=
  if number.isNaN then "NaN"
  else
    let sign := if number.isSigned then "-" else ""
    if number.magnitude = 0 then sign ++ "0"
    else if number.isInfinite then sign ++ "inf"
    else sign ++ (Scaled.ofBits number.magnitude.toNat).shortest.text

end CharacterSheet.Number
