/-
  Numbers in JSON text, and whether a double can hold them.

  Only whole numbers from 0 to 2^64 - 1, written without sign, fraction and
  exponent, are used by their value.  Any other number is read only to see
  that it is well formed and not beyond the range of doubles.

  The range is decided on what is left of a number after its digits have been
  gathered in a significand of 64 bits: digits of the whole part that no
  longer fit raise the exponent, digits of the fraction that no longer fit
  are dropped.  The number is then the significand, rounded to a double,
  times a power of ten, rounded to a double, and it is out of range if that
  product rounds to infinity.
-/

namespace BasicListing.Json

/-- The greatest significand, and the greatest number that is used by its value. -/
def greatestWhole : Nat := Nat.pow 2 64 - 1

/-- The greatest exponent that is counted; what is written beyond it is as good as infinite. -/
def greatestExponent : Nat := Nat.pow 2 31 - 1

/-- Where a number that is being read has got to. -/
inductive NumeralPart where
  /-- Behind a minus sign. -/
  | sign
  /-- Behind a leading zero, which no digit may follow. -/
  | zero
  | whole
  /-- Behind the point. -/
  | point
  | fraction
  /-- Behind the `e`. -/
  | exponentMark
  /-- Behind the sign of the exponent. -/
  | exponentSign
  | exponent
  deriving DecidableEq, Repr

/-- A number that is being read. -/
structure Numeral where
  part : NumeralPart
  negative : Bool := false
  /-- The digits gathered so far. -/
  significand : Nat := 0
  /-- A digit of this part did not fit into the significand. -/
  overflowed : Bool := false
  /-- The power of ten that the significand is to be taken times, but for the exponent. -/
  scale : Int := 0
  exponentNegative : Bool := false
  exponent : Nat := 0

/-! ## The range of doubles -/

/-- A number rounded to a double, a half going to the even neighbour. -/
def roundToDouble (n : Nat) : Nat :=
  let unit := Nat.pow 2 (n.log2 - 52)
  let quotient := n / unit
  let remainder := n % unit
  if 2 * remainder > unit ∨ (2 * remainder = unit ∧ quotient % 2 = 1) then (quotient + 1) * unit
  else quotient * unit

/-- The least number that rounds to infinity. -/
def doubleLimit : Nat := Nat.pow 2 1024 - Nat.pow 2 970

/-- The greatest power of ten that is a double. -/
def greatestPower : Nat := 308

/-- A significand times a power of ten is within the range of doubles. -/
def isFinite (significand : Nat) : Int → Bool
  | .negSucc _ => true
  | .ofNat power =>
    significand == 0 ||
      (power ≤ greatestPower &&
        roundToDouble significand * roundToDouble (Nat.pow 10 power) < doubleLimit)

namespace Numeral

/-- Take a digit of the whole part. -/
def takeWhole (n : Numeral) (digit : Nat) : Numeral :=
  let next := 10 * n.significand + digit
  if n.overflowed || greatestWhole < next then
    { n with part := .whole, overflowed := true, scale := n.scale + 1 }
  else { n with part := .whole, significand := next }

/-- Begin the fraction, of which every digit is tried again. -/
def takePoint (n : Numeral) : Numeral := { n with part := .point, overflowed := false }

/-- Take a digit of the fraction.  The first that does not fit is dropped, with all that
    follow. -/
def takeFraction (n : Numeral) (digit : Nat) : Numeral :=
  let next := 10 * n.significand + digit
  if n.overflowed || greatestWhole < next then
    { n with part := .fraction, overflowed := true }
  else { n with part := .fraction, significand := next, scale := n.scale - 1 }

/-- Take a digit of the exponent. -/
def takeExponent (n : Numeral) (digit : Nat) : Numeral :=
  { n with part := .exponent, exponent := 10 * n.exponent + digit }

/-- The number is complete if it ends here. -/
def isComplete (n : Numeral) : Bool :=
  match n.part with
  | .zero | .whole | .fraction | .exponent => true
  | _ => false

/-- A complete number is within the range of doubles.  An exponent that is too great to be
    counted leaves only zero in range if it is positive, and anything if it is negative. -/
def isInRange (n : Numeral) : Bool :=
  if greatestExponent < n.exponent then n.significand == 0 || n.exponentNegative
  else
    isFinite n.significand
      (if n.exponentNegative then n.scale - n.exponent else n.scale + n.exponent)

/-- The value of a number that is used by its value. -/
def whole? (n : Numeral) : Option Nat :=
  match n.part with
  | .zero | .whole => if n.negative || n.overflowed then none else some n.significand
  | _ => none

end Numeral

end BasicListing.Json
