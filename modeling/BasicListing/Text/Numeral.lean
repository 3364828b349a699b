/-
  Numbers as text.

  * `decimal`, `hexByte`, `hexWord`, `hexLength`: how numbers are written.
    Hexadecimal digits above nine are capital letters.
  * `readNumeral?`: how they are read, in a radix of up to sixteen and up to a
    greatest value.  One plus sign may stand before the digits.
-/
import BasicListing.Text.Basic

namespace BasicListing

/-! ## Writing -/

/-- A number in decimal digits, without leading zeros. -/
def decimal (n : Nat) : Text := Nat.toDigits 10 n

/-- The hexadecimal digit of a value below sixteen. -/
def hexDigit (n : Nat) : Char := "0123456789ABCDEF".toList.getD n '0'

/-- A byte in two hexadecimal digits. -/
def hexByte (b : UInt8) : Text := [hexDigit (b.toNat / 16), hexDigit (b.toNat % 16)]

/-- An address in four hexadecimal digits. -/
def hexWord (w : UInt16) : Text :=
  [hexDigit (w.toNat / 4096), hexDigit (w.toNat / 256 % 16), hexDigit (w.toNat / 16 % 16),
   hexDigit (w.toNat % 16)]

/-- A length in hexadecimal digits: four of them, or more if it needs more. -/
def hexLength (n : Nat) : Text := ((Nat.toDigits 16 n).map Char.toUpper).leftpad 4 '0'

/-! ## Reading -/

/-- The value of a digit in a radix of up to sixteen; letters count in either case. -/
def digitValue? (radix : Nat) (c : Char) : Option Nat :=
  let value? :=
    if '0' ≤ c ∧ c ≤ '9' then some (c.toNat - '0'.toNat)
    else if 'a' ≤ c ∧ c ≤ 'f' then some (c.toNat - 'a'.toNat + 10)
    else if 'A' ≤ c ∧ c ≤ 'F' then some (c.toNat - 'A'.toNat + 10)
    else none
  value?.filter (· < radix)

/-- The number that `value` becomes when the digit `c` is written behind it. -/
def appendDigit? (radix : Nat) (value : Nat) (c : Char) : Option Nat :=
  (digitValue? radix c).map (radix * value + ·)

/-- The value of one or more digits. -/
def readDigits? (radix : Nat) : Text → Option Nat
  | [] => none
  | t => t.foldlM (appendDigit? radix) 0

/-- The value of a numeral: at most one plus sign, then one or more digits, with a value of at
    most `greatest`. -/
def readNumeral? (radix greatest : Nat) : Text → Option Nat
  | '+' :: t => (readDigits? radix t).filter (· ≤ greatest)
  | t => (readDigits? radix t).filter (· ≤ greatest)

/-- The value of a numeral that fits in sixteen bits. -/
def readWord? (radix : Nat) (t : Text) : Option UInt16 :=
  (readNumeral? radix 0xFFFF t).map UInt16.ofNat

end BasicListing
