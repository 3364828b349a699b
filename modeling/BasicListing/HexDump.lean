/-
  Bytes in rows of sixteen: the address of the first of them, the bytes in
  hexadecimal, and twice the same bytes as text, once as they are and once
  without their high bit.
-/
import BasicListing.Text.Numeral

namespace BasicListing

/-- The number of bytes in a full row. -/
def bytesPerRow : Nat := 16

/-- A byte as an ASCII character, and a dot if it is none that can be printed. -/
def positiveChar (b : UInt8) : Char :=
  if 32 ≤ b ∧ b < 127 then Char.ofNat b.toNat else '.'

/-- A byte with its high bit set as the ASCII character it is without it, and a dot if it is none
    that can be printed. -/
def negativeChar (b : UInt8) : Char :=
  if 160 ≤ b ∧ b < 255 then Char.ofNat (b.toNat - 128) else '.'

/-- A row of at most sixteen bytes. -/
def hexRow (address : UInt16) (bytes : List UInt8) : Text :=
  let missing := bytesPerRow - bytes.length
  hexWord address ++ " : ".toList ++ bytes.flatMap (fun b => hexByte b ++ [' ']) ++
    Text.spaces (3 * missing) ++ "|+| ".toList ++ bytes.map positiveChar ++ [' '] ++
    Text.spaces missing ++ "|-| ".toList ++ bytes.map negativeChar

/-- The rows of some bytes, of which the first stands at `address`. -/
def hexRows (address : UInt16) : List UInt8 → List Text
  | [] => []
  | b :: rest =>
    hexRow address ((b :: rest).take bytesPerRow) ::
      hexRows (address + UInt16.ofNat bytesPerRow) ((b :: rest).drop bytesPerRow)
termination_by bytes => bytes.length
decreasing_by
  simp only [List.length_drop, List.length_cons, bytesPerRow]
  omega

/-- The text of the rows of some bytes, each row ended by a line feed. -/
def hexText (address : UInt16) (bytes : List UInt8) : Text :=
  (hexRows address bytes).flatMap (· ++ ['\n'])

end BasicListing
