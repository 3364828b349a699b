/-
  Memory images of tokenized programs.

  A line begins with a header of four bytes: the link, which is the address
  of the line after it, and its number, both with the low byte first.  The
  body follows, up to a zero byte.  A link of zero ends the program.

  The links are addresses in memory, so the first of them tells where the
  image was loaded (`Image.origin`).
-/
import BasicListing.Token

namespace BasicListing

/-- The bytes of a program in memory, or of what is taken for one. -/
abbrev Image := List UInt8

/-- The sixteen-bit word with the given low and high byte. -/
def word (low high : UInt8) : UInt16 := low.toUInt16 + 256 * high.toUInt16

/-- The number of bytes in the header of a line. -/
def headerSize : Nat := 4

/-- The size of pieces of the given sizes that stand one behind the other: their sum. -/
def total (sizes : List Nat) : Nat :=
  -- The instances are named, so that the sum is the same one where Mathlib has its own zero.
  @List.sum Nat instAddNat Zero.ofOfNat0 sizes

@[simp] theorem total_nil : total [] = 0 := List.sum_nil

@[simp] theorem total_cons (n : Nat) (sizes : List Nat) : total (n :: sizes) = n + total sizes :=
  List.sum_cons

@[simp] theorem total_append (sizes sizes' : List Nat) :
    total (sizes ++ sizes') = total sizes + total sizes' :=
  List.sum_append_nat

namespace Image

/-- The length of the line that an image begins with: its header, its body and the zero byte,
    which is counted even if the image ends without it.  It is zero where there is no link, or
    where the link is zero. -/
def firstLineSize : Image → Nat
  | low :: high :: rest =>
    if word low high = 0 then 0
    else headerSize + 1 + ((rest.drop 2).takeWhile (· != Code.endOfLine)).length
  | _ => 0

/-- The address at which an image was loaded: the first link less the length of the first
    line. -/
def origin : Image → UInt16
  | low :: high :: rest => word low high - UInt16.ofNat (firstLineSize (low :: high :: rest))
  | _ => 0

/-- The `length` bytes of an image from `offset` on. -/
def slice (image : Image) (offset length : Nat) : List UInt8 := (image.drop offset).take length

end Image

end BasicListing
