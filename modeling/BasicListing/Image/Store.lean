/-
  How lines are stored in memory.

  Each line is stored as its link, which is the address behind it, its number,
  its body and a zero byte.  Two zero bytes, where the next link would be, end
  the program.
-/
import BasicListing.Image

namespace BasicListing

/-- A line that is to be stored. -/
structure StoredLine where
  number : UInt16
  /-- The bytes of the line; a zero byte among them would end it. -/
  body : List UInt8
  deriving DecidableEq, Repr

/-- The number of bytes that a line takes in memory. -/
def StoredLine.size (line : StoredLine) : Nat := headerSize + line.body.length + 1

/-- The bytes of a word, the low one first. -/
def wordBytes (w : UInt16) : List UInt8 := [w.toUInt8, (w >>> 8).toUInt8]

/-- The bytes of some lines stored one behind the other from `address` on. -/
def storeLines (address : UInt16) : List StoredLine → List UInt8
  | [] => []
  | line :: rest =>
    let next := address + UInt16.ofNat line.size
    wordBytes next ++ wordBytes line.number ++ line.body ++ Code.endOfLine :: storeLines next rest

/-- The image of a program whose first line is stored at `origin`. -/
def Image.store (origin : UInt16) (lines : List StoredLine) : Image :=
  storeLines origin lines ++ [0, 0]

@[simp] theorem length_wordBytes (w : UInt16) : (wordBytes w).length = 2 := rfl

/-- Stored lines take the bytes that each of them takes. -/
theorem length_storeLines (address : UInt16) (lines : List StoredLine) :
    (storeLines address lines).length = total (lines.map StoredLine.size) := by
  induction lines generalizing address with
  | nil => rfl
  | cons line rest ih =>
    simp only [storeLines, List.length_append, List.length_cons, length_wordBytes, ih,
      List.map_cons, total_cons, StoredLine.size, headerSize]
    omega

end BasicListing
