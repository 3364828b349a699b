/-
  Bytes read as UTF-8 without ever failing.

  `lossyText` reads well-formed sequences as their characters.  Bytes that no
  well-formed sequence can hold are shown by the replacement character
  U+FFFD, once for each longest piece that could still have become a
  sequence: a sequence that breaks off is shown by one replacement, and the
  byte at which it breaks off is read afresh.

  The reader takes one byte at a time.  Between two bytes of a sequence it
  knows the range of the byte that has to come next and how many more follow
  it; the range after the first byte rules out overlong forms, surrogates and
  values above U+10FFFF.
-/
import BasicListing.Text.Basic

namespace BasicListing

namespace Utf8

/-- The character shown for bytes that are not UTF-8. -/
def replacement : Char := Char.ofNat 0xFFFD

/-- A sequence that has been begun: the range of its next byte, the number of bytes after that
    one, and the value of the bits read so far. -/
structure Sequence where
  low : UInt8
  high : UInt8
  more : Nat
  value : Nat

/-- The sequence begun by a byte, if that byte begins a longer sequence. -/
def Sequence.begin? (b : UInt8) : Option Sequence :=
  if 0xC2 ≤ b ∧ b ≤ 0xDF then some ⟨0x80, 0xBF, 0, b.toNat - 0xC0⟩
  else if b = 0xE0 then some ⟨0xA0, 0xBF, 1, 0⟩
  else if b = 0xED then some ⟨0x80, 0x9F, 1, 0x0D⟩
  else if 0xE1 ≤ b ∧ b ≤ 0xEF then some ⟨0x80, 0xBF, 1, b.toNat - 0xE0⟩
  else if b = 0xF0 then some ⟨0x90, 0xBF, 2, 0⟩
  else if 0xF1 ≤ b ∧ b ≤ 0xF3 then some ⟨0x80, 0xBF, 2, b.toNat - 0xF0⟩
  else if b = 0xF4 then some ⟨0x80, 0x8F, 2, 4⟩
  else none

/-- The value of a sequence after its next byte. -/
def Sequence.extend (s : Sequence) (b : UInt8) : Nat := s.value * 64 + (b.toNat - 0x80)

/-- What the reader knows: the characters read, last first, and the sequence it is in. -/
structure Reader where
  chars : Text := []
  inside : Option Sequence := none

/-- Read a byte that stands at the start of a character. -/
def Reader.start (chars : Text) (b : UInt8) : Reader :=
  if b < 0x80 then { chars := Char.ofNat b.toNat :: chars }
  else match Sequence.begin? b with
    | some s => { chars, inside := some s }
    | none => { chars := replacement :: chars }

/-- Read one byte. -/
def Reader.step (r : Reader) (b : UInt8) : Reader :=
  match r.inside with
  | none => .start r.chars b
  | some s =>
    if s.low ≤ b ∧ b ≤ s.high then
      match s.more with
      | 0 => { chars := Char.ofNat (s.extend b) :: r.chars }
      | more + 1 => { chars := r.chars, inside := some ⟨0x80, 0xBF, more, s.extend b⟩ }
    else .start (replacement :: r.chars) b

/-- The characters read, in order; a sequence that is still open has broken off. -/
def Reader.text (r : Reader) : Text :=
  match r.inside with
  | none => r.chars.reverse
  | some _ => (replacement :: r.chars).reverse

end Utf8

/-- Bytes read as UTF-8, with U+FFFD for what is not. -/
def lossyText (bytes : List UInt8) : Text := (bytes.foldl Utf8.Reader.step {}).text

end BasicListing
