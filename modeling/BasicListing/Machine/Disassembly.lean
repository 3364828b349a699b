/-
  Disassembly of 6502 code by a linear sweep.

  The sweep goes through the bytes in order and makes a row of each
  operation.  A byte that is no operation is shown as data (`DFB`); an
  operation whose operand is cut off by the end of the code is shown with all
  bytes that are left (`HEX`).

  * `CodeRow`: a row of a disassembly, before it is written.
  * `sweep`: the rows of some bytes; `sweep_cons` says how it goes on.
  * `Disassembler`: anything that makes rows of text out of code.
-/
import BasicListing.Image
import BasicListing.Machine.Operation
import BasicListing.Text.Blank
import BasicListing.Text.Numeral

namespace BasicListing

/-! ## Operands -/

/-- The address that a branch at `address` goes to: its operand is a signed distance from the
    operation behind the branch. -/
def branchDestination (address : UInt16) (distance : UInt8) : UInt16 :=
  address + 2 + distance.toInt8.toInt16.toUInt16

/-- The operand of an operation at `address`, where `low` and `high` are the bytes behind its
    code, as far as its mode has them. -/
def AddressingMode.operandText (mode : AddressingMode) (address : UInt16) (low high : UInt8) :
    Text :=
  match mode with
  | .implied | .accumulator => []
  | .immediate => "#$".toList ++ hexByte low
  | .zeroPage => "$".toList ++ hexByte low
  | .zeroPageX => "$".toList ++ hexByte low ++ ",X".toList
  | .zeroPageY => "$".toList ++ hexByte low ++ ",Y".toList
  | .relative => "$".toList ++ hexWord (branchDestination address low)
  | .absolute => "$".toList ++ hexWord (word low high)
  | .absoluteX => "$".toList ++ hexWord (word low high) ++ ",X".toList
  | .absoluteY => "$".toList ++ hexWord (word low high) ++ ",Y".toList
  | .indirect => "($".toList ++ hexWord (word low high) ++ ")".toList
  | .indirectX => "($".toList ++ hexByte low ++ ",X)".toList
  | .indirectY => "($".toList ++ hexByte low ++ "),Y".toList

/-! ## Rows -/

/-- What the bytes of a row are. -/
inductive CodeKind where
  | operation (op : Operation)
  /-- A byte that is no operation. -/
  | data
  /-- An operation without all of its operand, at the end of the code. -/
  | remainder
  deriving DecidableEq, Repr

/-- A row of a disassembly. -/
structure CodeRow where
  address : UInt16
  bytes : List UInt8
  kind : CodeKind
  deriving DecidableEq, Repr

namespace CodeRow

/-- The name in the operation column. -/
def instruction (row : CodeRow) : Text :=
  match row.kind with
  | .operation op => op.mnemonic.text
  | .data => "DFB".toList
  | .remainder => "HEX".toList

/-- The text in the operand column. -/
def operand (row : CodeRow) : Text :=
  match row.kind with
  | .operation op =>
    op.mode.operandText row.address (row.bytes.getD 1 0) (row.bytes.getD 2 0)
  | .data => "$".toList ++ row.bytes.flatMap hexByte
  | .remainder => row.bytes.flatMap hexByte

/-- The text of a row: its address, its bytes, and the instruction they make. -/
def text (row : CodeRow) : Text :=
  Text.trimEnd (hexWord row.address ++ ": ".toList ++
    Text.padTo 9 ([' '].intercalate (row.bytes.map hexByte)) ++ " ".toList ++
    Text.padTo 4 row.instruction ++ row.operand)

/-- The row that some code at `address` begins with, if `b` is its first byte and `rest` are the
    others. -/
def ofBytes (address : UInt16) (b : UInt8) (rest : List UInt8) : CodeRow :=
  match Operation.ofByte? b with
  | none => ⟨address, [b], .data⟩
  | some op =>
    let operand := rest.take op.mode.operandSize
    if operand.length = op.mode.operandSize then ⟨address, b :: operand, .operation op⟩
    else ⟨address, b :: operand, .remainder⟩

end CodeRow

/-- The rows of the code at `address`, behind those in `above`, which are given last first. -/
def sweepBehind (above : List CodeRow) (address : UInt16) : List UInt8 → List CodeRow
  | [] => above.reverse
  | b :: rest =>
    let row := CodeRow.ofBytes address b rest
    sweepBehind (row :: above) (address + UInt16.ofNat row.bytes.length)
      (rest.drop (row.bytes.length - 1))
termination_by bytes => bytes.length
decreasing_by
  simp only [List.length_drop, List.length_cons]
  omega

/-- The rows of the code in `bytes`, which stands at `address`. -/
def sweep (address : UInt16) (bytes : List UInt8) : List CodeRow := sweepBehind [] address bytes

theorem sweepBehind_eq (above : List CodeRow) (address : UInt16) (bytes : List UInt8) :
    sweepBehind above address bytes = above.reverse ++ sweep address bytes := by
  suffices h : ∀ n (rows : List CodeRow) (a : UInt16) (bs : List UInt8), bs.length = n →
      sweepBehind rows a bs = rows.reverse ++ sweepBehind [] a bs from h _ _ _ _ rfl
  intro n
  induction n using Nat.strongRecOn with
  | _ n ih =>
    intro rows a bs hn
    cases bs with
    | nil => simp [sweepBehind]
    | cons b rest =>
      have hlt : (rest.drop ((CodeRow.ofBytes a b rest).bytes.length - 1)).length < n := by
        simp only [List.length_drop, ← hn, List.length_cons]
        omega
      rw [sweepBehind, sweepBehind, ih _ hlt _ _ _ rfl, ih _ hlt [_] _ _ rfl]
      simp

@[simp] theorem sweep_nil (address : UInt16) : sweep address [] = [] := by
  simp [sweep, sweepBehind]

/-- A sweep makes a row of the first bytes and goes on behind them. -/
theorem sweep_cons (address : UInt16) (b : UInt8) (rest : List UInt8) :
    sweep address (b :: rest) =
      let row := CodeRow.ofBytes address b rest
      row :: sweep (address + UInt16.ofNat row.bytes.length)
        (rest.drop (row.bytes.length - 1)) := by
  rw [sweep, sweepBehind, sweepBehind_eq]
  rfl

/-! ## Disassemblers -/

/-- Why some code could not be disassembled. -/
inductive CodeFault where
  | outOfRange
  deriving DecidableEq, Repr

/-- The words that report why some code could not be disassembled. -/
def CodeFault.message : CodeFault → Text
  | .outOfRange => "Address out of range".toList

/-- Anything that makes rows of text out of code at an address. -/
abbrev Disassembler := UInt16 → List UInt8 → Except CodeFault (List Text)

/-- The disassembler for the 6502. -/
def Disassembler.standard : Disassembler := fun address bytes =>
  .ok ((sweep address bytes).map CodeRow.text)

end BasicListing
