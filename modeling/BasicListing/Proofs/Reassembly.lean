/-
  Disassembled code can be assembled again, without looking at its bytes.

  * `withoutBytes`: a row of a disassembly without the column of its bytes.
  * `assemble?`: an assembler for such rows.  It looks up the operation with
    the name in the row whose operand has the same pattern, that is, the same
    text but for its digits.
  * `Operation.nodup_patterns`: no two operations have the same name and the
    same pattern, so that there is only one to be found.
  * `assemble?_sweep`: the assembler gives back the code.  So no two codes
    have the same rows, even without their bytes
    (`Disassembler.standard_withoutBytes_inj`).
-/
import BasicListing.Image.Store
import BasicListing.Proofs.Bounds
import BasicListing.Proofs.Hexadecimal
import BasicListing.Proofs.Numerals
import BasicListing.Proofs.RoundTrip
import Mathlib.Data.List.Nodup

namespace BasicListing

/-! ## An assembler -/

/-- The bytes of which a text has the digits, two for each. -/
def readPairs? : Text → Option (List UInt8)
  | [] => some []
  | [_] => none
  | c :: d :: t => do
    let b ← readHexByte? [c, d]
    let bytes ← readPairs? t
    return b :: bytes

/-- What the text of an operand has besides the values of its digits. -/
def pattern (t : Text) : Text := t.map fun c => if isHexDigit c then '0' else c

/-- The value of the digits in the text of an operand. -/
def operandValue (t : Text) : UInt16 :=
  UInt16.ofNat ((readDigits? 16 (t.filter isHexDigit)).getD 0)

/-- The pattern of the operands in an addressing mode. -/
def AddressingMode.pattern (mode : AddressingMode) : Text :=
  BasicListing.pattern (mode.operandText 0 0 0)

/-- The bytes of an operand with the given value, behind an operation code at `address`. -/
def AddressingMode.operandBytes (mode : AddressingMode) (address value : UInt16) : List UInt8 :=
  if mode = .relative then [(value - (address + 2)).toUInt8]
  else (wordBytes value).take mode.operandSize

/-- The operation with the given name and an operand like the given one, and its code. -/
def Operation.find? (name operand : Text) : Option (UInt8 × Operation) :=
  table.find? fun entry =>
    (entry.2.mnemonic.text, entry.2.mode.pattern) = (name, pattern operand)

/-- The bytes of the instruction in a row, in which they do not stand. -/
def assembleRow? (row : Text) : Option (List UInt8) :=
  let name := (row.drop 7).take 3
  let operand := row.drop 11
  if name = "DFB".toList ∨ name = "HEX".toList then readPairs? (operand.filter isHexDigit)
  else do
    let address ← readDigits? 16 (row.take 4)
    let entry ← Operation.find? name operand
    return entry.1 :: entry.2.mode.operandBytes (UInt16.ofNat address) (operandValue operand)

/-- The code in some rows, in which its bytes do not stand. -/
def assemble? (rows : List Text) : Option (List UInt8) :=
  (rows.mapM assembleRow?).map List.flatten

/-- A row of a disassembly without the column of its bytes. -/
def withoutBytes (row : Text) : Text := row.take 6 ++ row.drop 15

/-! ## Operands -/

theorem readPairs?_flatMap (bytes : List UInt8) :
    readPairs? (bytes.flatMap hexByte) = some bytes := by
  induction bytes with
  | nil => rfl
  | cons b bytes ih =>
    have hread : readHexByte? [hexDigit (b.toNat / 16), hexDigit (b.toNat % 16)] = some b :=
      readHexByte?_hexByte b
    rw [List.flatMap_cons, hexByte, List.cons_append, List.cons_append, List.nil_append, readPairs?,
      hread, ih]
    rfl

theorem filter_hexByte (b : UInt8) : (hexByte b).filter isHexDigit = hexByte b :=
  List.filter_eq_self.2 fun _ => isHexDigit_of_mem_hexByte

theorem filter_hexWord (w : UInt16) : (hexWord w).filter isHexDigit = hexWord w :=
  List.filter_eq_self.2 fun _ => isHexDigit_of_mem_hexWord

theorem filter_flatMap_hexByte (bytes : List UInt8) :
    (bytes.flatMap hexByte).filter isHexDigit = bytes.flatMap hexByte := by
  simp only [List.filter_flatMap, filter_hexByte]

theorem pattern_append (t u : Text) : pattern (t ++ u) = pattern t ++ pattern u := List.map_append

theorem pattern_eq_replicate {t : Text} (h : ∀ c ∈ t, isHexDigit c = true) :
    pattern t = List.replicate t.length '0' := by
  rw [List.eq_replicate_iff]
  refine ⟨List.length_map _, fun c hc => ?_⟩
  obtain ⟨d, hd, rfl⟩ := List.mem_map.1 hc
  rw [if_pos (h d hd)]

theorem pattern_hexByte (b : UInt8) : pattern (hexByte b) = ['0', '0'] :=
  pattern_eq_replicate fun _ => isHexDigit_of_mem_hexByte

theorem pattern_hexWord (w : UInt16) : pattern (hexWord w) = ['0', '0', '0', '0'] :=
  pattern_eq_replicate fun _ => isHexDigit_of_mem_hexWord

/-- The text of an operand has the pattern of its mode, whatever its value. -/
theorem pattern_operandText (mode : AddressingMode) (address : UInt16) (low high : UInt8) :
    pattern (mode.operandText address low high) = mode.pattern := by
  cases mode <;>
    simp only [AddressingMode.pattern, AddressingMode.operandText, pattern_append, pattern_hexByte,
      pattern_hexWord]

/-- The distance of a branch is told by where it goes from where it is. -/
theorem branchDestination_sub (address : UInt16) (distance : UInt8) :
    (branchDestination address distance - (address + 2)).toUInt8 = distance := by
  have hextend : ∀ n : Fin 256,
      (UInt8.ofFin n).toInt8.toInt16.toUInt16.toUInt8 = UInt8.ofFin n := by
    decide +kernel
  rw [branchDestination, UInt16.add_comm, UInt16.add_sub_cancel]
  exact hextend distance.toFin

theorem wordBytes_word (low high : UInt8) : wordBytes (word low high) = [low, high] := by
  have hlow := low.toNat_lt
  have hhigh := high.toNat_lt
  rw [wordBytes, List.cons.injEq, List.cons.injEq, ← UInt8.toNat_inj, ← UInt8.toNat_inj]
  simp only [UInt16.toNat_toUInt8, UInt16.toNat_shiftRight, toNat_word, UInt16.reduceToNat,
    Nat.shiftRight_eq_div_pow, Nat.reduceMod, Nat.reducePow, and_true]
  omega

theorem AddressingMode.operandSize_le (mode : AddressingMode) : mode.operandSize ≤ 2 := by
  cases mode <;> decide

/-- The digits in the text of an operand are those of an address or of a byte. -/
theorem filter_operandText (mode : AddressingMode) (address : UInt16) (low high : UInt8) :
    (mode.operandText address low high).filter isHexDigit =
      if mode = .relative then hexWord (branchDestination address low)
      else match mode.operandSize with
        | 0 => []
        | 1 => hexByte low
        | _ => hexWord (word low high) := by
  have hmarks : isHexDigit '#' = false ∧ isHexDigit '$' = false ∧ isHexDigit '(' = false ∧
      isHexDigit ')' = false ∧ isHexDigit ',' = false ∧ isHexDigit 'X' = false ∧
      isHexDigit 'Y' = false := by
    decide
  cases mode <;>
    simp [AddressingMode.operandText, AddressingMode.operandSize, filter_hexByte, filter_hexWord,
      hmarks]

/-- The text of an operand tells its bytes, if the mode and the place of the operation are known. -/
theorem operandBytes_operandText (mode : AddressingMode) (address : UInt16) {operand : List UInt8}
    (h : operand.length = mode.operandSize) :
    mode.operandBytes address
        (operandValue (mode.operandText address (operand.getD 0 0) (operand.getD 1 0))) =
      operand := by
  rw [operandValue, filter_operandText, AddressingMode.operandBytes]
  by_cases hrelative : mode = .relative
  · subst hrelative
    obtain ⟨distance, rfl⟩ := List.length_eq_one_iff.1 h
    rw [if_pos rfl, if_pos rfl, readDigits?_hexWord, Option.getD_some, UInt16.ofNat_toNat,
      branchDestination_sub]
    rfl
  · rw [if_neg hrelative, if_neg hrelative, ← h]
    match operand, h with
    | [], _ => rfl
    | [low], _ =>
      change (wordBytes (UInt16.ofNat ((readDigits? 16 (hexByte low)).getD 0))).take 1 = [low]
      rw [readDigits?_hexByte, Option.getD_some]
      simp [wordBytes]
    | [low, high], _ =>
      change (wordBytes (UInt16.ofNat ((readDigits? 16 (hexWord (word low high))).getD 0))).take 2 =
        [low, high]
      rw [readDigits?_hexWord, Option.getD_some, UInt16.ofNat_toNat, wordBytes_word]
      rfl
    | _ :: _ :: _ :: operand, h =>
      have := mode.operandSize_le
      simp only [List.length_cons] at h
      omega

/-- The name of an operation and the pattern of its operand tell the operation.  Where two modes
    have the same pattern, as an address and the goal of a branch do, no name is used with both. -/
theorem Operation.nodup_patterns :
    (table.map fun entry => (entry.2.mnemonic.text, entry.2.mode.pattern)).Nodup := by
  -- Each pair is read as one number, since numbers are much faster to compare than texts.
  refine List.Nodup.of_map (fun key => (key.1 ++ key.2).foldl (fun n c => 128 * n + c.toNat) 0) ?_
  rw [List.map_map]
  decide +kernel

theorem Operation.find?_of_mem {code : UInt8} {op : Operation} (h : (code, op) ∈ table)
    {operand : Text} (hoperand : pattern operand = op.mode.pattern) :
    find? op.mnemonic.text operand = some (code, op) := by
  have hsome : (find? op.mnemonic.text operand).isSome := by
    rw [find?, List.find?_isSome]
    exact ⟨_, h, by simp [hoperand]⟩
  obtain ⟨entry, hentry⟩ := Option.isSome_iff_exists.1 hsome
  have hmem : entry ∈ table := List.mem_of_find?_eq_some hentry
  have hkey : (entry.2.mnemonic.text, entry.2.mode.pattern) =
      (op.mnemonic.text, pattern operand) := by
    simpa using List.find?_some hentry
  rw [hoperand] at hkey
  rw [hentry, List.inj_on_of_nodup_map nodup_patterns hmem h hkey]

/-! ## Texts without blanks -/

theorem isBlank_of_isHexDigit {c : Char} (h : isHexDigit c = true) : isBlank c = false := by
  have hbounds : 48 ≤ c.toNat ∧ c.toNat ≤ 102 := by
    simp only [isHexDigit, digitValue?] at h
    split_ifs at h with hdecimal hsmall hcapital
    · change 48 ≤ c.toNat ∧ c.toNat ≤ 57 at hdecimal
      omega
    · change 97 ≤ c.toNat ∧ c.toNat ≤ 102 at hsmall
      omega
    · change 65 ≤ c.toNat ∧ c.toNat ≤ 70 at hcapital
      omega
    · simp at h
  exact isBlank_of_visible (by omega) (by omega)

theorem solid_hexByte (b : UInt8) : (hexByte b).Solid :=
  fun _ hc => isBlank_of_isHexDigit (isHexDigit_of_mem_hexByte hc)

theorem solid_hexWord (w : UInt16) : (hexWord w).Solid :=
  fun _ hc => isBlank_of_isHexDigit (isHexDigit_of_mem_hexWord hc)

theorem solid_mnemonic (m : Mnemonic) : m.text.Solid := by
  cases m <;> decide

theorem length_mnemonic (m : Mnemonic) : m.text.length = 3 := by
  cases m <;> rfl

theorem mnemonic_ne (m : Mnemonic) : ¬ (m.text = "DFB".toList ∨ m.text = "HEX".toList) := by
  cases m <;> decide

theorem solid_operandText (mode : AddressingMode) (address : UInt16) (low high : UInt8) :
    (mode.operandText address low high).Solid := by
  cases mode <;> simp only [AddressingMode.operandText, Text.solid_append, solid_hexByte,
    solid_hexWord] <;> decide

/-! ## Rows -/

/-- A row as a sweep makes it. -/
inductive CodeRow.Valid : CodeRow → Prop
  | operation (address : UInt16) {code : UInt8} {op : Operation} {operand : List UInt8}
    (hcode : Operation.ofByte? code = some op) (hsize : operand.length = op.mode.operandSize) :
    Valid ⟨address, code :: operand, .operation op⟩
  | data (address : UInt16) (b : UInt8) : Valid ⟨address, [b], .data⟩
  | remainder (address : UInt16) (code : UInt8) {operand : List UInt8}
    (hsize : operand.length < 2) : Valid ⟨address, code :: operand, .remainder⟩

namespace CodeRow

theorem valid_ofBytes (address : UInt16) (b : UInt8) (rest : List UInt8) :
    (ofBytes address b rest).Valid := by
  unfold ofBytes
  split
  · exact .data address b
  · rename_i op hop
    simp only
    split_ifs with hsize
    · exact .operation address hop hsize
    · refine .remainder address b ?_
      have hmode := op.mode.operandSize_le
      have htake := List.length_take_le op.mode.operandSize rest
      omega

theorem Valid.length_bytes {row : CodeRow} (h : row.Valid) : row.bytes.length ≤ 3 := by
  cases h with
  | operation address hcode hsize =>
    rename_i op operand
    have hmode := op.mode.operandSize_le
    simp only [List.length_cons]
    omega
  | data => simp
  | remainder address code hsize =>
    simp only [List.length_cons]
    omega

theorem length_instruction (row : CodeRow) : row.instruction.length = 3 := by
  unfold instruction
  split
  · exact length_mnemonic _
  · rfl
  · rfl

theorem solid_instruction (row : CodeRow) : row.instruction.Solid := by
  unfold instruction
  split
  · exact solid_mnemonic _
  · decide
  · decide

theorem solid_operand (row : CodeRow) : row.operand.Solid := by
  have hbytes : Text.Solid (row.bytes.flatMap hexByte) := by
    intro c hc
    obtain ⟨b, -, hb⟩ := List.mem_flatMap.1 hc
    exact solid_hexByte b c hb
  unfold operand
  split
  · exact solid_operandText _ _ _ _
  · exact Text.solid_append.2 ⟨by decide, hbytes⟩
  · exact hbytes

/-- The instruction in a row: its name, and its operand if it has one. -/
def source (row : CodeRow) : Text :=
  row.instruction ++ if row.operand = [] then [] else ' ' :: row.operand

theorem text_eq (row : CodeRow) :
    row.text = (hexWord row.address ++ ": ".toList) ++
      (Text.padTo 9 ([' '].intercalate (row.bytes.map hexByte)) ++ ' ' :: row.source) := by
  set start := hexWord row.address ++ ": ".toList ++
    Text.padTo 9 ([' '].intercalate (row.bytes.map hexByte)) ++ [' '] with hstart
  have hpad : Text.padTo 4 row.instruction = row.instruction ++ [' '] := by
    rw [Text.padTo, row.printable_instruction.width_eq, length_instruction]
    rfl
  have hname : row.instruction ≠ [] := List.length_pos_iff.1 (by rw [length_instruction]; omega)
  rw [text, source, hpad]
  split_ifs with hoperand
  · have htrim := Text.trimEnd_append (t := start) row.solid_instruction hname (Text.blank_spaces 1)
    simpa [hoperand, hstart, Text.spaces] using htrim
  · have htrim := Text.trimEnd_append (t := start ++ row.instruction ++ [' ']) row.solid_operand
      hoperand (Text.blank_spaces 0)
    simpa [hstart, Text.spaces] using htrim

theorem length_intercalate_hexByte (bytes : List UInt8) :
    ([' '].intercalate (bytes.map hexByte)).length ≤ 3 * bytes.length := by
  induction bytes with
  | nil => simp
  | cons b bytes ih =>
    cases bytes with
    | nil => simp
    | cons b' bytes =>
      rw [List.map_cons, List.map_cons, List.intercalate_cons_cons, ← List.map_cons]
      simp only [List.length_append, length_hexByte, List.length_cons, List.length_nil] at ih ⊢
      omega

theorem Valid.length_padTo {row : CodeRow} (h : row.Valid) :
    (Text.padTo 9 ([' '].intercalate (row.bytes.map hexByte))).length = 9 := by
  have hlength := length_intercalate_hexByte row.bytes
  have hbytes := h.length_bytes
  rw [Text.padTo, (printable_hexBytes row.bytes).width_eq, List.length_append, Text.spaces,
    List.length_replicate]
  omega

theorem Valid.withoutBytes_text {row : CodeRow} (h : row.Valid) :
    withoutBytes row.text = hexWord row.address ++ ": ".toList ++ ' ' :: row.source := by
  have hlabel : (hexWord row.address ++ ": ".toList).length = 6 := rfl
  rw [text_eq, withoutBytes, List.take_left' hlabel, show 15 = 6 + 9 from rfl, ← List.drop_drop,
    List.drop_left' hlabel, List.drop_left' h.length_padTo]

/-- Where the parts of a row stand that has no bytes in it. -/
theorem columns_source (row : CodeRow) {t : Text}
    (ht : t = hexWord row.address ++ ": ".toList ++ ' ' :: row.source) :
    t.take 4 = hexWord row.address ∧ (t.drop 7).take 3 = row.instruction ∧
      t.drop 11 = row.operand := by
  have hname := row.length_instruction
  have hdrop : t.drop 7 = row.source := by rw [ht]; rfl
  have hoperand : row.source.drop 4 = row.operand := by
    rw [source, show 4 = row.instruction.length + 1 by omega, ← List.drop_drop, List.drop_left]
    split_ifs with hnone
    · rw [hnone]
      rfl
    · rfl
  refine ⟨?_, ?_, ?_⟩
  · rw [ht, List.append_assoc, List.take_left' (length_hexWord _)]
  · rw [hdrop, source, List.take_left' hname]
  · rw [← hoperand, ← hdrop, List.drop_drop]

theorem Valid.assembleRow?_text {row : CodeRow} (h : row.Valid) :
    assembleRow? (withoutBytes row.text) = some row.bytes := by
  obtain ⟨haddress, hname, hoperand⟩ := row.columns_source h.withoutBytes_text
  rw [assembleRow?, haddress, hname, hoperand]
  cases h with
  | operation address hcode hsize =>
    rename_i code op operand
    have hentry : (code, op) ∈ Operation.table := by
      obtain ⟨_, _, htable, -⟩ := List.lookup_eq_some_iff.1 hcode
      simp [htable]
    have hpattern := pattern_operandText op.mode address (operand.getD 0 0) (operand.getD 1 0)
    have hbytes := operandBytes_operandText op.mode address hsize
    have hfind := Operation.find?_of_mem hentry hpattern
    change (if op.mnemonic.text = "DFB".toList ∨ op.mnemonic.text = "HEX".toList then _ else _) = _
    rw [if_neg (mnemonic_ne op.mnemonic), readDigits?_hexWord]
    change ((Operation.find? op.mnemonic.text (op.mode.operandText address (operand.getD 0 0)
      (operand.getD 1 0))).bind fun entry => some (entry.1 :: _)) = _
    rw [hfind, Option.bind_some, UInt16.ofNat_toNat]
    exact congrArg (some <| code :: ·) hbytes
  | data address b =>
    change readPairs? ((['$'] ++ [b].flatMap hexByte).filter isHexDigit) = some [b]
    rw [List.filter_append, filter_flatMap_hexByte]
    exact readPairs?_flatMap [b]
  | remainder address code hsize =>
    rename_i operand
    change readPairs? (((code :: operand).flatMap hexByte).filter isHexDigit) =
      some (code :: operand)
    rw [filter_flatMap_hexByte, readPairs?_flatMap]

/-- A row takes its bytes from the front of the code, and the sweep goes on behind them. -/
theorem bytes_ofBytes (address : UInt16) (b : UInt8) (rest : List UInt8) :
    let row := ofBytes address b rest
    row.bytes ++ rest.drop (row.bytes.length - 1) = b :: rest := by
  have htake : ∀ n, rest.take n ++ rest.drop (rest.take n).length = rest :=
    fun n => List.prefix_iff_eq_append.1 (List.take_prefix n rest)
  simp only [ofBytes]
  split
  · rfl
  · split_ifs
    all_goals exact congrArg (b :: ·) (htake _)

end CodeRow

/-! ## Sweeps -/

/-- The rows of a sweep have all bytes of the code, in their order. -/
theorem flatMap_bytes_sweep (address : UInt16) (bytes : List UInt8) :
    (sweep address bytes).flatMap CodeRow.bytes = bytes := by
  have hbehind : ∀ above, (sweepBehind above address bytes).flatMap CodeRow.bytes =
      above.reverse.flatMap CodeRow.bytes ++ bytes := by
    intro above
    fun_induction sweepBehind above address bytes with
    | case1 above => rw [List.append_nil]
    | case2 above address b rest row ih =>
      rw [ih, List.reverse_cons, List.flatMap_append, List.flatMap_singleton, List.append_assoc,
        CodeRow.bytes_ofBytes]
  exact hbehind []

theorem assemble?_of_valid {rows : List CodeRow} (h : ∀ row ∈ rows, row.Valid) :
    assemble? (rows.map fun row => withoutBytes row.text) = some (rows.flatMap CodeRow.bytes) := by
  have hread : (rows.map fun row => withoutBytes row.text).mapM assembleRow? =
      some (rows.map CodeRow.bytes) := by
    induction rows with
    | nil => rfl
    | cons row rows ih =>
      obtain ⟨hrow, hrows⟩ := List.forall_mem_cons.1 h
      rw [List.map_cons, List.mapM_cons, hrow.assembleRow?_text, ih hrows]
      rfl
  rw [assemble?, hread, Option.map_some, List.flatMap]

theorem assemble?_sweep (address : UInt16) (bytes : List UInt8) :
    assemble? ((sweep address bytes).map fun row => withoutBytes row.text) = some bytes := by
  rw [assemble?_of_valid (sweep_forall CodeRow.valid_ofBytes address bytes), flatMap_bytes_sweep]

/-- **Disassembled code can be assembled again** from the addresses, the names of the operations
    and their operands: no two codes have the same rows but for the columns of their bytes. -/
theorem Disassembler.standard_withoutBytes_inj (base : UInt16) (x y : List UInt8) :
    (Disassembler.standard base x).map (List.map withoutBytes) =
      (Disassembler.standard base y).map (List.map withoutBytes) ↔ x = y := by
  have hread : ∀ bytes, (Disassembler.standard base bytes).map (List.map withoutBytes) =
      .ok ((sweep base bytes).map fun row => withoutBytes row.text) := by
    intro bytes
    simp [Disassembler.standard, Except.map]
  constructor
  · intro h
    rw [hread, hread, Except.ok.injEq] at h
    have hassemble := assemble?_sweep base x
    rw [h, assemble?_sweep, Option.some.injEq] at hassemble
    exact hassemble.symm
  · rintro rfl
    rfl

end BasicListing
