/-
  A linear sweep covers the code.

  * `CodeRow.Whole`: the rows that do not depend on what follows them.
  * `Sweeps`: whole rows one behind the other and, at the end, perhaps an
    operation without its operand.  These are the rows of a sweep, and of
    nothing else (`sweeps_iff`).
  * `Sweeps.append`: so code can be swept in parts, if none but the last ends
    within an operation.
  * `Disassembler.standard_covers`: what that says of the rows that are shown.
-/
import BasicListing.Proofs.CodeBytes

namespace BasicListing

/-! ## Whole rows -/

/-- A row with all bytes of its operation, or with a byte that is none. -/
inductive CodeRow.Whole : CodeRow → Prop
  | operation (address : UInt16) {code : UInt8} {op : Operation} {operand : List UInt8}
    (hcode : Operation.ofByte? code = some op) (hsize : operand.length = op.mode.operandSize) :
    Whole ⟨address, code :: operand, .operation op⟩
  | data (address : UInt16) {b : UInt8} (hnone : Operation.ofByte? b = none) :
    Whole ⟨address, [b], .data⟩

namespace CodeRow

/-- Whatever follows the bytes of a whole row, they make that row. -/
theorem Whole.exists_ofBytes_eq {row : CodeRow} (h : row.Whole) :
    ∃ b operand, row.bytes = b :: operand ∧
      ∀ rest, ofBytes row.address b (operand ++ rest) = row := by
  cases h with
  | operation address hcode hsize =>
    refine ⟨_, _, rfl, fun rest => ?_⟩
    simp [ofBytes, hcode, ← hsize]
  | data address hnone =>
    refine ⟨_, [], rfl, fun rest => ?_⟩
    simp [ofBytes, hnone]

theorem Whole.kind_ne {row : CodeRow} (h : row.Whole) : row.kind ≠ .remainder := by
  cases h <;> simp

/-- Code begins with a whole row, or it is an operation without all of its operand. -/
theorem exists_whole_or_remainder (address : UInt16) (b : UInt8) (rest : List UInt8) :
    (∃ (row : CodeRow) (behind : List UInt8), row.Whole ∧ row.address = address ∧
      b :: rest = row.bytes ++ behind) ∨
    ∃ op, Operation.ofByte? b = some op ∧ rest.length < op.mode.operandSize := by
  cases hop : Operation.ofByte? b with
  | none => exact .inl ⟨_, rest, .data address hop, rfl, rfl⟩
  | some op =>
    by_cases hsize : op.mode.operandSize ≤ rest.length
    · refine .inl ⟨_, rest.drop op.mode.operandSize,
        .operation address hop (List.length_take_of_le hsize), rfl, ?_⟩
      rw [List.cons_append, List.take_append_drop]
    · exact .inr ⟨op, rfl, by omega⟩

end CodeRow

/-! ## Sweeps -/

/-- The rows are those of a sweep through the bytes, the first of which stands at the address. -/
inductive Sweeps : UInt16 → List UInt8 → List CodeRow → Prop
  | nil (address : UInt16) : Sweeps address [] []
  | remainder (address : UInt16) {code : UInt8} {op : Operation} {operand : List UInt8}
    (hcode : Operation.ofByte? code = some op) (hsize : operand.length < op.mode.operandSize) :
    Sweeps address (code :: operand) [⟨address, code :: operand, .remainder⟩]
  | whole {row : CodeRow} {bytes : List UInt8} {rows : List CodeRow} (hrow : row.Whole)
    (hrows : Sweeps (row.address + UInt16.ofNat row.bytes.length) bytes rows) :
    Sweeps row.address (row.bytes ++ bytes) (row :: rows)

namespace Sweeps

variable {address : UInt16} {bytes : List UInt8} {rows : List CodeRow}

theorem sweep_eq (h : Sweeps address bytes rows) : sweep address bytes = rows := by
  induction h with
  | nil address => exact sweep_nil address
  | remainder address hcode hsize =>
    rw [sweep_cons]
    simp [CodeRow.ofBytes, hcode, List.take_of_length_le hsize.le, hsize.ne]
  | @whole row bytes rows hrow hrows ih =>
    obtain ⟨b, operand, hbytes, hofBytes⟩ := hrow.exists_ofBytes_eq
    rw [hbytes, List.cons_append, sweep_cons]
    simp only [hofBytes]
    rw [hbytes, List.length_cons, Nat.add_sub_cancel, List.drop_left, ← List.length_cons, ← hbytes,
      ih]

theorem exists_rows (address : UInt16) (bytes : List UInt8) :
    ∃ rows, Sweeps address bytes rows := by
  induction hn : bytes.length using Nat.strongRecOn generalizing address bytes with
  | _ n ih =>
    cases bytes with
    | nil => exact ⟨[], .nil address⟩
    | cons b rest =>
      obtain ⟨row, behind, hrow, rfl, hbytes⟩ | ⟨op, hop, hsize⟩ :=
        CodeRow.exists_whole_or_remainder address b rest
      · obtain ⟨first, operand, hfirst, -⟩ := hrow.exists_ofBytes_eq
        have hshorter : behind.length < n := by
          rw [← hn, hbytes, hfirst, List.cons_append, List.length_cons, List.length_append]
          omega
        obtain ⟨rows, hrows⟩ := ih _ hshorter (row.address + UInt16.ofNat row.bytes.length) behind
          rfl
        rw [hbytes]
        exact ⟨_, .whole hrow hrows⟩
      · exact ⟨_, .remainder address hop hsize⟩

end Sweeps

theorem sweeps_iff {address : UInt16} {bytes : List UInt8} {rows : List CodeRow} :
    Sweeps address bytes rows ↔ sweep address bytes = rows := by
  refine ⟨Sweeps.sweep_eq, ?_⟩
  rintro rfl
  obtain ⟨rows, hrows⟩ := Sweeps.exists_rows address bytes
  rwa [hrows.sweep_eq]

namespace Sweeps

variable {address : UInt16} {bytes more : List UInt8} {rows behind : List CodeRow}

/-- Only the last row can be an operation without its operand, and it has all bytes that are left
    of that. -/
theorem remainder_last (h : Sweeps address bytes rows) {i : Nat} {row : CodeRow}
    (hi : rows[i]? = some row) (hkind : row.kind = .remainder) :
    i + 1 = rows.length ∧ ∃ code operand op, row.bytes = code :: operand ∧
      Operation.ofByte? code = some op ∧ operand.length < op.mode.operandSize := by
  induction h generalizing i with
  | nil => simp at hi
  | remainder address hcode hsize =>
    obtain ⟨rfl, rfl⟩ : i = 0 ∧ _ = row := by simpa [List.getElem?_singleton] using hi
    exact ⟨rfl, _, _, _, rfl, hcode, hsize⟩
  | whole hrow hrows ih =>
    cases i with
    | zero =>
      obtain rfl := Option.some.inj hi
      exact absurd hkind hrow.kind_ne
    | succ i =>
      obtain ⟨hlast, hremainder⟩ := ih (by simpa using hi)
      exact ⟨by rw [List.length_cons, hlast], hremainder⟩

/-- If the last row is whole, all are. -/
theorem kind_ne_of_getLast? (h : Sweeps address bytes rows)
    (hend : ∀ row ∈ rows.getLast?, row.kind ≠ .remainder) :
    ∀ row ∈ rows, row.kind ≠ .remainder := by
  intro row hmem hkind
  obtain ⟨i, hi⟩ := List.getElem?_of_mem hmem
  obtain ⟨hlast, -⟩ := h.remainder_last hi hkind
  refine hend row ?_ hkind
  rw [Option.mem_def, List.getLast?_eq_getElem?, ← hlast, Nat.add_sub_cancel, hi]

/-- **Sweeping in parts.**  Whole rows do not depend on what follows, so the first part has the same
    rows with the second behind it, if all of them are whole. -/
theorem append (h : Sweeps address bytes rows) (hwhole : ∀ row ∈ rows, row.kind ≠ .remainder)
    (hmore : Sweeps (address + UInt16.ofNat bytes.length) more behind) :
    Sweeps address (bytes ++ more) (rows ++ behind) := by
  induction h with
  | nil => simpa using hmore
  | remainder => exact absurd rfl (hwhole _ List.mem_cons_self)
  | whole hrow hrows ih =>
    rw [List.length_append, ← add_ofNat_add] at hmore
    rw [List.append_assoc]
    exact .whole hrow (ih (fun row hmem => hwhole row (List.mem_cons_of_mem _ hmem)) hmore)

end Sweeps

/-! ## Rows of text -/

/-- A row of a disassembly with `HEX` for an operation. -/
def isRemainderRow (row : Text) : Bool := (row.drop 16).take 3 = "HEX".toList

theorem CodeRow.instruction_eq_hex_iff (row : CodeRow) :
    row.instruction = "HEX".toList ↔ row.kind = .remainder := by
  unfold instruction
  split
  · rename_i op hkind
    simp only [hkind, reduceCtorEq, iff_false]
    exact fun hname => mnemonic_ne op.mnemonic (.inr hname)
  · rename_i hkind
    simp [hkind]
  · rename_i hkind
    simp [hkind]

theorem CodeRow.Valid.isRemainderRow_text {row : CodeRow} (h : row.Valid) :
    isRemainderRow row.text = true ↔ row.kind = .remainder := by
  have hlabel : (hexWord row.address ++ ": ".toList).length = 6 := rfl
  rw [← row.instruction_eq_hex_iff, isRemainderRow, decide_eq_true_iff, text_eq,
    show 16 = 6 + (9 + 1) from rfl, ← List.drop_drop, List.drop_left' hlabel, ← List.drop_drop,
    List.drop_left' h.length_padTo, List.drop_one, List.tail_cons, source,
    List.take_left' row.length_instruction]

/-- **A disassembly covers the code.**  It does not fail, for any bytes at any address.

    * The bytes that its rows show are those of the code, one behind the other, and each row is
      labelled with the address of its first byte, which wraps at the end of the memory.
    * A `HEX` row can only be the last.  It shows one or two bytes: an operation code with fewer
      bytes behind it than its operand has.
    * If the last row is no `HEX` row, more code behind takes rows of its own, and the others stay
      as they are. -/
theorem Disassembler.standard_covers (base : UInt16) (bytes : List UInt8) :
    ∃ (rows : List Text) (chunks : List (List UInt8)),
      standard base bytes = .ok rows ∧
      rows.mapM readCodeRow? = some chunks ∧ chunks.flatten = bytes ∧
      rows.mapM rowLabel? = some ((placesFrom 0 (chunks.map List.length)).map (labelAt base)) ∧
      (∀ i row, rows[i]? = some row → isRemainderRow row = true →
        i + 1 = rows.length ∧ ∃ code operand op, chunks[i]? = some (code :: operand) ∧
          operand.length ≤ 1 ∧ Operation.ofByte? code = some op ∧
          operand.length < op.mode.operandSize) ∧
      ((∀ row ∈ rows.getLast?, isRemainderRow row = false) → ∀ more,
        ∃ behind, standard (base + UInt16.ofNat bytes.length) more = .ok behind ∧
          standard base (bytes ++ more) = .ok (rows ++ behind)) := by
  have hsweeps : Sweeps base bytes (sweep base bytes) := sweeps_iff.2 rfl
  have hvalid := sweep_forall CodeRow.valid_ofBytes base bytes
  have hlabels := mapM_rowLabel?_sweep base 0 bytes
  rw [show base + UInt16.ofNat 0 = base from UInt16.add_zero base] at hlabels
  refine ⟨(sweep base bytes).map CodeRow.text, (sweep base bytes).map CodeRow.bytes, rfl,
    mapM_readCodeRow?_sweep base bytes, ?_, ?_, ?_, ?_⟩
  · rw [← List.flatMap_def, flatMap_bytes_sweep]
  · rw [hlabels, List.map_map]
    rfl
  · intro i text hi hremainder
    rw [List.getElem?_map] at hi
    obtain ⟨row, hrow, rfl⟩ := Option.map_eq_some_iff.1 hi
    rw [(hvalid row (List.mem_of_getElem? hrow)).isRemainderRow_text] at hremainder
    obtain ⟨hlast, code, operand, op, hbytes, hcode, hsize⟩ :=
      hsweeps.remainder_last hrow hremainder
    have hmode := op.mode.operandSize_le
    refine ⟨by rwa [List.length_map], code, operand, op, ?_, by omega, hcode, hsize⟩
    rw [List.getElem?_map, hrow, ← hbytes]
    rfl
  · intro hend more
    refine ⟨_, rfl, ?_⟩
    have hwhole : ∀ row ∈ (sweep base bytes).getLast?, row.kind ≠ .remainder := by
      intro row hlast hkind
      have hshown := (hvalid row (List.mem_of_getLast? hlast)).isRemainderRow_text.2 hkind
      rw [hend row.text (by rw [List.getLast?_map, hlast]; rfl)] at hshown
      exact Bool.false_ne_true hshown
    have hmore : Sweeps (base + UInt16.ofNat bytes.length) more _ := sweeps_iff.2 rfl
    rw [standard, (hsweeps.append (hsweeps.kind_ne_of_getLast? hwhole) hmore).sweep_eq,
      List.map_append]

/-- Code across the end of the memory, and a store that lacks half of its address behind it. -/
theorem Disassembler.standard_covers_acrossEnd :
    let rows := ["FFFE: A9 01     LDA #$01".toList, "0000: 03        DFB $03".toList]
    let behind := ["0001: 8D 00     HEX 8D00".toList]
    standard 0xFFFE [0xA9, 0x01, 0x03] = .ok rows ∧ standard 1 [0x8D, 0x00] = .ok behind ∧
    standard 0xFFFE [0xA9, 0x01, 0x03, 0x8D, 0x00] = .ok (rows ++ behind) ∧
    behind.map isRemainderRow = [true] ∧
    ∃ op, Operation.ofByte? 0x8D = some op ∧ 1 < op.mode.operandSize := by
  intro rows behind
  have hlda : Operation.ofByte? 0xA9 = some ⟨.lda, .immediate⟩ := by decide +kernel
  have hnone : Operation.ofByte? 0x03 = none := by decide +kernel
  have hsta : Operation.ofByte? 0x8D = some ⟨.sta, .absolute⟩ := by decide +kernel
  have hload : CodeRow.Whole ⟨0xFFFE, [0xA9, 0x01], _⟩ := .operation _ hlda rfl
  have hsweep : Sweeps 0xFFFE [0xA9, 0x01, 0x03] _ := .whole hload (.whole (.data 0 hnone) (.nil 1))
  have hstore : Sweeps 1 [0x8D, 0x00] _ := .remainder 1 hsta (by decide)
  have hrows : standard 0xFFFE [0xA9, 0x01, 0x03] = .ok rows := by
    rw [standard, hsweep.sweep_eq]
    decide +kernel
  have hbehind : standard 1 [0x8D, 0x00] = .ok behind := by
    rw [standard, hstore.sweep_eq]
    decide +kernel
  obtain ⟨rows', -, hrows', -, -, -, -, happend⟩ := standard_covers 0xFFFE [0xA9, 0x01, 0x03]
  obtain rfl : rows = rows' := Except.ok.inj (hrows.symm.trans hrows')
  obtain ⟨behind', hmore, hall⟩ := happend (by decide) [0x8D, 0x00]
  obtain rfl : behind = behind' := Except.ok.inj (hbehind.symm.trans hmore)
  obtain ⟨rows', chunks, hrows', hread, -, -, hremainder, -⟩ := standard_covers 1 [0x8D, 0x00]
  obtain rfl : behind = rows' := Except.ok.inj (hbehind.symm.trans hrows')
  obtain rfl : [[0x8D, 0x00]] = chunks :=
    Option.some.inj ((by decide +kernel : behind.mapM readCodeRow? = _).symm.trans hread)
  obtain ⟨-, code, operand, op, hchunk, -, hcode, hsize⟩ := hremainder 0 _ rfl (by decide)
  obtain ⟨rfl, rfl⟩ := List.cons.inj (Option.some.inj hchunk)
  exact ⟨hrows, hbehind, hall, by decide, op, hcode, hsize⟩

end BasicListing
