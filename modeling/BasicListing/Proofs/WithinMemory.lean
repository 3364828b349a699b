/-
  A disassembly on the command line stays within the memory.

  * `Text.IsAddress`: the texts that give an address.  They are read and no
    others (`readAddress?_iff`).
  * `map_labelAt_placesFrom`: addresses do not wrap if the code fits into the
    memory.  So the rows that are printed tell its bytes and where they stand
    (`textLines_sweep`).
  * `runDasm_cases`: what comes of an address and some code.
  * `dasm_within_memory`: when the command succeeds, and what it prints.
-/
import BasicListing.Command.Run
import BasicListing.Proofs.CodeBytes
import BasicListing.Proofs.Numerals

namespace BasicListing

/-! ## Addresses -/

/-- The text gives an address: it is a decimal numeral, or a hexadecimal one behind a dollar
    sign. -/
inductive Text.IsAddress : Text → Nat → Prop
  | decimal {t : Text} {value : Nat} : t.IsNumeral value → IsAddress t value
  | hexadecimal {t : Text} {value : Nat} : t.IsHexNumeral value → IsAddress ('$' :: t) value

theorem Text.not_isNumeral_dollar (t : Text) (value : Nat) : ¬ IsNumeral ('$' :: t) value := by
  rintro ⟨sign, digits, ht, rfl | rfl, -, hdigits, -⟩
  · obtain rfl : '$' :: t = digits := ht
    exact absurd (hdigits '$' List.mem_cons_self) (by decide)
  · cases ht

/-- **The texts that are read as addresses.** -/
theorem readAddress?_iff {t : Text} {address : UInt16} :
    readAddress? t = some address ↔ t.IsAddress address.toNat := by
  unfold readAddress?
  split
  · rw [readWord?_hex_iff]
    refine ⟨.hexadecimal, ?_⟩
    rintro (h | h)
    · exact absurd h (Text.not_isNumeral_dollar _ _)
    · exact h
  · rename_i ht
    rw [readWord?_iff]
    refine ⟨.decimal, ?_⟩
    rintro (h | h)
    · exact h
    · exact absurd rfl (ht _)

theorem readAddress?_of_isAddress {t : Text} {value : Nat} (h : t.IsAddress value)
    (hle : value ≤ 0xFFFF) : readAddress? t = some (UInt16.ofNat value) := by
  rwa [readAddress?_iff, UInt16.toNat_ofNat_of_lt' (Nat.lt_succ_of_le hle)]

/-! ## Places -/

section
variable {sizes : List Nat}

theorem placesFrom_add (start distance : Nat) (sizes : List Nat) :
    placesFrom (start + distance) sizes = (placesFrom distance sizes).map (start + ·) := by
  induction sizes generalizing distance with
  | nil => rfl
  | cons size sizes ih => rw [placesFrom, Nat.add_assoc, ih, placesFrom, List.map_cons]

/-- Pieces that are not empty stand at places of their own, before the end of the last. -/
theorem placesFrom_bounds (hpos : ∀ size ∈ sizes, 0 < size) (start : Nat) :
    (∀ place ∈ placesFrom start sizes, start ≤ place ∧ place < start + total sizes) ∧
      (placesFrom start sizes).Pairwise (· < ·) := by
  induction sizes generalizing start with
  | nil => simp [placesFrom]
  | cons size sizes ih =>
    rw [List.forall_mem_cons] at hpos
    obtain ⟨hbounds, hincreasing⟩ := ih hpos.2 (start + size)
    rw [placesFrom, total_cons, List.forall_mem_cons, List.pairwise_cons]
    refine ⟨⟨by omega, fun place hplace => ?_⟩, fun place hplace => ?_, hincreasing⟩
    all_goals
      have := hbounds place hplace
      omega

/-- Addresses do not wrap before the end of the memory. -/
theorem map_labelAt_placesFrom (hpos : ∀ size ∈ sizes, 0 < size) {origin : UInt16}
    (hfits : origin.toNat + total sizes ≤ memorySize) :
    (placesFrom 0 sizes).map (labelAt origin) = placesFrom origin.toNat sizes := by
  rw [← Nat.add_zero origin.toNat, placesFrom_add]
  refine List.map_congr_left fun place hplace => ?_
  have hlt := ((placesFrom_bounds hpos 0).1 place hplace).2
  rw [memorySize] at hfits
  exact Nat.mod_eq_of_lt (by omega)

end

/-! ## Rows that are printed -/

theorem dropReturn_of_printable {row : Text} (h : row.Printable) : dropReturn row = row := by
  refine if_neg fun hlast => ?_
  have := h '\r' (List.mem_of_getLast? hlast)
  simp at this

/-- Rows that end in a line feed each are the lines of their text. -/
theorem textLines_flatMap {rows : List Text} (h : ∀ row ∈ rows, row.Printable) :
    textLines (rows.flatMap (· ++ ['\n'])) = rows := by
  have hjoined : rows.flatMap (· ++ ['\n']) = Text.ofRows (rows ++ [[]]) := by
    rw [Text.ofRows_append rows (by simp), Text.ofRows, List.intercalate_singleton, List.append_nil]
  have hprintable : ∀ row ∈ rows ++ [[]], row.Printable :=
    List.forall_mem_append.2 ⟨h, by simp⟩
  have hmap : rows.map dropReturn = rows := by
    rw [List.map_congr_left fun row hrow => dropReturn_of_printable (h row hrow), List.map_id']
  rw [textLines, hjoined, splitOn_ofRows hprintable (by simp), List.dropLast_concat, hmap,
    List.getLast?_concat]
  simp

/-- **What the printed rows of some code tell**, if it fits into the memory: its bytes, and where
    each row begins. -/
theorem textLines_sweep {address : UInt16} {bytes : List UInt8}
    (hfits : address.toNat + bytes.length ≤ memorySize) :
    ∃ chunks : List (List UInt8),
      let rows := textLines ((sweep address bytes).flatMap fun row => row.text ++ ['\n'])
      let places := placesFrom address.toNat (chunks.map List.length)
      rows.mapM readCodeRow? = some chunks ∧ chunks.flatten = bytes ∧
      rows.mapM rowLabel? = some places ∧ places.Pairwise (· < ·) ∧
      ∀ place ∈ places, place < memorySize := by
  have hrows : textLines ((sweep address bytes).flatMap fun row => row.text ++ ['\n']) =
      (sweep address bytes).map CodeRow.text := by
    have hmap : ((sweep address bytes).flatMap fun row => row.text ++ ['\n']) =
        ((sweep address bytes).map CodeRow.text).flatMap (· ++ ['\n']) := by
      rw [List.flatMap_map]
    rw [hmap]
    refine textLines_flatMap fun row hrow => ?_
    obtain ⟨row, -, rfl⟩ := List.mem_map.1 hrow
    exact row.printable_text
  set chunks := (sweep address bytes).map CodeRow.bytes with hchunks
  have hflatten : chunks.flatten = bytes := by
    rw [hchunks, ← List.flatMap_def, flatMap_bytes_sweep]
  have hpos : ∀ size ∈ chunks.map List.length, 0 < size := by
    intro size hsize
    simp only [hchunks, List.map_map, List.mem_map, Function.comp] at hsize
    obtain ⟨row, hrow, rfl⟩ := hsize
    exact List.length_pos_iff.2 (sweep_forall CodeRow.valid_ofBytes _ _ row hrow).bytes_ne_nil
  have htotal : total (chunks.map List.length) = bytes.length := by
    rw [total, ← List.length_flatten, hflatten]
  have hlabels := mapM_rowLabel?_sweep address 0 bytes
  rw [show address + UInt16.ofNat 0 = address from UInt16.add_zero address] at hlabels
  obtain ⟨hbounds, hincreasing⟩ := placesFrom_bounds hpos address.toNat
  refine ⟨chunks, ?_, hflatten, ?_, hincreasing, fun place hplace => ?_⟩
  · rw [hrows, mapM_readCodeRow?_sweep]
  · rw [hrows, hlabels, ← map_labelAt_placesFrom hpos (by rwa [htotal]), hchunks, List.map_map]
    rfl
  · have := (hbounds place hplace).2
    omega

/-! ## The command -/

/-- What there is to be read from a source. -/
inductive Source.Holds (folder : Folder) (standardInput : List UInt8) : Source → List UInt8 → Prop
  | file {path : Text} {bytes : List UInt8} :
      folder.read path = .ok bytes → Holds folder standardInput (.file path) bytes
  | standardInput : Holds folder standardInput .standardInput standardInput

theorem Source.accept_of_ne_nil (source : Source) (command : String) {bytes : List UInt8}
    (hne : bytes ≠ []) : source.accept command (.ok bytes) = .ok bytes := by
  cases source with
  | file path => rfl
  | standardInput =>
    obtain ⟨b, rest, rfl⟩ := List.exists_cons_of_ne_nil hne
    rfl

theorem runCommand_eq_run {folder : Folder} {standardInput bytes : List UInt8} {args : List Text}
    {invocation : Invocation} {source : Source} (hargs : Invocation.read args = .ok invocation)
    (hsource : invocation.source? = some source)
    (hholds : source.Holds folder standardInput bytes) :
    runCommand folder standardInput args = invocation.run (.ok bytes) := by
  rw [runCommand, hargs]
  cases hholds with
  | file hread => simp only [hsource, hread]
  | standardInput => simp only [hsource]

/-- **What comes of an address and some code.** -/
theorem runDasm_cases (addr : Option Text) (bytes : List UInt8) :
    let text := addr.getD standardAddress.toList
    (∃ address, readAddress? text = some address ∧ address.toNat + bytes.length ≤ memorySize ∧
      runDasm addr bytes =
        .ok (.finished ((sweep address bytes).flatMap fun row => row.text ++ ['\n']) [])) ∨
    (∀ address, readAddress? text = some address → memorySize < address.toNat + bytes.length) ∧
      ∃ failure, runDasm addr bytes = .error failure ∧ failure.kind = .outOfRange := by
  intro text
  cases haddress : readAddress? text with
  | none =>
    refine .inr ⟨by simp, .badAddress text, ?_, rfl⟩
    simp only [runDasm]
    rw [haddress]
    rfl
  | some address =>
    by_cases hfits : memorySize < address.toNat + bytes.length
    · refine .inr ⟨?_, .pastMemory, ?_, rfl⟩
      · rintro _ ⟨⟩
        exact hfits
      · simp only [runDasm]
        rw [haddress]
        simp only [if_pos hfits]
        rfl
    · refine .inl ⟨address, rfl, Nat.le_of_not_lt hfits, ?_⟩
      simp only [runDasm]
      rw [haddress]
      simp only [if_neg hfits]
      rfl

namespace Invocation

/-- Arguments that ask for a disassembly. -/
def dasmArguments (file addr : Option Text) : List Text :=
  "dasm".toList ::
    ((file.map ("--file=".toList ++ ·)).toList ++ (addr.map ("--addr=".toList ++ ·)).toList)

theorem read_dasmArguments (file addr : Option Text) :
    read (dasmArguments file addr) = .ok (.dasm file addr) := by
  cases file <;> cases addr <;> rfl

end Invocation

/-- **A disassembly stays within the memory.**  Any text can be given as the address, and without
    one it is 768.

    * With bytes to read, the command succeeds just if the text gives an address of sixteen bits
      from which the bytes do not run past the end of the memory.
    * Then the rows it prints show the bytes one behind the other, and are labelled with where they
      begin, counted from the address without a wrap.
    * Otherwise it fails because something is out of range, and prints nothing. -/
theorem dasm_within_memory (folder : Folder) (standardInput : List UInt8) (file addr : Option Text)
    (bytes : List UInt8) (hinput : (Source.ofFile file).Holds folder standardInput bytes)
    (hne : bytes ≠ []) :
    let text := addr.getD "768".toList
    (∃ args, Invocation.read args = .ok (.dasm file addr)) ∧
    ∀ args, Invocation.read args = .ok (.dasm file addr) →
      let outcome := runCommand folder standardInput args
      let rows := textLines outcome.output
      (outcome.exitCode = 0 ↔
        ∃ address, text.IsAddress address ∧ address ≤ 65535 ∧ address + bytes.length ≤ 65536) ∧
      (∀ address, text.IsAddress address → address ≤ 65535 → address + bytes.length ≤ 65536 →
        ∃ chunks : List (List UInt8),
          let places := placesFrom address (chunks.map List.length)
          rows.mapM readCodeRow? = some chunks ∧ chunks.flatten = bytes ∧
          rows.mapM rowLabel? = some places ∧ places.Pairwise (· < ·) ∧
          ∀ place ∈ places, place < 65536) ∧
      (outcome.exitCode ≠ 0 →
        ∃ failure, outcome = .failed failure ∧ failure.kind = .outOfRange ∧
          outcome.output = []) := by
  intro text
  refine ⟨⟨_, Invocation.read_dasmArguments file addr⟩, fun args hargs => ?_⟩
  intro outcome rows
  have hexecute : (Invocation.dasm file addr).execute (.ok bytes) = runDasm addr bytes := by
    rw [Invocation.execute, Source.accept_of_ne_nil _ _ hne]
    rfl
  have houtcome : outcome = (Invocation.dasm file addr).run (.ok bytes) :=
    runCommand_eq_run hargs rfl hinput
  rw [Invocation.run, hexecute] at houtcome
  have haddress : ∀ value, text.IsAddress value → value ≤ 65535 →
      readAddress? text = some (UInt16.ofNat value) ∧ (UInt16.ofNat value).toNat = value :=
    fun value h hle => ⟨readAddress?_of_isAddress h hle,
      UInt16.toNat_ofNat_of_lt' (Nat.lt_succ_of_le hle)⟩
  rcases runDasm_cases addr bytes with ⟨address, hread, hfits, hrun⟩ | ⟨hnone, failure, hrun, hkind⟩
  · rw [hrun] at houtcome
    have hrows : rows = textLines ((sweep address bytes).flatMap fun row => row.text ++ ['\n']) :=
      congrArg (textLines ∘ Outcome.output) houtcome
    refine ⟨⟨fun _ => ?_, fun _ => congrArg Outcome.exitCode houtcome⟩, ?_, ?_⟩
    · exact ⟨address.toNat, readAddress?_iff.1 hread, Nat.le_of_lt_succ address.toNat_lt, hfits⟩
    · intro value hvalue hle hfits'
      obtain ⟨hread', htoNat⟩ := haddress value hvalue hle
      obtain rfl : UInt16.ofNat value = address := Option.some.inj (hread'.symm.trans hread)
      have := textLines_sweep hfits
      rwa [htoNat, ← hrows] at this
    · exact fun hcode => absurd (congrArg Outcome.exitCode houtcome) hcode
  · rw [hrun] at houtcome
    have hbeyond : ¬ ∃ value, text.IsAddress value ∧ value ≤ 65535 ∧
        value + bytes.length ≤ 65536 := by
      rintro ⟨value, hvalue, hle, hfits⟩
      obtain ⟨hread, htoNat⟩ := haddress value hvalue hle
      have := hnone _ hread
      rw [htoNat, memorySize] at this
      omega
    refine ⟨⟨fun hcode => ?_, fun h => absurd h hbeyond⟩, ?_, ?_⟩
    · rw [houtcome] at hcode
      cases hcode
    · exact fun value hvalue hle hfits => absurd ⟨value, hvalue, hle, hfits⟩ hbeyond
    · exact fun _ => ⟨failure, houtcome, hkind, congrArg Outcome.output houtcome⟩

/-- Two bytes at the end of the memory, and one byte further. -/
theorem dasm_within_memory_lastBytes :
    let code : List UInt8 := [0xEA, 0x60]
    let atEnd := runCommand ⟨[]⟩ code (Invocation.dasmArguments none (some "$+fFfe".toList))
    let beyond := runCommand ⟨[]⟩ code (Invocation.dasmArguments none (some "65535".toList))
    atEnd.exitCode = 0 ∧
    (∃ chunks, (textLines atEnd.output).mapM readCodeRow? = some chunks ∧ chunks.flatten = code ∧
      (textLines atEnd.output).mapM rowLabel? =
        some (placesFrom 65534 (chunks.map List.length))) ∧
    ∃ failure, beyond = .failed failure ∧ failure.kind = .outOfRange ∧ beyond.output = [] := by
  intro code atEnd beyond
  have hinput : (Source.ofFile none).Holds ⟨[]⟩ code code := .standardInput
  have haddress : Text.IsAddress "$+fFfe".toList 65534 :=
    readAddress?_iff.1 (by decide : readAddress? "$+fFfe".toList = some 65534)
  have hlast : readAddress? "65535".toList = some 65535 := by decide
  obtain ⟨-, hend⟩ :=
    dasm_within_memory ⟨[]⟩ code none (some "$+fFfe".toList) code hinput (by decide)
  obtain ⟨hsuccess, hrows, -⟩ := hend _ (Invocation.read_dasmArguments none _)
  obtain ⟨chunks, hbytes, hflatten, hlabels, -⟩ :=
    hrows 65534 haddress (by decide) (by decide)
  obtain ⟨-, hpast⟩ :=
    dasm_within_memory ⟨[]⟩ code none (some "65535".toList) code hinput (by decide)
  obtain ⟨hiff, -, hfails⟩ := hpast _ (Invocation.read_dasmArguments none _)
  refine ⟨hsuccess.2 ⟨65534, haddress, by decide, by decide⟩, ⟨chunks, hbytes, hflatten, hlabels⟩,
    hfails fun hcode => ?_⟩
  obtain ⟨value, hvalue, hle, hfits⟩ := hiff.1 hcode
  have hsame := hlast.symm.trans (readAddress?_of_isAddress hvalue hle)
  have htoNat := congrArg UInt16.toNat (Option.some.inj hsame)
  rw [UInt16.toNat_ofNat_of_lt' (Nat.lt_succ_of_le hle)] at htoNat
  have hvalueEq : 65535 = value := htoNat
  have hlength : code.length = 2 := rfl
  omega

end BasicListing
