/-
  Listing and dump agree on where hidden code is.

  * `readCodeRow?`: the bytes in a row of a disassembly.
  * `Program.shownCode_tells`: the rows of hidden code tell its bytes, and each
    begins with the address of its first byte.
  * `dumpCells?`: the bytes in a dump, each with the address that its row gives
    it.  These are the bytes of the image, at the addresses counted from the
    load address (`Program.dumpCells?_dumpRows`).
  * `Printer.hiddenCode_where_dumped`: so the rows of hidden code show the bytes
    from the token to the end of the line, at the addresses of the dump.
-/
import BasicListing.Proofs.CodeLayout
import BasicListing.Proofs.Dump
import BasicListing.Proofs.Reassembly
import BasicListing.Proofs.Truncation

namespace BasicListing

/-! ## Rows of a disassembly -/

/-- The bytes in a row of a disassembly: those in its three columns of digits. -/
def readCodeRow? (row : Text) : Option (List UInt8) := readColumns? 3 (row.drop 6)

theorem intercalate_hexByte {bytes : List UInt8} (h : bytes ≠ []) :
    [' '].intercalate (bytes.map hexByte) ++ [' '] = bytes.flatMap fun b => hexByte b ++ [' '] := by
  induction bytes with
  | nil => exact absurd rfl h
  | cons b bytes ih =>
    cases bytes with
    | nil => rfl
    | cons b' bytes =>
      rw [List.map_cons, List.map_cons, List.intercalate_cons_cons, ← List.map_cons,
        List.append_assoc, ih (by simp)]
      rfl

namespace CodeRow

theorem Valid.bytes_ne_nil {row : CodeRow} (h : row.Valid) : row.bytes ≠ [] := by
  cases h <;> simp

/-- The column of the bytes has room for three of them. -/
theorem Valid.padTo_bytes {row : CodeRow} (h : row.Valid) :
    Text.padTo 9 ([' '].intercalate (row.bytes.map hexByte)) =
      row.bytes.flatMap (fun b => hexByte b ++ [' ']) ++
        Text.spaces (3 * (3 - row.bytes.length)) := by
  have hjoined := intercalate_hexByte h.bytes_ne_nil
  have hlength : ([' '].intercalate (row.bytes.map hexByte)).length + 1 = 3 * row.bytes.length := by
    have hcolumns := congrArg List.length hjoined
    rw [List.length_append, List.length_flatMap] at hcolumns
    simpa [Nat.mul_comm] using hcolumns
  have hthree := h.length_bytes
  have hspaces : 9 - ([' '].intercalate (row.bytes.map hexByte)).length =
      3 * (3 - row.bytes.length) + 1 := by
    omega
  rw [← hjoined, Text.padTo, (printable_hexBytes row.bytes).width_eq, hspaces, List.append_assoc]
  rfl

theorem Valid.readCodeRow?_text {row : CodeRow} (h : row.Valid) :
    readCodeRow? row.text = some row.bytes := by
  have hlabel : (hexWord row.address ++ ": ".toList).length = 6 := rfl
  have hread := readColumns?_bytes row.bytes (3 - row.bytes.length) (' ' :: row.source)
  rw [Nat.add_sub_cancel' h.length_bytes] at hread
  rw [readCodeRow?, text_eq, List.drop_left' hlabel, h.padTo_bytes, List.append_assoc, hread]

theorem rowLabel?_text (row : CodeRow) : rowLabel? row.text = some row.address.toNat := by
  rw [rowLabel?, text_eq, List.append_assoc, List.take_left' (length_hexWord _),
    readDigits?_hexWord]

theorem address_ofBytes (address : UInt16) (b : UInt8) (rest : List UInt8) :
    (ofBytes address b rest).address = address := by
  unfold ofBytes
  split
  · rfl
  · simp only
    split_ifs <;> rfl

end CodeRow

theorem mapM_readCodeRow?_sweep (address : UInt16) (bytes : List UInt8) :
    ((sweep address bytes).map CodeRow.text).mapM readCodeRow? =
      some ((sweep address bytes).map CodeRow.bytes) := by
  have hvalid := sweep_forall CodeRow.valid_ofBytes address bytes
  generalize sweep address bytes = rows at hvalid
  induction rows with
  | nil => rfl
  | cons row rows ih =>
    rw [List.forall_mem_cons] at hvalid
    rw [List.map_cons, List.mapM_cons, hvalid.1.readCodeRow?_text, ih hvalid.2]
    rfl

/-- Each row of a sweep begins with the address of its first byte. -/
theorem mapM_rowLabel?_sweep (origin : UInt16) (start : Nat) (bytes : List UInt8) :
    ((sweep (origin + UInt16.ofNat start) bytes).map CodeRow.text).mapM rowLabel? =
      some ((placesFrom start ((sweep (origin + UInt16.ofNat start) bytes).map
        fun row => row.bytes.length)).map (labelAt origin)) := by
  induction hn : bytes.length using Nat.strongRecOn generalizing start bytes with
  | _ n ih =>
    cases bytes with
    | nil => simp [placesFrom]
    | cons b rest =>
      rw [sweep_cons]
      simp only
      set row := CodeRow.ofBytes (origin + UInt16.ofNat start) b rest with hrow
      have hshorter : (rest.drop (row.bytes.length - 1)).length < n := by
        rw [List.length_drop, ← hn, List.length_cons]
        omega
      have hbehind := ih _ hshorter (start + row.bytes.length) (rest.drop (row.bytes.length - 1))
        rfl
      rw [add_ofNat_add, List.map_cons, List.mapM_cons, row.rowLabel?_text, hbehind, hrow,
        CodeRow.address_ofBytes, toNat_add_ofNat, ← hrow, List.map_cons, placesFrom, List.map_cons]
      rfl

/-- **The rows of hidden code tell its bytes and where they stand.** -/
theorem Program.shownCode_tells (p : Program) (s : Statement) :
    ∃ chunks : List (List UInt8),
      (p.shownCode .standard s).mapM readCodeRow? = some chunks ∧ chunks.flatten = s.operand ∧
      [] ∉ chunks ∧
      (p.shownCode .standard s).mapM rowLabel? =
        some ((placesFrom (s.offset + 1) (chunks.map List.length)).map (labelAt p.origin)) := by
  have haddress : p.codeAddress s = p.origin + UInt16.ofNat (s.offset + 1) :=
    add_ofNat_add p.origin s.offset 1
  have hshown : p.shownCode .standard s =
      (sweep (p.codeAddress s) s.operand).map CodeRow.text := rfl
  refine ⟨(sweep (p.codeAddress s) s.operand).map CodeRow.bytes, ?_, ?_, ?_, ?_⟩
  · rw [hshown]
    exact mapM_readCodeRow?_sweep _ _
  · rw [← List.flatMap_def, flatMap_bytes_sweep]
  · intro hnil
    obtain ⟨row, hrow, hempty⟩ := List.mem_map.1 hnil
    exact (sweep_forall CodeRow.valid_ofBytes _ _ row hrow).bytes_ne_nil hempty
  · rw [hshown, haddress, mapM_rowLabel?_sweep, List.map_map]
    rfl

/-! ## Cells of a dump -/

/-- The bytes in a row of a dump, each with its address. -/
def rowCells? (row : Text) : Option (List (Nat × UInt8)) := do
  let label ← rowLabel? row
  let bytes ← readHexRow? row
  return bytes.mapIdx fun i b => ((label + i) % 0x10000, b)

/-- The bytes in some rows of a dump, each with its address. -/
def rowsCells? (rows : List Text) : Option (List (Nat × UInt8)) :=
  (rows.mapM rowCells?).map List.flatten

/-- The bytes in a dump, each with its address. -/
def dumpCells? (text : Text) : Option (List (Nat × UInt8)) := rowsCells? (dumpBlocks text).flatten

/-- Bytes with their addresses, where the first of them stands at `start` in an image that was
    loaded at `origin`. -/
def cellsFrom (origin : UInt16) (start : Nat) (bytes : List UInt8) : List (Nat × UInt8) :=
  bytes.mapIdx fun i b => (labelAt origin (start + i), b)

theorem cellsFrom_append (origin : UInt16) (start : Nat) (bytes bytes' : List UInt8) :
    cellsFrom origin start (bytes ++ bytes') =
      cellsFrom origin start bytes ++ cellsFrom origin (start + bytes.length) bytes' := by
  rw [cellsFrom, cellsFrom, cellsFrom, List.mapIdx_append]
  congr 1
  refine congrArg (List.mapIdx · bytes') (funext fun i => funext fun b => ?_)
  rw [Nat.add_comm i, Nat.add_assoc]

theorem rowsCells?_append {rows rows' : List Text} {cells cells' : List (Nat × UInt8)}
    (h : rowsCells? rows = some cells) (h' : rowsCells? rows' = some cells') :
    rowsCells? (rows ++ rows') = some (cells ++ cells') := by
  obtain ⟨parts, hparts, rfl⟩ := Option.map_eq_some_iff.1 h
  obtain ⟨parts', hparts', rfl⟩ := Option.map_eq_some_iff.1 h'
  rw [rowsCells?, List.mapM_append, hparts, hparts']
  simp

theorem rowsCells?_hexRow (origin : UInt16) (start : Nat) {bytes : List UInt8}
    (h : bytes.length ≤ bytesPerRow) :
    rowsCells? [hexRow (origin + UInt16.ofNat start) bytes] =
      some (cellsFrom origin start bytes) := by
  have hlabels : ∀ i, (labelAt origin start + i) % 0x10000 = labelAt origin (start + i) := by
    intro i
    rw [labelAt, labelAt]
    omega
  have hrow : rowCells? (hexRow (origin + UInt16.ofNat start) bytes) =
      some (cellsFrom origin start bytes) := by
    rw [rowCells?, rowLabel?_hexRow, readHexRow?_hexRow _ h, toNat_add_ofNat]
    simp only [hlabels, Option.bind_eq_bind, Option.bind_some, Option.pure_def, cellsFrom]
  rw [rowsCells?, List.mapM_cons, List.mapM_nil, hrow]
  simp

theorem rowsCells?_hexRows (origin : UInt16) (start : Nat) (bytes : List UInt8) :
    rowsCells? (hexRows (origin + UInt16.ofNat start) bytes) =
      some (cellsFrom origin start bytes) := by
  fun_induction hexChunks bytes generalizing start with
  | case1 => simp [hexRows, rowsCells?, cellsFrom]
  | case2 b rest ih =>
    -- All rows but the last are full, so that the next one begins sixteen bytes further.
    have hcells : cellsFrom origin start (b :: rest) =
        cellsFrom origin start ((b :: rest).take bytesPerRow) ++
          cellsFrom origin (start + bytesPerRow) ((b :: rest).drop bytesPerRow) := by
      rcases Nat.le_total bytesPerRow (b :: rest).length with hfull | hlast
      · have hsplit := cellsFrom_append origin start ((b :: rest).take bytesPerRow)
          ((b :: rest).drop bytesPerRow)
        rwa [List.take_append_drop, List.length_take_of_le hfull] at hsplit
      · rw [List.drop_of_length_le hlast, List.take_of_length_le hlast]
        simp [cellsFrom]
    rw [hexRows, add_ofNat_add, hcells]
    exact rowsCells?_append (rowsCells?_hexRow origin start (List.length_take_le _ _)) (ih _)

theorem rowsCells?_blocks (origin : UInt16) {start stop : Nat} {blocks : List (Nat × List UInt8)}
    (h : Tiles Prod.fst (fun block => block.2.length) start blocks stop) :
    rowsCells? (blocks.map fun block => hexRows (origin + UInt16.ofNat block.1) block.2).flatten =
      some (cellsFrom origin start (blocks.flatMap Prod.snd)) := by
  induction blocks generalizing start with
  | nil => rfl
  | cons block blocks ih =>
    obtain ⟨hstart, hrest⟩ := h
    rw [List.map_cons, List.flatten_cons, hstart, List.flatMap_cons, cellsFrom_append]
    exact rowsCells?_append (rowsCells?_hexRows origin start block.2) (ih hrest)

/-- The cells of a dump are those of the image. -/
theorem Program.dumpCells?_dumpRows {image : Image} {p : Program} (himage : p.image = image)
    (hdecodes : image.Decodes 0 0 p.lines) :
    dumpCells? (Text.ofRows p.dumpRows) = some (cellsFrom p.origin 0 image) := by
  subst himage
  have hsize : 0 + total (p.lines.map Line.length) = p.size := Nat.zero_add _
  have hfits : p.size ≤ p.image.length := hsize ▸ hdecodes.fits (Nat.zero_le _)
  have hlines : Tiles Line.offset Line.length 0 p.lines p.size := hsize ▸ hdecodes.tiles
  have hblocks := ne_nil_of_mem_blocks hlines hfits fun line hl =>
    (hdecodes.standsIn line hl).five_le
  rw [dumpCells?, dumpBlocks_dumpRows hblocks, ← flatMap_blocks hlines]
  exact rowsCells?_blocks p.origin (tiles_blocks hlines hfits)

/-! ## The code in the image -/

/-- The last statement of a line goes up to the zero byte that ends the line, or to the end of the
    image. -/
theorem Line.StandsIn.drop_last {image : Image} {line : Line} (h : line.StandsIn image)
    {init : List Statement} {s : Statement} (hline : line.statements = init ++ [s]) :
    ∃ behind, image.drop s.offset = s.body ++ behind ∧
      ∀ b ∈ behind.head?, b = Code.endOfLine := by
  have hs : s ∈ line.statements := by simp [hline]
  have hdrop : image.drop s.offset = s.body ++ image.drop (s.offset + s.body.length) := by
    rw [← List.drop_drop]
    conv_lhs => rw [← List.take_append_drop s.body.length (image.drop s.offset)]
    rw [← Image.slice, h.body_eq hs]
  refine ⟨_, hdrop, ?_⟩
  rw [List.head?_drop]
  obtain ⟨init', last, hlast, -, hcolon, habsent⟩ := h.ends
  obtain ⟨-, hsame⟩ := List.append_inj' (hline.symm.trans hlast) rfl
  obtain rfl : s = last := by simpa using hsame
  cases hending : s.ending with
  | colon => exact absurd hending hcolon
  | zero =>
    rw [h.behind hs (b := Code.endOfLine) (by rw [hending]; rfl)]
    simp
  | absent =>
    -- The statement ends with the image.
    have hstop := h.tiles.stop_eq_last
    rw [hline, List.getLast?_concat, Option.map_some, Option.getD_some, habsent hending,
      Statement.size, hending] at hstop
    have hend : image.length ≤ s.offset + s.body.length := Nat.le_of_eq hstop
    rw [List.getElem?_eq_none hend]
    simp

/-- The code that a remark hides stands behind its token, up to the zero byte that ends the line,
    or to the end of the image. -/
theorem Line.StandsIn.hiddenCode {image : Image} {line : Line} (h : line.StandsIn image)
    {init : List Statement} {s : Statement} (hline : line.statements = init ++ [s])
    (hcode : s.hidesCode = true) :
    image[s.offset]? = some Code.remark ∧
      (image.drop (s.offset + 1)).takeWhile (· != Code.endOfLine) = s.operand := by
  have hbody : s.body = Code.remark :: s.operand := by
    rw [Statement.body_eq (Statement.isEmpty_of_hidesCode hcode), Statement.head_of_hidesCode hcode]
    rfl
  obtain ⟨behind, hdrop, hbehind⟩ := h.drop_last hline
  have hzero : Code.endOfLine ∉ s.operand := by
    intro hzero
    refine h.zero_notMem s (by simp [hline]) ?_
    rw [hbody]
    exact List.mem_cons_of_mem _ hzero
  rw [hbody, List.cons_append] at hdrop
  constructor
  · rw [← List.head?_drop, hdrop, List.head?_cons]
  · rw [← List.drop_drop, hdrop, List.drop_one, List.tail_cons]
    cases behind with
    | nil =>
      rw [List.append_nil, List.takeWhile_eq_self_iff]
      intro b hb
      simpa using fun heq : b = Code.endOfLine => hzero (heq ▸ hb)
    | cons b behind =>
      obtain rfl := hbehind b rfl
      exact takeWhile_bne_append hzero behind

/-! ## Listing and dump -/

/-- **Listing and dump agree on where hidden code is.**

    The rows of hidden code show the bytes from behind the token of the remark up to the zero byte
    that ends the line, or to the end of the image.  Each begins with the address of its first
    byte, counted from the load address and modulo the size of the memory, and so does the dump
    count the address of each byte. -/
theorem Printer.hiddenCode_where_dumped (printer : Printer)
    (hdisassembler : printer.disassembler = .standard) (name : Text) (image : Image) :
    let p := printer.program image
    (printer.keywords.Ascii → (printer.listing? name image).isSome = true) ∧
    ∀ text, printer.listing? name image = some text →
      ∀ v ∈ p.visits printer.settings, v.site.statement.hidesCode = true →
        let s := v.site.statement
        let code := (image.drop (s.offset + 1)).takeWhile (· != Code.endOfLine)
        image[s.offset]? = some Code.remark ∧ s.operand = code ∧
        ∃ (above : List Text) (start : Text) (rows below : List Text),
          text = Text.ofRows (printer.header name image ++ above ++
            (start ++ p.codeHeading s) :: rows.map (Text.spaces (start.width + 2) ++ ·) ++
            below) ∧
          p.rowsOf? printer.settings printer.disassembler v.pass.placed.reverse = some above ∧
          (∃ chunks : List (List UInt8), rows.mapM readCodeRow? = some chunks ∧
            chunks.flatten = code ∧ [] ∉ chunks ∧
            rows.mapM rowLabel? =
              some ((placesFrom (s.offset + 1) (chunks.map List.length)).map
                (labelAt p.origin))) ∧
          ∃ dump, printer.dump name image =
              (printer.header name image).flatMap (· ++ ['\n']) ++ dump ∧
            dumpCells? dump = some (image.mapIdx fun o b => (labelAt p.origin o, b)) := by
  intro p
  have hdecodes : image.Decodes 0 0 p.lines := scanLines_decodes image 0 0
  refine ⟨fun hascii => isSome_listing? hascii name image, ?_⟩
  intro text htext v hv hcode s code
  obtain ⟨listed, hlisted, rfl⟩ := Option.map_eq_some_iff.1 htext
  have hafter : v.site.after = [] := after_eq_nil_of_remark
    (Program.remark_ofImage _ _ image) hv (Statement.head_of_hidesCode hcode)
  obtain ⟨before, hbefore⟩ := exists_before_of_visit hv
  rw [hafter] at hbefore
  have hline := line_mem_of_visit hv
  obtain ⟨hremark, hoperand⟩ := (hdecodes.standsIn v.line hline).hiddenCode hbefore hcode
  refine ⟨hremark, hoperand.symm, ?_⟩
  obtain ⟨above, below, habove, hrows⟩ := rows_of_hiddenCode hlisted hv hcode hafter
  have hcells : dumpCells? (Text.ofRows p.dumpRows) = some (cellsFrom p.origin 0 image) :=
    Program.dumpCells?_dumpRows rfl hdecodes
  obtain ⟨chunks, hread, hflatten, hne, hlabels⟩ := p.shownCode_tells s
  rw [Program.codeRows_eq] at hrows
  rw [← hdisassembler] at hread hlabels
  refine ⟨above, v.pass.start.getD [], p.shownCode printer.disassembler s, below, ?_, habove,
    ⟨chunks, hread, hflatten.trans hoperand.symm, hne, hlabels⟩, Text.ofRows p.dumpRows, ?_, ?_⟩
  · simp only [hrows, List.append_assoc]
    rfl
  · refine Text.ofRows_append _ fun hnone => ?_
    -- There is a row, since the remark is in the image.
    rw [hnone] at hcells
    have hempty : image = [] := List.mapIdx_eq_nil_iff.1 (Option.some.inj hcells).symm
    simp [hempty] at hremark
  · simpa only [cellsFrom, Nat.zero_add] using hcells

/-- Hidden code with the bytes of a colon, a quote, `IF` and `THEN` in it, part of which stands at
    the end of the memory and part at its beginning. -/
def wrappedCode : Image :=
  [0x05, 0x00, 10, 0, 0xB2, 0x4C, 0x3A, 0x22, 0xAD, 0xC4, 0xB2, 0xFF, 0, 0, 0]

theorem Printer.hiddenCode_where_dumped_wrappedCode :
    let printer : Printer := { settings := { showHeader := false } }
    let p := printer.program wrappedCode
    printer.disassembler = .standard ∧ printer.keywords.Ascii ∧
    ∃ text, printer.listing? [] wrappedCode = some text ∧
      ∃ v ∈ p.visits printer.settings, v.site.statement.hidesCode = true ∧
        ∃ (above : List Text) (start : Text) (rows below : List Text)
          (chunks : List (List UInt8)), text = Text.ofRows (above ++
            (start ++ p.codeHeading v.site.statement) ::
              rows.map (Text.spaces (start.width + 2) ++ ·) ++ below) ∧
          rows.mapM readCodeRow? = some chunks ∧
          chunks.flatten = [0x4C, 0x3A, 0x22, 0xAD, 0xC4, 0xB2, 0xFF] ∧
          rows.mapM rowLabel? =
            some ((placesFrom 5 (chunks.map List.length)).map (labelAt 0xFFF8)) ∧
          dumpCells? (printer.dump [] wrappedCode) =
            some (wrappedCode.mapIdx fun o b => (labelAt 0xFFF8 o, b)) := by
  intro printer p
  obtain ⟨v, hv, hstatement⟩ := exists_visit printer.settings
    (by decide +kernel : p.statements[0]? =
      some ⟨4, [0xB2, 0x4C, 0x3A, 0x22, 0xAD, 0xC4, 0xB2, 0xFF], .zero, true⟩)
  have hmem := List.mem_of_getElem? hv
  have hcode : v.site.statement.hidesCode = true := by
    rw [hstatement]
    decide
  obtain ⟨hsome, hagree⟩ := hiddenCode_where_dumped printer rfl [] wrappedCode
  obtain ⟨text, htext⟩ := Option.isSome_iff_exists.1 (hsome Keywords.ascii_standard)
  obtain ⟨-, hoperand, above, start, rows, below, hlisted, -, ⟨chunks, hread, hflatten, -, hlabels⟩,
    dump, hdump, hcells⟩ := hagree text htext v hmem hcode
  have horigin : p.origin = 0xFFF8 := by decide
  rw [← hoperand, hstatement] at hflatten
  rw [hstatement, horigin] at hlabels
  rw [horigin] at hcells
  obtain rfl : printer.dump [] wrappedCode = dump := hdump
  exact ⟨rfl, Keywords.ascii_standard, text, htext, v, hmem, hcode, above, start, rows, below,
    chunks, hlisted, hread, hflatten, hlabels, hcells⟩

end BasicListing
