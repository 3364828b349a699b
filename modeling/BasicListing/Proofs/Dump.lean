/-
  Dumps are read back.

  * `dumpBlocks`, `readHexRow?`, `rowLabel?`: the blocks of a dump, the bytes
    in a row of it, and the address before them.
  * `hexChunks`: bytes in rows of sixteen.  The rows of a block show these
    (`mapM_readHexRow?`), each with its address (`mapM_rowLabel?`).
  * `Program.tiles_blocks`, `Program.flatMap_blocks`: the blocks stand one
    behind the other in the image and hold all of it.
  * `Printer.dump_reads_back`: so a dump tells the image, and shows where the
    lines begin.
-/
import BasicListing.Proofs.Decoding
import BasicListing.Proofs.Hexadecimal
import BasicListing.Proofs.LineUp

namespace BasicListing

/-! ## Reading a dump -/

/-- The blocks of rows in a dump: a blank row stands between any two. -/
def dumpBlocks : Text → List (List Text)
  | [] => []
  | text => (text.splitOn '\n').splitOn []

/-- The bytes in a row: those in its sixteen columns of digits. -/
def readHexRow? (row : Text) : Option (List UInt8) := readColumns? 16 (row.drop 7)

/-- The address at which a row begins. -/
def rowLabel? (row : Text) : Option Nat := readDigits? 16 (row.take 4)

/-- The places of pieces of the given sizes that stand one behind the other, the first of them at
    `start`. -/
def placesFrom (start : Nat) : List Nat → List Nat
  | [] => []
  | size :: sizes => start :: placesFrom (start + size) sizes

theorem placesFrom_append (start : Nat) (sizes sizes' : List Nat) :
    placesFrom start (sizes ++ sizes') =
      placesFrom start sizes ++ placesFrom (start + total sizes) sizes' := by
  induction sizes generalizing start with
  | nil => simp [placesFrom]
  | cons n sizes ih =>
    rw [List.cons_append, placesFrom, ih, placesFrom, List.cons_append, total_cons, Nat.add_assoc]

theorem Tiles.placesFrom_eq {α : Type} {offset size : α → Nat} {start stop : Nat} {xs : List α}
    (h : Tiles offset size start xs stop) : placesFrom start (xs.map size) = xs.map offset := by
  induction xs generalizing start with
  | nil => rfl
  | cons x xs ih => rw [List.map_cons, placesFrom, ih h.2, List.map_cons, h.1]

/-! ## Rows -/

theorem readHexRow?_hexRow (address : UInt16) {bytes : List UInt8}
    (h : bytes.length ≤ bytesPerRow) : readHexRow? (hexRow address bytes) = some bytes := by
  simp only [bytesPerRow] at h
  set text : Text := "|+| ".toList ++ (bytes.map positiveChar ++ ([' '] ++
    (Text.spaces (16 - bytes.length) ++ ("|-| ".toList ++ bytes.map negativeChar)))) with htext
  have hrow : hexRow address bytes = (hexWord address ++ " : ".toList) ++
      (bytes.flatMap (fun b => hexByte b ++ [' ']) ++
        (Text.spaces (3 * (16 - bytes.length)) ++ text)) := by
    simp only [hexRow, bytesPerRow, htext, List.append_assoc]
  have hlabel : (hexWord address ++ " : ".toList).length = 7 := rfl
  have hread := readColumns?_bytes bytes (16 - bytes.length) text
  rw [Nat.add_sub_cancel' h] at hread
  rw [readHexRow?, hrow, List.drop_left' hlabel, hread]

theorem rowLabel?_hexRow (address : UInt16) (bytes : List UInt8) :
    rowLabel? (hexRow address bytes) = some address.toNat := by
  have htake : (hexRow address bytes).take 4 = hexWord address := by
    simp only [hexRow, List.append_assoc]
    exact List.take_left' rfl
  rw [rowLabel?, htake, readDigits?_hexWord]

/-- Bytes in rows of sixteen. -/
def hexChunks : List UInt8 → List (List UInt8)
  | [] => []
  | b :: rest =>
    (b :: rest).take bytesPerRow :: hexChunks ((b :: rest).drop bytesPerRow)
termination_by bytes => bytes.length
decreasing_by
  simp only [List.length_drop, List.length_cons, bytesPerRow]
  omega

theorem flatten_hexChunks (bytes : List UInt8) : (hexChunks bytes).flatten = bytes := by
  fun_induction hexChunks bytes with
  | case1 => rfl
  | case2 b rest ih => rw [List.flatten_cons, ih, List.take_append_drop]

theorem mapM_readHexRow? (address : UInt16) (bytes : List UInt8) :
    (hexRows address bytes).mapM readHexRow? = some (hexChunks bytes) := by
  fun_induction hexRows address bytes with
  | case1 => simp [hexChunks]
  | case2 address b rest ih =>
    rw [List.mapM_cons, readHexRow?_hexRow address (List.length_take_le _ _), ih, hexChunks]
    rfl

/-- The address of the byte at `offset` in an image that was loaded at `origin`. -/
def labelAt (origin : UInt16) (offset : Nat) : Nat := (origin.toNat + offset) % 0x10000

theorem toNat_add_ofNat (origin : UInt16) (offset : Nat) :
    (origin + UInt16.ofNat offset).toNat = labelAt origin offset := by
  rw [UInt16.toNat_add, UInt16.toNat_ofNat', labelAt]
  omega

theorem add_ofNat_add (origin : UInt16) (start size : Nat) :
    origin + UInt16.ofNat start + UInt16.ofNat size = origin + UInt16.ofNat (start + size) := by
  rw [UInt16.ofNat_add, UInt16.add_assoc]

theorem mapM_rowLabel? (origin : UInt16) (start : Nat) (bytes : List UInt8) :
    (hexRows (origin + UInt16.ofNat start) bytes).mapM rowLabel? =
      some ((placesFrom start ((hexChunks bytes).map List.length)).map (labelAt origin)) := by
  fun_induction hexChunks bytes generalizing start with
  | case1 => simp [hexRows, placesFrom]
  | case2 b rest ih =>
    -- All rows but the last are full, so that the next one begins sixteen bytes further.
    have hplaces : placesFrom (start + ((b :: rest).take bytesPerRow).length)
        ((hexChunks ((b :: rest).drop bytesPerRow)).map List.length) =
          placesFrom (start + bytesPerRow)
            ((hexChunks ((b :: rest).drop bytesPerRow)).map List.length) := by
      rcases Nat.le_total bytesPerRow (b :: rest).length with hfull | hlast
      · rw [List.length_take_of_le hfull]
      · rw [List.drop_of_length_le hlast, hexChunks]
        rfl
    rw [hexRows, List.mapM_cons, rowLabel?_hexRow, add_ofNat_add, ih, List.map_cons, placesFrom,
      hplaces, toNat_add_ofNat]
    rfl

theorem positiveChar_bounds (b : UInt8) :
    32 ≤ (positiveChar b).toNat ∧ (positiveChar b).toNat ≤ 127 := by
  unfold positiveChar
  split_ifs with h
  · rw [UInt8.le_iff_toNat_le, UInt8.lt_iff_toNat_lt] at h
    change 32 ≤ b.toNat ∧ b.toNat < 127 at h
    rw [Char.toNat_ofNat, if_pos (Or.inl (by omega))]
    omega
  · decide

theorem negativeChar_bounds (b : UInt8) :
    32 ≤ (negativeChar b).toNat ∧ (negativeChar b).toNat ≤ 127 := by
  unfold negativeChar
  split_ifs with h
  · rw [UInt8.le_iff_toNat_le, UInt8.lt_iff_toNat_lt] at h
    change 160 ≤ b.toNat ∧ b.toNat < 255 at h
    rw [Char.toNat_ofNat, if_pos (Or.inl (by omega))]
    omega
  · decide

theorem printable_hexRow (address : UInt16) (bytes : List UInt8) :
    (hexRow address bytes).Printable := by
  have hbytes : Text.Printable (bytes.flatMap fun b => hexByte b ++ [' ']) :=
    Text.printable_flatMap fun b _ => Text.printable_append.2 ⟨printable_hexByte b, by decide⟩
  have hpositive : Text.Printable (bytes.map positiveChar) :=
    List.forall_mem_map.2 fun b _ => positiveChar_bounds b
  have hnegative : Text.Printable (bytes.map negativeChar) :=
    List.forall_mem_map.2 fun b _ => negativeChar_bounds b
  simp only [hexRow, Text.printable_append, printable_hexWord, hbytes, hpositive, hnegative,
    Text.printable_spaces, true_and, and_true]
  decide

theorem hexRows_spec (address : UInt16) (bytes : List UInt8) :
    ∀ row ∈ hexRows address bytes, row.Printable ∧ row ≠ [] := by
  fun_induction hexRows address bytes with
  | case1 => simp
  | case2 address b rest ih =>
    rintro row (_ | ⟨_, hrow⟩)
    · exact ⟨printable_hexRow _ _, by simp [hexRow, hexWord]⟩
    · exact ih row hrow

/-! ## Blocks -/

/-- The blocks for the bytes behind the last line, the first of which stands at `offset`. -/
def blocksBehind (offset : Nat) : List UInt8 → List (Nat × List UInt8)
  | [] => []
  | 0 :: 0 :: rest => (offset, [0, 0]) :: (if rest.isEmpty then [] else [(offset + 2, rest)])
  | rest => [(offset, rest)]

theorem tiles_blocksBehind (offset : Nat) (bytes : List UInt8) :
    Tiles Prod.fst (fun block => block.2.length) offset (blocksBehind offset bytes)
      (offset + bytes.length) := by
  unfold blocksBehind
  split
  · rfl
  · split_ifs with hrest
    · rw [List.isEmpty_iff.1 hrest]
      exact ⟨rfl, rfl⟩
    · rename_i rest
      refine ⟨rfl, rfl, ?_⟩
      change offset + 2 + rest.length = offset + (rest.length + 1 + 1)
      omega
  · exact ⟨rfl, rfl⟩

theorem flatMap_blocksBehind (offset : Nat) (bytes : List UInt8) :
    (blocksBehind offset bytes).flatMap Prod.snd = bytes := by
  unfold blocksBehind
  split
  · rfl
  · split_ifs with hrest
    · rw [List.isEmpty_iff.1 hrest]
      rfl
    · simp
  · simp

theorem ne_nil_of_mem_blocksBehind {offset : Nat} {bytes : List UInt8} {block : Nat × List UInt8}
    (h : block ∈ blocksBehind offset bytes) : block.2 ≠ [] := by
  unfold blocksBehind at h
  split at h
  · simp at h
  · rcases List.mem_cons.1 h with rfl | h
    · simp
    · split_ifs at h with hrest
      · simp at h
      · rw [List.mem_singleton.1 h]
        simpa using hrest
  · rename_i hne _
    rw [List.mem_singleton.1 h]
    exact hne

theorem map_fst_blocksBehind (offset : Nat) (bytes : List UInt8) :
    (blocksBehind offset bytes).map Prod.fst = (if 0 < bytes.length then [offset] else []) ++
      if bytes[0]? = some 0 ∧ bytes[1]? = some 0 ∧ 2 < bytes.length then [offset + 2] else [] := by
  unfold blocksBehind
  split
  · rfl
  · rename_i rest
    cases rest with
    | nil => simp
    | cons b rest => simp
  · rename_i hne hzeros
    have hpos := List.length_pos_iff.2 hne
    rw [if_pos hpos, if_neg]
    · rfl
    · rintro ⟨hfirst, hsecond, -⟩
      rcases bytes with _ | ⟨a, _ | ⟨b, rest⟩⟩
      · simp at hfirst
      · simp at hsecond
      · obtain rfl : a = 0 := by simpa using hfirst
        obtain rfl : b = 0 := by simpa using hsecond
        exact hzeros rest rfl

theorem Tiles.map {α β : Type} {offset size : α → Nat} {offset' size' : β → Nat} {f : α → β}
    {start stop : Nat} {xs : List α} (h : Tiles offset size start xs stop)
    (hoffset : ∀ x ∈ xs, offset' (f x) = offset x) (hsize : ∀ x ∈ xs, size' (f x) = size x) :
    Tiles offset' size' start (xs.map f) stop := by
  induction xs generalizing start with
  | nil => exact h
  | cons x xs ih =>
    rw [List.forall_mem_cons] at hoffset hsize
    refine ⟨hoffset.1.trans h.1, ?_⟩
    rw [hsize.1]
    exact ih h.2 hoffset.2 hsize.2

/-- Pieces one behind the other hold all that stands between their two ends. -/
theorem Tiles.flatMap_slice {α : Type} {offset size : α → Nat} {start stop : Nat} {xs : List α}
    (h : Tiles offset size start xs stop) (image : Image) :
    xs.flatMap (fun x => image.slice (offset x) (size x)) = image.slice start (stop - start) := by
  induction xs generalizing start with
  | nil =>
    obtain rfl : start = stop := h
    simp [Image.slice]
  | cons x xs ih =>
    have hstop := Tiles.stop_eq h.2
    rw [List.flatMap_cons, ih h.2, h.1, Image.slice, Image.slice, Image.slice, ← List.drop_drop,
      ← List.take_add]
    congr 1
    omega

namespace Program

theorem blocks_eq (p : Program) :
    p.blocks = (p.lines.map fun line => (line.offset, p.image.slice line.offset line.length)) ++
      blocksBehind p.size (p.image.drop p.size) := by
  unfold blocks
  simp only
  generalize p.image.drop p.size = behind
  unfold blocksBehind
  split <;> simp

section
variable {p : Program} (hlines : Tiles Line.offset Line.length 0 p.lines p.size)
include hlines

theorem flatMap_blocks : p.blocks.flatMap Prod.snd = p.image := by
  rw [blocks_eq, List.flatMap_append, flatMap_blocksBehind, List.flatMap_map,
    hlines.flatMap_slice]
  exact List.take_append_drop p.size p.image

variable (hsize : p.size ≤ p.image.length)
include hsize

theorem tiles_blocks :
    Tiles Prod.fst (fun block => block.2.length) 0 p.blocks p.image.length := by
  have hbehind := tiles_blocksBehind p.size (p.image.drop p.size)
  rw [List.length_drop, Nat.add_sub_cancel' hsize] at hbehind
  rw [blocks_eq]
  refine Tiles.append (hlines.map (fun _ _ => rfl) fun line hl => ?_) hbehind
  have := (hlines.bounds hl).2
  rw [Image.slice, List.length_take, List.length_drop]
  omega

theorem ne_nil_of_mem_blocks (hfive : ∀ line ∈ p.lines, 5 ≤ line.length) :
    ∀ block ∈ p.blocks, block.2 ≠ [] := by
  intro block hblock
  rw [blocks_eq] at hblock
  rcases List.mem_append.1 hblock with hblock | hblock
  · obtain ⟨line, hl, rfl⟩ := List.mem_map.1 hblock
    have hend := (hlines.bounds hl).2
    have hlong := hfive line hl
    rw [← List.length_pos_iff, Image.slice, List.length_take, List.length_drop]
    omega
  · exact ne_nil_of_mem_blocksBehind hblock

end

/-- Where the blocks of a dump begin. -/
theorem map_fst_blocks (p : Program) :
    p.blocks.map Prod.fst = p.lines.map Line.offset ++
      (if p.size < p.image.length then [p.size] else []) ++
      if p.image[p.size]? = some 0 ∧ p.image[p.size + 1]? = some 0 ∧
        p.size + 2 < p.image.length then [p.size + 2] else [] := by
  rw [blocks_eq, List.map_append, map_fst_blocksBehind, List.map_map, List.append_assoc,
    List.getElem?_drop, List.getElem?_drop, List.length_drop, Nat.add_zero]
  simp only [Nat.lt_sub_iff_add_lt', Nat.add_zero]
  rfl

end Program

theorem mapM_rowLabel?_blocks (origin : UInt16) {start stop : Nat}
    {blocks : List (Nat × List UInt8)}
    (h : Tiles Prod.fst (fun block => block.2.length) start blocks stop) :
    (blocks.map fun block => hexRows (origin + UInt16.ofNat block.1) block.2).flatten.mapM
        rowLabel? =
      some ((placesFrom start ((blocks.map fun block => hexChunks block.2).flatten.map
        List.length)).map (labelAt origin)) := by
  induction blocks generalizing start with
  | nil => rfl
  | cons block blocks ih =>
    obtain ⟨hstart, hrest⟩ := h
    have hsize : total ((hexChunks block.2).map List.length) = block.2.length := by
      rw [total, ← List.length_flatten, flatten_hexChunks]
    rw [List.map_cons, List.flatten_cons, List.mapM_append, hstart, mapM_rowLabel?, ih hrest,
      List.map_cons, List.flatten_cons, List.map_append, placesFrom_append, hsize, List.map_append]
    rfl

/-! ## The dump -/

theorem mem_intercalate {α : Type} {sep : List α} {xss : List (List α)} {x : α}
    (h : x ∈ sep.intercalate xss) : x ∈ sep ∨ ∃ xs ∈ xss, x ∈ xs := by
  induction xss with
  | nil => simp at h
  | cons xs xss ih =>
    cases xss with
    | nil => exact .inr ⟨xs, by simp, by simpa using h⟩
    | cons ys yss =>
      rw [List.intercalate_cons_cons, List.mem_append, List.mem_append] at h
      obtain (h | h) | h := h
      · exact .inr ⟨xs, by simp, h⟩
      · exact .inl h
      · exact (ih h).imp_right fun ⟨zs, hzs, hx⟩ => ⟨zs, List.mem_cons_of_mem xs hzs, hx⟩

theorem dumpBlocks_ofRows {blocks : List (List Text)} (hblocks : ∀ block ∈ blocks, block ≠ [])
    (hrows : ∀ block ∈ blocks, ∀ row ∈ block, row.Printable ∧ row ≠ []) :
    dumpBlocks (Text.ofRows ([[]].intercalate blocks)) = blocks := by
  by_cases hnone : blocks = []
  · rw [hnone]
    rfl
  set rows : List Text := [[]].intercalate blocks
  have hsplit : rows.splitOn [] = blocks :=
    List.splitOn_intercalate [] (fun block hblock hmem => (hrows block hblock [] hmem).2 rfl) hnone
  have hprintable : ∀ row ∈ rows, row.Printable := by
    intro row hrow
    obtain hrow | ⟨block, hblock, hrow⟩ := mem_intercalate hrow
    · rw [List.mem_singleton.1 hrow]
      exact Text.printable_nil
    · exact (hrows block hblock row hrow).1
  have hne : rows ≠ [] := by
    intro hnil
    refine hblocks [] ?_ rfl
    rw [← hsplit, hnil]
    simp
  have hlines := splitOn_ofRows hprintable hne
  cases htext : Text.ofRows rows with
  | nil =>
    -- One empty row would be two empty blocks.
    rw [htext] at hlines
    refine absurd rfl (hblocks [] ?_)
    rw [← hsplit, ← hlines]
    decide
  | cons c text =>
    rw [dumpBlocks, ← htext, hlines, hsplit]
    simp

theorem Program.dumpBlocks_dumpRows {p : Program} (hblocks : ∀ block ∈ p.blocks, block.2 ≠ []) :
    dumpBlocks (Text.ofRows p.dumpRows) =
      p.blocks.map fun block => hexRows (p.addressOf block.1) block.2 := by
  refine dumpBlocks_ofRows (List.forall_mem_map.2 fun block hblock => ?_)
    (List.forall_mem_map.2 fun block _ => hexRows_spec _ _)
  obtain ⟨b, rest, hbytes⟩ := List.exists_cons_of_ne_nil (hblocks block hblock)
  simp [hbytes, hexRows]

namespace Printer

theorem dumpBlocks_dump {printer : Printer} (hheader : printer.settings.showHeader = false)
    (name : Text) (image : Image) {p : Program} (hp : p = printer.program image)
    (hblocks : ∀ block ∈ p.blocks, block.2 ≠ []) :
    dumpBlocks (printer.dump name image) =
      p.blocks.map fun block => hexRows (p.addressOf block.1) block.2 := by
  rw [dump, header, if_neg (by simp [hheader]), List.nil_append, ← hp,
    Program.dumpBlocks_dumpRows hblocks]

/-- **A dump tells the image.**

    The bytes in its rows are those of the image, in their order.  Each row begins with the address
    of its first byte, counted from the load address and modulo the size of the memory.  A block
    begins where a line does, behind the last line if there are bytes left, and behind the two
    zero bytes there if more follow. -/
theorem dump_reads_back (printer : Printer) (hheader : printer.settings.showHeader = false)
    (name : Text) (image : Image) :
    let p := printer.program image
    let blocks := dumpBlocks (printer.dump name image)
    ∃ chunks : List (List (List UInt8)),
      blocks.mapM (·.mapM readHexRow?) = some chunks ∧
      chunks.flatten.flatten = image ∧
      blocks.flatten.mapM rowLabel? =
        some ((placesFrom 0 (chunks.flatten.map List.length)).map (labelAt p.origin)) ∧
      placesFrom 0 (chunks.map fun block => block.flatten.length) = p.lines.map Line.offset ++
        (if p.size < image.length then [p.size] else []) ++
        if image[p.size]? = some 0 ∧ image[p.size + 1]? = some 0 ∧ p.size + 2 < image.length
          then [p.size + 2] else [] := by
  intro p blocks
  have hdecodes : image.Decodes 0 0 p.lines := scanLines_decodes image 0 0
  have hsize : 0 + total (p.lines.map Line.length) = p.size := Nat.zero_add _
  have hfits : p.size ≤ p.image.length := hsize ▸ hdecodes.fits (Nat.zero_le _)
  have hlines : Tiles Line.offset Line.length 0 p.lines p.size := hsize ▸ hdecodes.tiles
  have htiles := Program.tiles_blocks hlines hfits
  have hblocks : blocks = p.blocks.map fun block => hexRows (p.addressOf block.1) block.2 :=
    dumpBlocks_dump hheader name image rfl <|
      Program.ne_nil_of_mem_blocks hlines hfits fun line hl => (hdecodes.standsIn line hl).five_le
  refine ⟨p.blocks.map fun block => hexChunks block.2, ?_, ?_, ?_, ?_⟩
  · rw [hblocks, List.mapM_map]
    simp only [Function.comp_def, mapM_readHexRow?]
    exact List.mapM_pure
  · have hchunks : (List.flatten ∘ fun block : Nat × List UInt8 => hexChunks block.2) = Prod.snd :=
      funext fun block => flatten_hexChunks block.2
    rw [List.flatten_flatten, List.map_map, hchunks]
    exact Program.flatMap_blocks hlines
  · rw [hblocks]
    exact mapM_rowLabel?_blocks p.origin htiles
  · calc placesFrom 0 _
        = placesFrom 0 (p.blocks.map fun block => block.2.length) := by
          simp only [List.map_map, Function.comp_def, flatten_hexChunks]
      _ = p.blocks.map Prod.fst := htiles.placesFrom_eq
      _ = _ := p.map_fst_blocks

/-- A line, the end of the program, and more bytes than a row holds. -/
def markedImage : Image := [0x07, 0x08, 10, 0, 0x80, 0, 0, 0] ++ List.replicate 17 0xFF

theorem dump_reads_back_markedImage :
    let printer : Printer := { settings := { showHeader := false } }
    let blocks := dumpBlocks (printer.dump [] markedImage)
    printer.settings.showHeader = false ∧ ∃ chunks : List (List (List UInt8)),
      blocks.mapM (·.mapM readHexRow?) = some chunks ∧
      chunks.flatten.flatten = markedImage ∧
      placesFrom 0 (chunks.map fun block => block.flatten.length) = [0, 6, 8] := by
  intro printer blocks
  obtain ⟨chunks, hread, hflatten, -, hplaces⟩ := dump_reads_back printer rfl [] markedImage
  refine ⟨rfl, chunks, hread, hflatten, hplaces.trans ?_⟩
  decide +kernel

end Printer

end BasicListing
