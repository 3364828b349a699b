/-
  Lines that are stored in memory are read back.

  * `linesAt`: the lines to be read where stored lines stand.
  * `scanLines_storeLines`: decoding reads these, and nothing of what follows
    the two zero bytes behind them.  It does not follow the links, but has to
    find the end of each line in its body.
  * `origin_storeLines`: the first link tells where the lines were stored.
  * `drop_storeLines`: what stands at the offset of each line, and so its link.
-/
import BasicListing.Image.Store
import BasicListing.Proofs.Decoding
import Mathlib.Data.List.Basic

namespace BasicListing

/-! ## Words -/

theorem toNat_word (low high : UInt8) : (word low high).toNat = low.toNat + 256 * high.toNat := by
  have hlow := low.toNat_lt
  have hhigh := high.toNat_lt
  simp only [word, UInt16.toNat_add, UInt16.toNat_mul, UInt8.toNat_toUInt16, UInt16.reduceToNat]
  omega

theorem word_wordBytes (w : UInt16) : word w.toUInt8 (w >>> 8).toUInt8 = w := by
  have hw := w.toNat_lt
  refine UInt16.toNat_inj.1 ?_
  simp only [toNat_word, UInt16.toNat_toUInt8, UInt16.toNat_shiftRight, UInt16.reduceToNat,
    Nat.shiftRight_eq_div_pow, Nat.reduceMod, Nat.reducePow]
  omega

/-! ## Lines -/

/-- The line to be read where a stored line stands. -/
def StoredLine.lineAt (offset : Nat) (stored : StoredLine) : Line where
  number := stored.number
  offset
  statements := splitBody (offset + headerSize) stored.body .zero

/-- The lines to be read where stored lines stand, the first of them at `offset`. -/
def linesAt : Nat → List StoredLine → List Line
  | _, [] => []
  | offset, stored :: rest => stored.lineAt offset :: linesAt (offset + stored.size) rest

theorem StoredLine.bodySize_lineAt (stored : StoredLine) (offset : Nat) :
    (stored.lineAt offset).bodySize = stored.body.length + 1 := by
  have hstop := (splitBody_makeUp (offset + headerSize) stored.body .zero).tiles.stop_eq
  have hone : Ending.zero.size = 1 := rfl
  simp only [Line.bodySize, StoredLine.lineAt]
  omega

theorem StoredLine.length_lineAt (stored : StoredLine) (offset : Nat) :
    (stored.lineAt offset).length = stored.size := by
  rw [Line.length, stored.bodySize_lineAt, StoredLine.size, Nat.add_assoc]

/-- A line ends at the zero byte behind its body, whatever the body holds. -/
theorem StoredLine.ofRest_eq {stored : StoredLine} (hbody : Code.endOfLine ∉ stored.body)
    (offset : Nat) (rest : List UInt8) :
    Line.ofRest stored.number offset (stored.body ++ Code.endOfLine :: rest) =
      stored.lineAt offset := by
  rw [Line.ofRest, takeWhile_bne_append hbody, StoredLine.lineAt]
  simp

theorem length_linesAt (offset : Nat) (lines : List StoredLine) :
    (linesAt offset lines).length = lines.length := by
  induction lines generalizing offset with
  | nil => rfl
  | cons stored rest ih => rw [linesAt, List.length_cons, ih, List.length_cons]

theorem map_length_linesAt (offset : Nat) (lines : List StoredLine) :
    (linesAt offset lines).map Line.length = lines.map StoredLine.size := by
  induction lines generalizing offset with
  | nil => rfl
  | cons stored rest ih =>
    rw [linesAt, List.map_cons, ih, stored.length_lineAt, List.map_cons]

theorem getElem?_linesAt (offset : Nat) (lines : List StoredLine) (i : Nat) :
    (linesAt offset lines)[i]? =
      lines[i]?.map (·.lineAt (offset + total ((lines.take i).map StoredLine.size))) := by
  induction lines generalizing offset i with
  | nil => rfl
  | cons stored rest ih =>
    cases i with
    | zero => simp [linesAt]
    | succ i => simp [linesAt, ih, Nat.add_assoc]

/-! ## Decoding -/

theorem toNat_add_size {address : UInt16} {stored : StoredLine} {rest : List StoredLine}
    (hfits : address.toNat + total ((stored :: rest).map StoredLine.size) < 0x10000) :
    (address + UInt16.ofNat stored.size).toNat = address.toNat + stored.size := by
  rw [List.map_cons, total_cons] at hfits
  rw [UInt16.toNat_add, UInt16.toNat_ofNat']
  omega

theorem scanLines_line {previous : UInt16} {linkLow linkHigh : UInt8} {rest : List UInt8}
    (hrest : rest ≠ []) (hlink : ¬ word linkLow linkHigh ≤ previous) (offset : Nat)
    (low high : UInt8) {line : Line} (hline : Line.ofRest (word low high) offset rest = line) :
    scanLines previous offset (linkLow :: linkHigh :: low :: high :: rest) =
      line :: scanLines (word linkLow linkHigh) (offset + line.length)
        (rest.drop line.bodySize) := by
  subst hline
  rw [scanLines, if_neg (by simp [hrest, hlink])]

/-- **Decoding reads stored lines**, up to the two zero bytes behind them. -/
theorem scanLines_storeLines {lines : List StoredLine} {previous address : UInt16}
    (hbody : ∀ line ∈ lines, Code.endOfLine ∉ line.body)
    (hfits : address.toNat + total (lines.map StoredLine.size) < 0x10000)
    (hprevious : previous ≤ address) (offset : Nat) (junk : List UInt8) :
    scanLines previous offset (storeLines address lines ++ 0 :: 0 :: junk) =
      linesAt offset lines := by
  induction lines generalizing previous address offset with
  | nil =>
    have hzero : word 0 0 ≤ previous := UInt16.le_iff_toNat_le.2 (Nat.zero_le _)
    rcases junk with _ | ⟨low, _ | ⟨high, rest⟩⟩
    · rw [storeLines, List.nil_append, scanLines, linesAt]; simp
    · rw [storeLines, List.nil_append, scanLines, linesAt]; simp
    · rw [storeLines, List.nil_append, scanLines, linesAt]; simp [hzero]
  | cons stored rest ih =>
    set next := address + UInt16.ofNat stored.size with hnext
    have hnat : next.toNat = address.toNat + stored.size := toNat_add_size hfits
    have hlink : ¬ next ≤ previous := by
      rw [UInt16.le_iff_toNat_le, hnat]
      rw [UInt16.le_iff_toNat_le] at hprevious
      rw [StoredLine.size, headerSize]; omega
    have hrest : next.toNat + total (rest.map StoredLine.size) < 0x10000 := by
      rw [List.map_cons, total_cons] at hfits; omega
    have hbytes : storeLines address (stored :: rest) ++ 0 :: 0 :: junk =
        next.toUInt8 :: (next >>> 8).toUInt8 :: stored.number.toUInt8 ::
          (stored.number >>> 8).toUInt8 ::
            (stored.body ++ Code.endOfLine :: (storeLines next rest ++ 0 :: 0 :: junk)) := by
      simp [storeLines, wordBytes, ← hnext]
    have hline : Line.ofRest (word stored.number.toUInt8 (stored.number >>> 8).toUInt8) offset
        (stored.body ++ Code.endOfLine :: (storeLines next rest ++ 0 :: 0 :: junk)) =
          stored.lineAt offset := by
      rw [word_wordBytes]; exact StoredLine.ofRest_eq (hbody stored (by simp)) offset _
    rw [hbytes, scanLines_line (by simp) (by rwa [word_wordBytes]) offset _ _ hline,
      word_wordBytes, stored.length_lineAt, stored.bodySize_lineAt, linesAt,
      ← ih (fun l hl => hbody l (by simp [hl])) hrest UInt16.le_rfl]
    -- What is left behind the body and its zero byte are the lines after this one.
    rw [List.append_cons, List.drop_left' (by simp)]

/-! ## Addresses -/

/-- **The first link tells where the lines were stored.** -/
theorem origin_storeLines {stored : StoredLine} {rest : List StoredLine} {origin : UInt16}
    (hbody : Code.endOfLine ∉ stored.body)
    (hfits : origin.toNat + total ((stored :: rest).map StoredLine.size) < 0x10000)
    (tail : List UInt8) :
    Image.origin (storeLines origin (stored :: rest) ++ tail) = origin := by
  set next := origin + UInt16.ofNat stored.size with hnext
  have hnat : next.toNat = origin.toNat + stored.size := toNat_add_size hfits
  have hzero : next ≠ 0 := by
    intro h
    rw [h, StoredLine.size] at hnat
    simp at hnat
  have hsize : headerSize + 1 + stored.body.length = stored.size := by
    rw [StoredLine.size]; omega
  simp only [storeLines, wordBytes, ← hnext, List.cons_append, List.nil_append,
    List.append_assoc, Image.origin, Image.firstLineSize, word_wordBytes, if_neg hzero,
    List.drop_succ_cons, List.drop_zero, takeWhile_bne_append hbody, hsize]
  rw [hnext, UInt16.add_sub_cancel]

theorem drop_storeLines (address : UInt16) (lines : List StoredLine) (tail : List UInt8)
    {i : Nat} (hi : i ≤ lines.length) :
    (storeLines address lines ++ tail).drop (total ((lines.take i).map StoredLine.size)) =
      storeLines (address + UInt16.ofNat (total ((lines.take i).map StoredLine.size)))
        (lines.drop i) ++ tail := by
  induction lines generalizing address i with
  | nil => obtain rfl : i = 0 := by simpa using hi
           simp
  | cons stored rest ih =>
    cases i with
    | zero => simp
    | succ i =>
      have hhead : (storeLines address (stored :: rest) ++ tail).drop stored.size =
          storeLines (address + UInt16.ofNat stored.size) rest ++ tail := by
        have hlength : (wordBytes (address + UInt16.ofNat stored.size) ++
            wordBytes stored.number ++ stored.body ++ [Code.endOfLine]).length =
              stored.size := by
          simp only [StoredLine.size, headerSize, List.length_append, length_wordBytes,
            List.length_singleton]
        rw [storeLines, List.append_cons, List.append_assoc]
        exact List.drop_left' hlength
      rw [List.take_succ_cons, List.map_cons, total_cons, ← List.drop_drop, hhead,
        ih _ (by simpa using hi), List.drop_succ_cons, UInt16.ofNat_add, UInt16.add_assoc]

/-- The link of a stored line is the address behind it. -/
theorem wordAt_storeLines (address : UInt16) {lines : List StoredLine} (tail : List UInt8)
    {i : Nat} (hi : i < lines.length) :
    Image.wordAt (storeLines address lines ++ tail) (total ((lines.take i).map StoredLine.size)) =
      address + UInt16.ofNat (total ((lines.take (i + 1)).map StoredLine.size)) := by
  have hdrop := drop_storeLines address lines tail hi.le
  rw [List.drop_eq_getElem_cons hi, storeLines, wordBytes] at hdrop
  rw [Image.wordAt_eq hdrop, word_wordBytes, List.take_succ_eq_append_getElem hi,
    List.map_append, total_append, UInt16.ofNat_add, UInt16.add_assoc]
  simp

/-! ## Round trip -/

/-- **Stored lines are read back**, wherever they were stored and whatever follows them: their
    numbers, their places and all bytes of their bodies.  The program knows where it was stored,
    ends at the two zero bytes, and each link is the address of the line after it. -/
theorem Program.ofImage_store (keywords : Keywords) (findAssignments : Bool) (origin : UInt16)
    (lines : List StoredLine) (junk : List UInt8) (hlines : lines ≠ [])
    (hbody : ∀ line ∈ lines, Code.endOfLine ∉ line.body)
    (hfits : origin.toNat + total (lines.map StoredLine.size) < 0x10000) :
    let image := Image.store origin lines ++ junk
    let p := Program.ofImage keywords findAssignments image
    p.lines.length = lines.length ∧
    (∀ i line stored, p.lines[i]? = some line → lines[i]? = some stored →
      line.number = stored.number ∧
      line.offset = total ((lines.take i).map StoredLine.size) ∧
      line.length = stored.size ∧
      line.statements.flatMap (fun s => image.slice s.offset s.size) = stored.body ++ [0]) ∧
    p.origin = origin ∧
    p.size = (storeLines origin lines).length ∧
    ∀ i before line, p.lines[i]? = some before → p.lines[i + 1]? = some line →
      p.addressOf line.offset = image.wordAt before.offset := by
  intro image p
  have himage : image = storeLines origin lines ++ 0 :: 0 :: junk := by
    simp [image, Image.store]
  have hp : p.lines = linesAt 0 lines := by
    have hzero : (0 : UInt16) ≤ origin := UInt16.le_iff_toNat_le.2 (Nat.zero_le _)
    have := scanLines_storeLines hbody hfits hzero 0 junk
    rw [← himage] at this
    exact this
  have hdecodes : image.Decodes 0 0 p.lines := scanLines_decodes image 0 0
  have horigin : p.origin = origin := by
    obtain ⟨stored, rest, rfl⟩ := List.exists_cons_of_ne_nil hlines
    have := origin_storeLines (hbody stored (by simp)) hfits (0 :: 0 :: junk)
    rw [← himage] at this
    exact this
  have hline : ∀ i line, p.lines[i]? = some line → ∃ stored : StoredLine,
      lines[i]? = some stored ∧
        line = stored.lineAt (total ((lines.take i).map StoredLine.size)) := by
    intro i line hi
    rw [hp, getElem?_linesAt, Option.map_eq_some_iff, Nat.zero_add] at hi
    obtain ⟨stored, hstored, rfl⟩ := hi
    exact ⟨stored, hstored, rfl⟩
  refine ⟨by rw [hp, length_linesAt], ?_, horigin, ?_, ?_⟩
  · intro i line stored hi hstored
    obtain ⟨stored', hstored', rfl⟩ := hline i line hi
    obtain rfl : stored' = stored := Option.some.inj (hstored'.symm.trans hstored)
    refine ⟨rfl, rfl, stored'.length_lineAt _, ?_⟩
    have hslices := (hdecodes.standsIn _ (List.mem_of_getElem? hi)).slice_eq
    rw [List.flatMap_congr hslices]
    exact (splitBody_makeUp _ stored'.body .zero).bytes
  · rw [Program.size, hp, map_length_linesAt, length_storeLines]
  · intro i before line hbefore hnext
    obtain ⟨stored, hstored, rfl⟩ := hline i before hbefore
    obtain ⟨-, -, rfl⟩ := hline (i + 1) line hnext
    obtain ⟨hi, -⟩ := List.getElem?_eq_some_iff.1 hstored
    have hlink := wordAt_storeLines origin (0 :: 0 :: junk) hi
    rw [← himage] at hlink
    rw [Program.addressOf, horigin]
    exact hlink.symm

/-- A line with a colon in a string, an `IF` and an empty statement, and an empty line behind
    it. -/
def twoStoredLines : List StoredLine :=
  [⟨10, [0xBA, 0x22, 0x3A, 0x22, 0x3A, 0xAD, 0x58, 0xC4, 0x32, 0x30, 0x3A]⟩, ⟨20, []⟩]

theorem Program.ofImage_store_twoStoredLines :
    let image := Image.store 0x801 twoStoredLines ++ [0xFF, 0xFF, 1, 2, 3]
    let p := Program.ofImage Keywords.standard true image
    twoStoredLines ≠ [] ∧ (∀ line ∈ twoStoredLines, Code.endOfLine ∉ line.body) ∧
    (0x801 : UInt16).toNat + total (twoStoredLines.map StoredLine.size) < 0x10000 ∧
    p.lines.length = 2 ∧ p.origin = 0x801 ∧ p.size = 21 := by
  have hlines : twoStoredLines ≠ [] := by decide
  have hbody : ∀ line ∈ twoStoredLines, Code.endOfLine ∉ line.body := by decide
  have hfits : (0x801 : UInt16).toNat + total (twoStoredLines.map StoredLine.size) < 0x10000 := by
    decide
  obtain ⟨hlength, -, horigin, hsize, -⟩ := Program.ofImage_store Keywords.standard true 0x801
    twoStoredLines [0xFF, 0xFF, 1, 2, 3] hlines hbody hfits
  exact ⟨hlines, hbody, hfits, hlength, horigin, hsize⟩

end BasicListing
