/-
  The rows that a long string is broken into.

  * `HoldsLongString`: a row holds one string, with its quotes too far apart.
  * `Breaks`: how such a row is broken.  There are as many rows as are needed,
    all but the last are full, and the last is not empty.
  * `wrapRow?_breaks_long_strings`: a row in ASCII is broken in this way if it
    holds a long string, and left alone if it does not.
-/
import BasicListing.Proofs.Bounds

namespace BasicListing

/-! ## Rows with a long string -/

/-- The row holds one string: its opening quote stands in the column `quote`, its closing quote
    more than `width` columns behind, and there is no other quote, no colon and no semicolon. -/
def HoldsLongString (width quote : Nat) (row : Text) : Prop :=
  ∃ before inside after, row = before ++ '"' :: (inside ++ '"' :: after) ∧
    before.length = quote ∧ width < 1 + inside.length ∧
    ('"' ∉ before ∧ '"' ∉ inside ∧ '"' ∉ after) ∧ ':' ∉ row ∧ ';' ∉ row

/-- A row is broken into rows at the given width, where the column of its opening quote is
    `quote`. -/
structure Breaks (width quote : Nat) (row : Text) (rows : List Text) : Prop where
  /-- The first cut is made inside the row, and so at no column beyond its length. -/
  inside : quote + width < row.length
  /-- All that stands behind the column of the quote is shared out, `width` to a row. -/
  count : rows.length = (row.length - quote + width - 1) / width
  first : rows.head? = some (row.take (quote + width))
  full : ∀ i, i + 2 < rows.length →
    ∃ piece, rows[i + 1]? = some (Text.spaces quote ++ piece) ∧ piece.length = width
  last : ∃ piece, rows.getLast? = some (Text.spaces quote ++ piece) ∧
    1 ≤ piece.length ∧ piece.length ≤ width
  /-- The row is cut as long as more than `width` is left of it, and comes back when each
      inserted line feed is taken away with the spaces behind it. -/
  pieces : ∃ pieces, Cuts width (quote + width) row pieces ∧ pieces.flatten = row ∧
    Text.ofRows rows = ('\n' :: Text.spaces quote).intercalate pieces

/-! ## Pieces and rows -/

theorem intercalate_append_cons (sep t u : Text) (rest : List Text) :
    sep.intercalate ((t ++ u) :: rest) = t ++ sep.intercalate (u :: rest) := by
  cases rest with
  | nil => simp
  | cons v rest => simp only [List.intercalate_cons_cons, List.append_assoc]

/-- Rows that are indented are the pieces of a text with the indentation put between them. -/
theorem ofRows_map_append (indent first : Text) (pieces : List Text) :
    Text.ofRows (first :: pieces.map (indent ++ ·)) =
      ('\n' :: indent).intercalate (first :: pieces) := by
  induction pieces generalizing first with
  | nil => simp [Text.ofRows]
  | cons piece pieces ih =>
    have hrest := ih (indent ++ piece)
    rw [intercalate_append_cons, Text.ofRows] at hrest
    rw [Text.ofRows, List.map_cons, List.intercalate_cons_cons, List.intercalate_cons_cons, hrest]
    simp

theorem length_flatten_of_forall {width : Nat} {pieces : List Text}
    (h : ∀ piece ∈ pieces, List.length piece = width) :
    pieces.flatten.length = width * pieces.length := by
  induction pieces with
  | nil => rfl
  | cons piece pieces ih =>
    obtain ⟨hpiece, hpieces⟩ := List.forall_mem_cons.1 h
    rw [List.flatten_cons, List.length_append, hpiece, ih hpieces, List.length_cons,
      Nat.mul_succ, Nat.add_comm]

/-- The pieces of a row in ASCII that is longer than the first of them. -/
theorem cutPieces?_lengths {width first : Nat} {row : Text} (hrow : row.Ascii)
    (hfirst : first < row.length) {pieces : List Text}
    (h : cutPieces? first width row = some pieces) :
    ∃ front full last, pieces = front :: (full ++ [last]) ∧ List.length front = first ∧
      (∀ piece ∈ full, List.length piece = width) ∧
      (1 ≤ List.length last ∧ List.length last ≤ width) := by
  have hflatten := cutPieces?_flatten h
  obtain ⟨init, last, rfl, hwidths, hlast, hne⟩ := cutPieces?_widths h
  have hlength : ∀ piece ∈ init ++ [last], Text.width piece = piece.length := fun piece hpiece =>
    Text.Ascii.width_eq fun c hc => hrow c (hflatten ▸ List.mem_flatten.2 ⟨piece, hpiece, hc⟩)
  rw [hlength last (by simp)] at hlast
  cases init with
  | nil =>
    obtain rfl : last = row := by simpa using hflatten
    rw [if_pos rfl] at hlast
    omega
  | cons front full =>
    rw [if_neg (by simp)] at hlast
    refine ⟨front, full, last, rfl, ?_, fun piece hpiece => ?_, ?_, hlast⟩
    · rw [← hlength front (by simp), hwidths 0 front rfl, if_pos rfl]
    · obtain ⟨i, hi⟩ := List.mem_iff_getElem?.1 hpiece
      rw [← hlength piece (by simp [hpiece]), hwidths (i + 1) piece hi, if_neg (by omega)]
    · exact List.length_pos_iff.2 (hne (by simp))

theorem breaks_of_cutPieces? {width quote : Nat} (hwidth : 0 < width) {row : Text}
    (hrow : row.Ascii) (hinside : quote + width < row.length) {pieces : List Text}
    (h : cutPieces? (quote + width) width row = some pieces)
    (hcuts : Cuts width (quote + width) row pieces) :
    Breaks width quote row (pieces.take 1 ++ (pieces.drop 1).map (Text.spaces quote ++ ·)) := by
  have hflatten := cutPieces?_flatten h
  obtain ⟨front, full, last, rfl, hfront, hfull, hpos, hlast⟩ := cutPieces?_lengths hrow hinside h
  have hlength : row.length = quote + width + (width * full.length + last.length) := by
    rw [← hflatten, List.flatten_cons, List.flatten_append, List.length_append, List.length_append,
      hfront, length_flatten_of_forall hfull]
    simp
  rw [List.take_succ_cons, List.take_zero, List.drop_succ_cons, List.drop_zero,
    List.singleton_append]
  refine ⟨hinside, ?_, ?_, fun i hbelow => ?_, ⟨last, ?_, hpos, hlast⟩, ?_⟩
  · have hshare : row.length - quote + width - 1 =
        width * (full.length + 2) + (last.length - 1) := by
      rw [Nat.mul_add]
      omega
    rw [hshare, Nat.mul_add_div hwidth, Nat.div_eq_of_lt (by omega)]
    simp
  · rw [List.head?_cons, ← hflatten, List.flatten_cons, List.take_left' hfront]
  · have hi : i < full.length := by simpa using hbelow
    refine ⟨full[i], ?_, hfull _ (List.getElem_mem hi)⟩
    rw [List.getElem?_cons_succ, List.map_append, List.getElem?_append_left (by simpa using hi),
      List.getElem?_map, List.getElem?_eq_getElem hi, Option.map_some]
  · rw [List.map_append, List.map_cons, List.map_nil, ← List.cons_append, List.getLast?_concat]
  · exact ⟨_, hcuts, hflatten, ofRows_map_append _ _ _⟩

/-- In a row in ASCII, columns are characters. -/
theorem holdsLongString_iff {width : Nat} (hwidth : 0 < width) {row : Text} (hrow : row.Ascii)
    {quote : Nat} :
    HoldsLongString width quote row ↔ needsWrap width row = true ∧ quoteColumn row = quote := by
  rw [needsWrap_iff]
  constructor
  · rintro ⟨before, inside, after, rfl, rfl, hdistance, hquotes, hnone⟩
    obtain ⟨hbefore, hbehind⟩ := Text.ascii_append.1 hrow
    have hinside := (Text.ascii_append.1 (List.forall_mem_cons.1 hbehind).2).1
    refine ⟨⟨by omega, before, inside, after, rfl, ?_, hquotes, hnone⟩, ?_⟩
    · rwa [hinside.width_eq]
    · rw [quoteColumn, takeWhile_bne_append hquotes.1, hbefore.width_eq]
  · rintro ⟨⟨-, before, inside, after, rfl, hdistance, hquotes, hnone⟩, rfl⟩
    obtain ⟨hbefore, hbehind⟩ := Text.ascii_append.1 hrow
    have hinside := (Text.ascii_append.1 (List.forall_mem_cons.1 hbehind).2).1
    refine ⟨before, inside, after, rfl, ?_, ?_, hquotes, hnone⟩
    · rw [quoteColumn, takeWhile_bne_append hquotes.1, hbefore.width_eq]
    · rwa [← hinside.width_eq]

/-- **Long strings are broken, and nothing else is.** -/
theorem wrapRow?_breaks_long_strings {width : Nat} (hwidth : 0 < width) {row : Text}
    (hrow : row.Ascii) :
    ((∀ quote, ¬ HoldsLongString width quote row) → wrapRow? width row = some [row]) ∧
      ∀ quote, HoldsLongString width quote row →
        ∃ rows, wrapRow? width row = some rows ∧ Breaks width quote row rows := by
  refine ⟨fun hnone => ?_, fun quote hlong => ?_⟩
  · rw [wrapRow?, if_neg fun hneeds =>
      hnone _ ((holdsLongString_iff hwidth hrow).2 ⟨hneeds, rfl⟩)]
  · obtain ⟨hneeds, rfl⟩ := (holdsLongString_iff hwidth hrow).1 hlong
    have hbreaks := breaksInside_of_ascii width hrow
    have hinside := hbreaks.lt_width hneeds
    obtain ⟨pieces, hpieces, hcuts⟩ := hbreaks.cuts hneeds
    rw [hrow.width_eq] at hinside
    refine ⟨_, ?_, breaks_of_cutPieces? hwidth hrow hinside hpieces hcuts⟩
    rw [wrapRow?, if_pos hneeds]
    exact Option.map_eq_some_iff.2 ⟨pieces, hpieces, rfl⟩

/-- A row with a string that ends where a row of four does. -/
def exactRow : Text := "PRINT \"ABCDEF\"".toList

theorem wrapRow?_breaks_long_strings_exactRow :
    exactRow.Ascii ∧ (0 < 7 ∧ ∀ quote, ¬ HoldsLongString 7 quote exactRow) ∧
      (0 < 4 ∧ HoldsLongString 4 6 exactRow) ∧ wrapRow? 7 exactRow = some [exactRow] ∧
      ∃ rows, wrapRow? 4 exactRow = some rows ∧ Breaks 4 6 exactRow rows ∧ rows.length = 2 := by
  have hascii : exactRow.Ascii := Text.Printable.ascii (by decide)
  have hlong : HoldsLongString 4 6 exactRow :=
    ⟨"PRINT ".toList, "ABCDEF".toList, [], by decide, by decide, by decide, by decide, by decide⟩
  have hnone : ∀ quote, ¬ HoldsLongString 7 quote exactRow := fun quote h => by
    have hneeds := ((holdsLongString_iff (by decide) hascii).1 h).1
    exact absurd hneeds (by decide)
  obtain ⟨rows, hrows, hbreaks⟩ :=
    (wrapRow?_breaks_long_strings (by decide : 0 < 4) hascii).2 6 hlong
  exact ⟨hascii, ⟨by decide, hnone⟩, ⟨by decide, hlong⟩,
    (wrapRow?_breaks_long_strings (by decide : 0 < 7) hascii).1 hnone, rows, hrows, hbreaks,
    by rw [hbreaks.count]; decide⟩

end BasicListing
