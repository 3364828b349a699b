/-
  Decoding loses no byte of a program and takes none twice.

  * `Line.StandsIn`: what a line is made of, as it stands in an image.
  * `Image.Decodes`: lines that stand one behind the other from some offset
    on, as far as the image has lines there.  `scanLines_decodes` says that
    decoding finds exactly these.
  * `Program.Covers`: what this means for a program and its image.
-/
import BasicListing.Program
import BasicListing.Proofs.Splitting
import Mathlib.Data.List.TakeWhile

namespace BasicListing

/-! ## Lines in an image -/

namespace Image

/-- The word at some offset of an image; a byte beyond its end counts as zero. -/
def wordAt (image : Image) (offset : Nat) : UInt16 :=
  word (image.getD offset 0) (image.getD (offset + 1) 0)

/-- There is no line at `offset`, where `previous` is the link of the line before it: fewer than
    five bytes are left, or the link is not greater than the one before it. -/
def EndsAt (image : Image) (previous : UInt16) (offset : Nat) : Prop :=
  image.length < offset + 5 ∨ image.wordAt offset ≤ previous

theorem wordAt_eq {image : Image} {offset : Nat} {low high : UInt8} {rest : List UInt8}
    (h : image.drop offset = low :: high :: rest) : image.wordAt offset = word low high := by
  have hget : ∀ i, image[offset + i]? = (low :: high :: rest)[i]? := by
    intro i
    rw [← h, List.getElem?_drop]
  have hlow : image[offset]? = some low := hget 0
  have hhigh : image[offset + 1]? = some high := hget 1
  simp [wordAt, List.getD_eq_getElem?_getD, hlow, hhigh]

end Image

/-- How a line stands in an image: its statements tile it behind its header, hold the bytes that
    stand there, and hold no zero byte.  A zero byte ends the last of them, unless the image ends
    there. -/
structure Line.StandsIn (image : Image) (line : Line) : Prop where
  number : line.number = image.wordAt (line.offset + 2)
  fits : line.offset + line.length ≤ image.length
  five_le : 5 ≤ line.length
  tiles : Tiles Statement.offset Statement.size (line.offset + headerSize) line.statements
    (line.offset + line.length)
  slice_eq : ∀ s ∈ line.statements, image.slice s.offset s.size = s.bytes
  zero_notMem : ∀ s ∈ line.statements, Code.endOfLine ∉ s.body
  opens : OpensFirst line.statements
  ends : ∃ init last, line.statements = init ++ [last] ∧ (∀ s ∈ init, s.ending ≠ .zero) ∧
    last.ending ≠ .colon ∧ (last.ending = .absent → line.offset + line.length = image.length)

section
variable {α : Type} [BEq α] [LawfulBEq α] {front : List α} {x : α}

/-- What stands before the first of some values. -/
theorem takeWhile_bne_append (h : x ∉ front) (back : List α) :
    (front ++ x :: back).takeWhile (· != x) = front := by
  rw [List.takeWhile_append_of_pos fun y hy => by
    simpa using fun heq : y = x => h (heq ▸ hy)]
  simp

theorem dropWhile_bne_append (h : x ∉ front) (back : List α) :
    (front ++ x :: back).dropWhile (· != x) = x :: back := by
  rw [List.dropWhile_append_of_pos fun y hy => by
    simpa using fun heq : y = x => h (heq ▸ hy)]
  simp

end

/-- The bytes behind a header are those of the body, the zero byte if there is one, and what
    follows. -/
theorem exists_behind_body (rest : List UInt8) :
    ∃ ending tail, (if rest.contains Code.endOfLine then Ending.zero else .absent) = ending ∧
      rest = rest.takeWhile (· != Code.endOfLine) ++ ending.bytes ++ tail ∧
      ending ≠ .colon ∧ (ending = .absent → tail = []) ∧
      (rest ≠ [] → 0 < (rest.takeWhile (· != Code.endOfLine)).length + ending.size) := by
  by_cases hzero : Code.endOfLine ∈ rest
  · obtain ⟨body, tail, rfl, hbody⟩ := List.eq_append_cons_of_mem hzero
    refine ⟨.zero, tail, by simp, ?_, by decide, by simp, fun _ => Nat.succ_pos _⟩
    rw [takeWhile_bne_append hbody]
    simp [Ending.bytes]
  · have hall : ∀ b ∈ rest, (b != Code.endOfLine) = true := by
      intro b hb
      simpa using fun heq : b = Code.endOfLine => hzero (heq ▸ hb)
    rw [List.takeWhile_eq_self_iff.2 hall]
    refine ⟨.absent, [], by simp [hzero], by simp [Ending.bytes], by decide, fun _ => rfl, ?_⟩
    exact fun hrest => Nat.add_pos_left (List.length_pos_iff.2 hrest) _

/-- **A line that is read stands in the image.** -/
theorem Line.ofRest_standsIn {image : Image} {offset : Nat} {linkLow linkHigh low high : UInt8}
    {rest : List UInt8} (himage : image.drop offset = linkLow :: linkHigh :: low :: high :: rest)
    (hrest : rest ≠ []) : (Line.ofRest (word low high) offset rest).StandsIn image := by
  obtain ⟨ending, tail, hending, hsplit, hcolon, htail, hpos⟩ := exists_behind_body rest
  set body := rest.takeWhile (· != Code.endOfLine) with hbody
  have hstatements : (Line.ofRest (word low high) offset rest).statements =
      splitBody (offset + headerSize) body ending := by
    rw [Line.ofRest, hending]
  have hmake := splitBody_makeUp (offset + headerSize) body ending
  rw [← hstatements] at hmake
  set line := Line.ofRest (word low high) offset rest
  have hbehind : image.drop (offset + headerSize) = rest := by
    rw [← List.drop_drop, himage]; rfl
  have hsize : line.bodySize = body.length + ending.size := by
    have := hmake.tiles.stop_eq
    rw [Line.bodySize]; omega
  have himageLength : image.length = offset + headerSize + rest.length := by
    have := congrArg List.length himage
    simp only [List.length_drop, List.length_cons] at this
    simp only [headerSize]; omega
  have hrestLength : rest.length = body.length + ending.size + tail.length := by
    conv_lhs => rw [hsplit]
    rw [List.length_append, List.length_append]; rfl
  have hoffset : line.offset = offset := rfl
  refine ⟨?_, ?_, ?_, ?_, ?_, ?_, hmake.opens, ?_⟩
  · have hdrop : image.drop (offset + 2) = low :: high :: rest := by
      rw [← List.drop_drop, himage]; rfl
    exact (Image.wordAt_eq hdrop).symm
  · rw [Line.length, hsize, hoffset]; omega
  · have := hpos hrest
    rw [Line.length, hsize, headerSize]; omega
  · have hstop : line.offset + line.length = offset + headerSize + body.length + ending.size := by
      rw [Line.length, hsize, hoffset]; omega
    rw [hstop]
    exact hmake.tiles
  · have hdrop : image.drop (offset + headerSize) =
        line.statements.flatMap Statement.bytes ++ tail := by
      rw [hmake.bytes, hbehind]; exact hsplit
    exact hmake.tiles.slice_eq Statement.length_bytes hdrop
  · intro s hs hzero
    have := List.mem_takeWhile_imp (hmake.body_subset hs hzero)
    simp at this
  · obtain ⟨init, last, hss, hlast, hinit⟩ := hmake.ends
    refine ⟨init, last, hss, hinit, hlast ▸ hcolon, fun habsent => ?_⟩
    rw [htail (hlast ▸ habsent)] at hrestLength
    rw [Line.length, hsize, hoffset, himageLength, hrestLength]
    simp only [List.length_nil]; omega

/-! ## Lines one behind the other -/

/-- The lines of an image from `offset` on, where `previous` is the link of the line before them:
    they stand there one behind the other, up to the first place where there is no line. -/
inductive Image.Decodes (image : Image) : UInt16 → Nat → List Line → Prop
  | stop {previous : UInt16} {offset : Nat} :
      image.EndsAt previous offset → Decodes image previous offset []
  | line {previous : UInt16} {offset : Nat} {line : Line} {lines : List Line} :
      ¬ image.EndsAt previous offset → line.offset = offset → line.StandsIn image →
      Decodes image (image.wordAt offset) (offset + line.length) lines →
      Decodes image previous offset (line :: lines)

/-- **Decoding finds the lines of an image**, as they stand there. -/
theorem scanLines_decodes (image : Image) (previous : UInt16) (offset : Nat) :
    image.Decodes previous offset (scanLines previous offset (image.drop offset)) := by
  generalize hbytes : image.drop offset = bytes
  have hlength := congrArg List.length hbytes
  rw [List.length_drop] at hlength
  fun_induction scanLines previous offset bytes with
  | case1 previous offset linkLow linkHigh low high rest hstop =>
    refine .stop ?_
    rcases Bool.or_eq_true_iff.1 hstop with hrest | hlink
    · left
      rw [List.isEmpty_iff.1 hrest] at hlength
      simp only [List.length_cons, List.length_nil] at hlength; omega
    · right
      rw [Image.wordAt_eq hbytes]
      simpa using hlink
  | case2 previous offset linkLow linkHigh low high rest hgo line ih =>
    have hlink := Image.wordAt_eq hbytes
    have hgo' : rest ≠ [] ∧ ¬ word linkLow linkHigh ≤ previous := by simpa using hgo
    have hbehind : image.drop (offset + line.length) = rest.drop line.bodySize := by
      have hheader : image.drop (offset + headerSize) = rest := by
        rw [← List.drop_drop, hbytes]; rfl
      rw [Line.length, ← Nat.add_assoc, ← List.drop_drop, hheader]
    refine .line ?_ rfl (Line.ofRest_standsIn hbytes hgo'.1) ?_
    · rintro (hshort | hle)
      · have := List.length_pos_iff.2 hgo'.1
        simp only [List.length_cons] at hlength; omega
      · rw [hlink] at hle; exact hgo'.2 hle
    · rw [hlink]
      exact ih hbehind (by rw [← hbehind, List.length_drop])
  | case3 previous offset bytes hshort =>
    refine .stop (.inl ?_)
    rcases bytes with _ | ⟨a, _ | ⟨b, _ | ⟨c, _ | ⟨d, rest⟩⟩⟩⟩
    case cons.cons.cons.cons => exact absurd rfl (hshort a b c d rest)
    all_goals simp only [List.length_cons, List.length_nil] at hlength; omega

namespace Image.Decodes

variable {image : Image} {previous : UInt16} {offset : Nat} {lines : List Line}

theorem tiles (h : image.Decodes previous offset lines) :
    Tiles Line.offset Line.length offset lines (offset + total (lines.map Line.length)) := by
  induction h with
  | stop => rfl
  | line _ hoffset _ _ ih =>
    rw [List.map_cons, total_cons, ← Nat.add_assoc]
    exact ⟨hoffset, ih⟩

theorem standsIn (h : image.Decodes previous offset lines) :
    ∀ line ∈ lines, line.StandsIn image := by
  induction h with
  | stop => simp
  | line _ _ hline _ ih =>
    rintro l (_ | ⟨_, hl⟩)
    · exact hline
    · exact ih l hl

theorem fits (h : image.Decodes previous offset lines) (hoffset : offset ≤ image.length) :
    offset + total (lines.map Line.length) ≤ image.length := by
  induction h with
  | stop => exact hoffset
  | line _ hl hline _ ih =>
    have := hline.fits
    rw [List.map_cons, total_cons, ← Nat.add_assoc]
    exact ih (by omega)

theorem links (h : image.Decodes previous offset lines) :
    (previous :: lines.map fun line => image.wordAt line.offset).IsChain (· < ·) := by
  induction h with
  | stop => exact .singleton _
  | line hgo hl _ _ ih =>
    subst hl
    refine .cons_cons ?_ ih
    exact UInt16.not_le.1 fun hle => hgo (.inr hle)

/-- Decoding goes on at each line, and stops behind the last. -/
theorem endsAt_iff (h : image.Decodes previous offset lines) {i : Nat} (hi : i ≤ lines.length) :
    image.EndsAt ((previous :: lines.map fun line => image.wordAt line.offset).getD i 0)
        (offset + total ((lines.take i).map Line.length)) ↔ i = lines.length := by
  induction h generalizing i with
  | stop hstop =>
    obtain rfl : i = 0 := by simpa using hi
    simpa using hstop
  | line hgo hl _ _ ih =>
    cases i with
    | zero => simpa using hgo
    | succ i =>
      have := ih (i := i) (by simpa using hi)
      simpa [← hl, Nat.add_assoc] using this

/-- A line without a zero byte is the last one, and ends the image. -/
theorem unended (h : image.Decodes previous offset lines) {i : Nat} {line : Line}
    (hi : lines[i]? = some line) {last : Statement} (hlast : line.statements.getLast? = some last)
    (habsent : last.ending = .absent) :
    i + 1 = lines.length ∧ line.offset + line.length = image.length := by
  induction h generalizing i with
  | stop => simp at hi
  | line _ hl hline hrest ih =>
    cases i with
    | zero =>
      obtain rfl : _ = line := by simpa using hi
      obtain ⟨init, last', hss, -, -, hend⟩ := hline.ends
      obtain rfl : last' = last := by simpa [hss] using hlast
      refine ⟨?_, hend habsent⟩
      -- No byte is left for a further line.
      cases hrest with
      | stop => rfl
      | line hgo => exact absurd (.inl (by have := hend habsent; omega)) hgo
    | succ i =>
      obtain ⟨hi', hend⟩ := ih (i := i) (by simpa using hi)
      exact ⟨by simp [hi'], hend⟩

end Image.Decodes

/-! ## Programs in their images -/

namespace Program

/-- The links of the lines of a program, in order. -/
def links (p : Program) : List UInt16 := p.lines.map fun line => p.image.wordAt line.offset

/-- The link of the line before the one with the given index, and zero for the first. -/
def linkBefore (p : Program) (index : Nat) : UInt16 := (0 :: p.links).getD index 0

/-- The statements with the indices from the first to the second number. -/
def statementsIn (p : Program) (range : Nat × Nat) : List Statement :=
  (p.statements.drop range.1).take (range.2 - range.1)

/-- The lines and statements of a program cover its image up to the place where decoding stops:
    no byte before it is lost or taken twice, and decoding stops where it has to. -/
structure Covers (p : Program) : Prop where
  /-- The lines stand one behind the other from the start of the image on. -/
  lines_tile : Tiles Line.offset Line.length 0 p.lines p.size
  size_le : p.size ≤ p.image.length
  length_ge : ∀ line ∈ p.lines, 5 ≤ line.length
  /-- Links increase, and none of them is zero. -/
  links_increase : (0 :: p.links).IsChain (· < ·)
  /-- The statements of all lines are the statements of each line, one line after the other. -/
  ranges_tile : Tiles Prod.fst (fun range => range.2 - range.1) 0 p.ranges p.statements.length
  range_pos : ∀ range ∈ p.ranges, range.1 < range.2
  statementsIn_ranges : p.ranges.map p.statementsIn = p.lines.map Line.statements
  /-- The statements of a line stand one behind the other, from its header up to its end. -/
  statements_tile : ∀ line ∈ p.lines, Tiles Statement.offset Statement.size (line.offset + 4)
    line.statements (line.offset + line.length)
  /-- The body of a statement is what stands in the image, without a zero byte. -/
  body_eq : ∀ s ∈ p.statements, p.image.slice s.offset s.body.length = s.body
  zero_notMem : ∀ s ∈ p.statements, Code.endOfLine ∉ s.body
  /-- A byte behind a statement is a colon, and behind the last of a line a zero byte. -/
  colon_behind : ∀ line ∈ p.lines, ∀ s ∈ line.statements.dropLast, s.ending.size = 1 →
    p.image[s.offset + s.body.length]? = some Code.colon
  zero_behind : ∀ line ∈ p.lines, ∀ s, line.statements.getLast? = some s → s.ending.size = 1 →
    p.image[s.offset + s.body.length]? = some Code.endOfLine
  /-- Only the last line can lack its zero byte, and only at the end of the image. -/
  unended : ∀ i line s, p.lines[i]? = some line → line.statements.getLast? = some s →
    s.ending.size ≠ 1 → i + 1 = p.lines.length ∧ line.offset + line.length = p.image.length
  /-- There are more lines as long as there can be one. -/
  goesOn : ∀ i line, p.lines[i]? = some line → ¬ p.image.EndsAt (p.linkBefore i) line.offset
  stops : p.image.EndsAt (p.linkBefore p.lines.length) p.size

end Program

/-! ### Ranges of statements -/

theorem tiles_rangesFrom (before : Nat) (lines : List Line) :
    Tiles Prod.fst (fun range => range.2 - range.1) before (Program.rangesFrom before lines)
      (before + (lines.flatMap Line.statements).length) := by
  induction lines generalizing before with
  | nil => rfl
  | cons line lines ih =>
    rw [List.flatMap_cons, List.length_append, ← Nat.add_assoc]
    refine ⟨rfl, ?_⟩
    rw [show before + (before + line.statements.length - before) =
      before + line.statements.length by omega]
    exact ih _

theorem lt_of_mem_rangesFrom {before : Nat} {lines : List Line}
    (hlines : ∀ line ∈ lines, line.statements ≠ []) :
    ∀ range ∈ Program.rangesFrom before lines, range.1 < range.2 := by
  induction lines generalizing before with
  | nil => simp [Program.rangesFrom]
  | cons line lines ih =>
    rintro range (_ | ⟨_, hrange⟩)
    · have := List.length_pos_iff.2 (hlines line (by simp))
      simp only; omega
    · exact ih (fun l hl => hlines l (by simp [hl])) range hrange

/-- The statements in the range of each line are its own, wherever the lines stand among
    others. -/
theorem map_rangesFrom (front : List Statement) (lines : List Line) :
    (Program.rangesFrom front.length lines).map (fun range =>
        ((front ++ lines.flatMap Line.statements).drop range.1).take (range.2 - range.1)) =
      lines.map Line.statements := by
  induction lines generalizing front with
  | nil => rfl
  | cons line lines ih =>
    simp only [Program.rangesFrom, List.map_cons, List.flatMap_cons]
    congr 1
    · simp
    · have := ih (front ++ line.statements)
      rw [List.length_append] at this
      simpa using this

/-! ### The theorem -/

theorem Statement.slice_body {image : Image} {s : Statement}
    (h : image.slice s.offset s.size = s.bytes) : image.slice s.offset s.body.length = s.body := by
  have hslice := congrArg (List.take s.body.length) h
  have hmin : min s.body.length s.size = s.body.length := by
    rw [Statement.size]; omega
  rwa [Image.slice, List.take_take, hmin, Statement.bytes, List.take_left] at hslice

theorem Line.StandsIn.body_eq {image : Image} {line : Line} (h : line.StandsIn image)
    {s : Statement} (hs : s ∈ line.statements) : image.slice s.offset s.body.length = s.body :=
  Statement.slice_body (h.slice_eq s hs)

theorem Line.StandsIn.behind {image : Image} {line : Line} (h : line.StandsIn image)
    {s : Statement} (hs : s ∈ line.statements) {b : UInt8} (hb : s.ending.bytes = [b]) :
    image[s.offset + s.body.length]? = some b := by
  have hslice := congrArg (·[s.body.length]?) (h.slice_eq s hs)
  have hlt : s.body.length < s.size := by
    rw [Statement.size, Ending.size, hb]; simp
  simpa [Image.slice, List.getElem?_take, hlt, Statement.bytes, hb] using hslice

theorem Line.StandsIn.statements_ne_nil {image : Image} {line : Line} (h : line.StandsIn image) :
    line.statements ≠ [] := by
  obtain ⟨init, last, hss, -⟩ := h.ends
  simp [hss]

/-- **Nothing is lost or taken twice by decoding**, whatever the image holds, and whichever
    keywords and assignments are looked for. -/
theorem Program.ofImage_covers (keywords : Keywords) (findAssignments : Bool) (image : Image) :
    (Program.ofImage keywords findAssignments image).Covers := by
  set p := Program.ofImage keywords findAssignments image
  have h : image.Decodes 0 0 p.lines := scanLines_decodes image 0 0
  have hstands := h.standsIn
  have hsize : 0 + total (p.lines.map Line.length) = p.size := Nat.zero_add _
  have hin : ∀ s ∈ p.statements, ∃ line ∈ p.lines, s ∈ line.statements :=
    fun s hs => List.mem_flatMap.1 hs
  refine ⟨hsize ▸ h.tiles, hsize ▸ h.fits (Nat.zero_le _), fun line hl => (hstands line hl).five_le,
    h.links, ?_, lt_of_mem_rangesFrom fun line hl => (hstands line hl).statements_ne_nil,
    map_rangesFrom [] p.lines, fun line hl => (hstands line hl).tiles, ?_, ?_, ?_, ?_, ?_, ?_, ?_⟩
  · have := tiles_rangesFrom 0 p.lines
    rwa [Nat.zero_add] at this
  · intro s hs
    obtain ⟨line, hl, hsl⟩ := hin s hs
    exact (hstands line hl).body_eq hsl
  · intro s hs
    obtain ⟨line, hl, hsl⟩ := hin s hs
    exact (hstands line hl).zero_notMem s hsl
  · intro line hl s hs hsz
    obtain ⟨init, last, hss, hinit, -⟩ := (hstands line hl).ends
    have hs' : s ∈ init := by simpa [hss] using hs
    refine (hstands line hl).behind (by simp [hss, hs']) ?_
    cases hending : s.ending with
    | colon => rfl
    | zero => exact absurd hending (hinit s hs')
    | absent => simp [hending, Ending.size, Ending.bytes] at hsz
  · intro line hl s hs hsz
    obtain ⟨init, last, hss, -, hcolon, -⟩ := (hstands line hl).ends
    obtain rfl : last = s := by simpa [hss] using hs
    refine (hstands line hl).behind (List.mem_of_getLast? hs) ?_
    cases hending : last.ending with
    | colon => exact absurd hending hcolon
    | zero => rfl
    | absent => simp [hending, Ending.size, Ending.bytes] at hsz
  · intro i line s hi hs hsz
    refine h.unended hi hs ?_
    cases hending : s.ending with
    | absent => rfl
    | _ => exact absurd (by rw [hending]; rfl) hsz
  · intro i line hi
    obtain ⟨hlt, -⟩ := List.getElem?_eq_some_iff.1 hi
    rw [h.tiles.offset_eq hi]
    exact fun hend => absurd ((h.endsAt_iff hlt.le).1 hend) hlt.ne
  · have := (h.endsAt_iff le_rfl).2 rfl
    rwa [List.take_length, hsize] at this

end BasicListing
