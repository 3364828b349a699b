/-
  Nothing is read or cut where there is nothing.

  * `Image.slice?`, `Text.cut?`: bytes of an image and the two parts of a text,
    if they are there.
  * `Cuts`: how rows are cut off a text, each of them where it can be cut.
  * `LinePass.Shallow`: how deep the pass is in loops and clauses.  There are at
    most half as many as the image has bytes (`visits_shallow`).
  * `Program.InBounds`: all that is read and written is there, and no number is
    larger than the image is long, but for a few columns.
  * `Printer.listing_in_bounds`: this holds for every image.
-/
import BasicListing.Proofs.LoopClosing
import BasicListing.Proofs.Positions

namespace BasicListing

/-! ## Bytes and texts that are there -/

/-- The `length` bytes of an image from `offset` on, if it has as many. -/
def Image.slice? (image : Image) (offset length : Nat) : Option (List UInt8) :=
  if offset + length ≤ image.length then some (image.slice offset length) else none

theorem Image.slice?_of_le {image : Image} {offset length : Nat}
    (h : offset + length ≤ image.length) :
    image.slice? offset length = some (image.slice offset length) :=
  if_pos h

theorem Image.slice?_of_drop {image : Image} {offset : Nat} {bytes rest : List UInt8}
    (hoffset : offset ≤ image.length) (h : image.drop offset = bytes ++ rest) :
    image.slice? offset bytes.length = some bytes := by
  have hlength := congrArg List.length h
  rw [List.length_drop, List.length_append] at hlength
  rw [slice?_of_le (by omega), slice, h, List.take_left]

/-- A text in two parts, of which the first takes `columns`.  `none` if the text is shorter, or if
    it would have to be cut inside a character. -/
def Text.cut? : Nat → Text → Option (Text × Text)
  | 0, t => some ([], t)
  | _ + 1, [] => none
  | columns + 1, c :: t =>
    if c.utf8Size ≤ columns + 1 then
      (cut? (columns + 1 - c.utf8Size) t).map fun (front, back) => (c :: front, back)
    else none

theorem Text.cut?_append (front back : Text) :
    cut? (width front) (front ++ back) = some (front, back) := by
  induction front with
  | nil => cases back <;> rfl
  | cons c front ih =>
    obtain ⟨columns, hcolumns⟩ : ∃ columns, width (c :: front) = columns + 1 := by
      have := c.utf8Size_pos
      exact ⟨width (c :: front) - 1, by rw [width_cons]; omega⟩
    have hrest : columns + 1 - c.utf8Size = width front := by
      rw [← hcolumns, width_cons]
      omega
    have hfits : c.utf8Size ≤ columns + 1 := by
      rw [← hcolumns, width_cons]
      omega
    rw [hcolumns, List.cons_append, cut?, if_pos hfits, hrest, ih]
    rfl

/-! ## Cutting rows -/

/-- Rows are cut off a text, the first with `first` columns and each other one with `width`, as
    long as more than `width` columns are left. -/
inductive Cuts (width : Nat) : Nat → Text → List Text → Prop
  | last {first : Nat} {t row rest : Text} : t.cut? first = some (row, rest) →
      rest.width ≤ width → Cuts width first t [row, rest]
  | next {first : Nat} {t row rest : Text} {rows : List Text} :
      t.cut? first = some (row, rest) → width < rest.width → Cuts width width rest rows →
      Cuts width first t (row :: rows)

theorem cuts_of_widths {width first : Nat} {init : List Text} {last : Text} (hinit : init ≠ [])
    (hwidths : ∀ i row, init[i]? = some row → Text.width row = if i = 0 then first else width)
    (hlast : last.width ≤ width) (hne : last ≠ []) :
    Cuts width first (init ++ [last]).flatten (init ++ [last]) := by
  induction init generalizing first with
  | nil => exact absurd rfl hinit
  | cons row init ih =>
    have hrow : row.width = first := hwidths 0 row rfl
    have hcut : Text.cut? first (row ++ (init ++ [last]).flatten) =
        some (row, (init ++ [last]).flatten) := by
      rw [← hrow]
      exact Text.cut?_append _ _
    cases init with
    | nil => exact .last (by simpa using hcut) hlast
    | cons row' init =>
      -- A full row is left, and something behind it.
      have hrow' : row'.width = width := hwidths 1 row' rfl
      have hpos : 0 < last.width := by
        rw [Nat.pos_iff_ne_zero]
        exact fun hzero => hne (Text.eq_nil_of_width_eq_zero hzero)
      refine .next hcut ?_ (ih (by simp) ?_)
      · simp only [List.cons_append, List.flatten_cons, List.flatten_append, Text.width_append,
          List.flatten_nil, List.append_nil]
        omega
      · intro i row'' hi
        rw [hwidths (i + 1) row'' hi, if_neg (by omega), ite_self]

/-- The column of the first quote in a row. -/
def quoteColumn (row : Text) : Nat := Text.width (row.takeWhile (· != '"'))

/-- A row can be taken apart at its first quote, and broken at the given width. -/
structure BreaksInside (width : Nat) (row : Text) : Prop where
  quote : '"' ∈ row → ∃ before behind, row.cut? (quoteColumn row) = some (before, '"' :: behind)
  lt_width : needsWrap width row = true → quoteColumn row + width < row.width
  cuts : needsWrap width row = true → ∃ rows,
    cutPieces? (quoteColumn row + width) width row = some rows ∧
      Cuts width (quoteColumn row + width) row rows

/-- The rows that are broken hold one string that is too long, and no separator. -/
theorem needsWrap_iff {width : Nat} {row : Text} :
    needsWrap width row = true ↔ width ≠ 0 ∧ ∃ before inside after,
      row = before ++ '"' :: (inside ++ '"' :: after) ∧ width < 1 + Text.width inside ∧
      ('"' ∉ before ∧ '"' ∉ inside ∧ '"' ∉ after) ∧ ':' ∉ row ∧ ';' ∉ row := by
  simp only [needsWrap, Bool.and_eq_true, bne_iff_ne, beq_iff_eq, Bool.not_eq_true',
    ← Bool.not_eq_true, List.contains_iff_mem, decide_eq_true_eq]
  constructor
  · rintro ⟨⟨⟨⟨hwidth, hcount⟩, hcolon⟩, hsemicolon⟩, hdistance⟩
    obtain ⟨before, behind, rfl, hbefore⟩ :=
      List.eq_append_cons_of_mem (List.count_pos_iff.1 (by omega : 0 < row.count '"'))
    rw [List.count_append, List.count_cons_self, List.count_eq_zero_of_not_mem hbefore] at hcount
    obtain ⟨inside, after, rfl, hinside⟩ :=
      List.eq_append_cons_of_mem (List.count_pos_iff.1 (by omega : 0 < behind.count '"'))
    rw [List.count_append, List.count_cons_self, List.count_eq_zero_of_not_mem hinside] at hcount
    rw [quoteDistance, dropWhile_bne_append hbefore, List.drop_one, List.tail_cons,
      takeWhile_bne_append hinside] at hdistance
    exact ⟨hwidth, before, inside, after, rfl, hdistance,
      ⟨hbefore, hinside, List.count_eq_zero.1 (by omega)⟩, hcolon, hsemicolon⟩
  · rintro ⟨hwidth, before, inside, after, rfl, hdistance, ⟨hbefore, hinside, hafter⟩, hnone⟩
    refine ⟨⟨⟨⟨hwidth, ?_⟩, hnone.1⟩, hnone.2⟩, ?_⟩
    · rw [List.count_append, List.count_cons_self, List.count_append, List.count_cons_self,
        List.count_eq_zero_of_not_mem hbefore, List.count_eq_zero_of_not_mem hinside,
        List.count_eq_zero_of_not_mem hafter]
    · rwa [quoteDistance, dropWhile_bne_append hbefore, List.drop_one, List.tail_cons,
        takeWhile_bne_append hinside]

theorem quoteColumn_add_lt {width : Nat} {row : Text} (h : needsWrap width row = true) :
    quoteColumn row + width < row.width := by
  obtain ⟨-, before, inside, after, rfl, hdistance, ⟨hbefore, -, -⟩, -⟩ := needsWrap_iff.1 h
  rw [quoteColumn, takeWhile_bne_append hbefore, Text.width_append, Text.width_cons,
    Text.width_append, Text.width_cons]
  have := Char.utf8Size_pos '"'
  omega

theorem breaksInside_of_ascii (width : Nat) {row : Text} (hrow : row.Ascii) :
    BreaksInside width row := by
  refine ⟨fun hquote => ?_, quoteColumn_add_lt, fun hneeds => ?_⟩
  · obtain ⟨before, behind, rfl, hbefore⟩ := List.eq_append_cons_of_mem hquote
    refine ⟨before, behind, ?_⟩
    rw [quoteColumn, takeWhile_bne_append hbefore]
    exact Text.cut?_append _ _
  · have hlt := quoteColumn_add_lt hneeds
    have hwidth : width ≠ 0 := by
      rintro rfl
      simp [needsWrap] at hneeds
    obtain ⟨rows, hrows⟩ := exists_cutPieces? hwidth
      (fun c hc => Text.utf8Size_of_le (hrow c hc)) (quoteColumn row + width)
    have hflatten := cutPieces?_flatten hrows
    obtain ⟨init, last, rfl, hwidths, hlast, hne⟩ := cutPieces?_widths hrows
    have hinit : init ≠ [] := by
      rintro rfl
      rw [if_pos rfl] at hlast
      simp only [List.nil_append, List.flatten_cons, List.flatten_nil, List.append_nil] at hflatten
      rw [hflatten] at hlast
      omega
    rw [if_neg hinit] at hlast
    refine ⟨_, hrows, ?_⟩
    have hcuts := cuts_of_widths hinit hwidths hlast (hne hinit)
    rwa [hflatten] at hcuts

/-! ## Hidden code -/

/-- An operation that is shown as one has all bytes of its operand. -/
def CodeRow.HasOperand (row : CodeRow) : Prop :=
  ∀ op, row.kind = .operation op → row.bytes.length = 1 + op.mode.operandSize

theorem CodeRow.hasOperand_ofBytes (address : UInt16) (b : UInt8) (rest : List UInt8) :
    (ofBytes address b rest).HasOperand := by
  intro op hop
  unfold ofBytes at hop ⊢
  split at hop
  · simp at hop
  · simp only at hop ⊢
    split_ifs at hop ⊢ with hoperand
    obtain rfl := CodeKind.operation.inj hop
    rw [List.length_cons, hoperand, Nat.add_comm]

/-- What holds of the row that any code begins with holds of all rows of a sweep. -/
theorem sweep_forall {Q : CodeRow → Prop} (h : ∀ address b rest, Q (.ofBytes address b rest))
    (address : UInt16) (bytes : List UInt8) : ∀ row ∈ sweep address bytes, Q row := by
  have hbehind : ∀ above : List CodeRow, (∀ row ∈ above, Q row) →
      ∀ row ∈ sweepBehind above address bytes, Q row := by
    intro above habove
    fun_induction sweepBehind above address bytes with
    | case1 above => simpa using habove
    | case2 above address b rest row ih =>
      exact ih (List.forall_mem_cons.2 ⟨h address b rest, habove⟩)
  exact hbehind [] (by simp)

/-! ## Depth -/

namespace LinePass

/-- The pass is at most so deep in loops and clauses. -/
structure Shallow (depth : Nat) (pass : LinePass) : Prop where
  indent : pass.indent ≤ depth
  floor : pass.floor ≤ depth
  loops : pass.loops.length ≤ depth

variable {settings : Settings} {p : Program} {pass next : LinePass} {site : Site} {depth : Nat}

theorem Shallow.mono (h : pass.Shallow depth) {depth' : Nat} (hle : depth ≤ depth') :
    pass.Shallow depth' :=
  ⟨h.indent.trans hle, h.floor.trans hle, h.loops.trans hle⟩

theorem Shallow.begin (pass : Pass) (h : pass.loops.length ≤ depth) (start : Text) :
    (begin pass start).Shallow depth :=
  ⟨h, Nat.zero_le _, h⟩

theorem Shallow.closeLoops (h : pass.Shallow depth) (s : Statement) :
    (pass.closeLoops s).Shallow depth := by
  unfold LinePass.closeLoops
  split
  · rename_i vs _
    have hloops := (pass.loops.close_suffix vs).length_le.trans h.loops
    exact ⟨Nat.max_le.2 ⟨h.floor, hloops⟩, h.floor, hloops⟩
  · exact h

theorem Shallow.openBlock (h : pass.Shallow depth) (s : Statement) :
    (pass.openBlock s).Shallow (depth + if s.opensBlock then 1 else 0) := by
  have hindent := h.indent
  have hfloor := h.floor
  have hloops := h.loops
  by_cases hopens : s.opensBlock = true
  · rw [if_pos hopens]
    unfold LinePass.openBlock
    split
    · exact ⟨by simpa using hindent, by simpa using hindent, by simp only; omega⟩
    · exact ⟨by simpa using hindent, by simp only; omega, by simpa using hloops⟩
    · exact h.mono (Nat.le_add_right _ _)
  · obtain ⟨hfor, hif⟩ := not_or.1 (mt Statement.opensBlock_iff.2 hopens)
    rw [if_neg hopens, openBlock_of_head_ne hif hfor]
    exact h

/-- **A step goes at most one deeper**, and only at a statement that opens a loop or a clause. -/
theorem Step.shallow (h : Step settings p pass site next) (hpass : pass.Shallow depth) :
    next.Shallow (depth + if site.statement.opensBlock then 1 else 0) := by
  have hkeep := hpass.mono (Nat.le_add_right depth (if site.statement.opensBlock then 1 else 0))
  cases h with
  | skip => exact ⟨hkeep.indent, hkeep.floor, hkeep.loops⟩
  | code => exact ⟨hkeep.indent, hkeep.floor, hkeep.loops⟩
  | join => exact ⟨hkeep.indent, hkeep.floor, hkeep.loops⟩
  | row _ _ _ ready hready =>
    have hclosed := hpass.closeLoops site.statement
    refine Shallow.openBlock ⟨?_, ?_, ?_⟩ site.statement
    all_goals subst hready
    · simpa [place] using hclosed.indent
    · simpa [place] using hclosed.floor
    · simpa [place] using hclosed.loops

end LinePass

section
variable {settings : Settings} {p : Program} {v w : Visit}

theorem Visit.Next.shallow (h : Visit.Next settings p v w) {depth : Nat}
    (hpass : v.pass.Shallow depth) :
    w.pass.Shallow (depth + if v.site.statement.opensBlock then 1 else 0) := by
  cases h with
  | inLine line later conditional s s' after pass next hstep => exact hstep.shallow hpass
  | newLine line line' later conditional s s' after pass next hs' hstep =>
    exact .begin next.finish (hstep.shallow hpass).loops _

theorem blockCount_take_add_one {ss : List Statement} {k : Nat} {s : Statement}
    (hs : ss[k]? = some s) :
    blockCount (ss.take (k + 1)) = blockCount (ss.take k) + if s.opensBlock then 1 else 0 := by
  have hnil : blockCount [] = 0 := rfl
  rw [List.take_add_one, hs, Option.toList_some, blockCount_append, blockCount_cons, hnil,
    Nat.zero_add]

/-- **The pass is never deeper than loops and clauses have been opened.** -/
theorem visits_shallow (hlines : ∀ line ∈ p.lines, line.statements ≠ []) {k : Nat}
    (hv : (p.visits settings)[k]? = some v) :
    v.pass.Shallow (blockCount (p.statements.take k)) := by
  refine visits_induction (Q := fun k v => v.pass.Shallow (blockCount (p.statements.take k)))
    hlines ?_ ?_ hv
  · intro v hv
    obtain ⟨start, hpass, -⟩ := pass_first_visit hlines hv
    rw [hpass]
    exact .begin {} (Nat.zero_le _) _
  · intro k v w hv hnext ih _
    rw [blockCount_take_add_one (statement_visit hv)]
    exact hnext.shallow ih

theorem shallow_visit (hlines : ∀ line ∈ p.lines, line.statements ≠ []) {depth : Nat}
    (hdepth : blockCount p.statements ≤ depth) (hv : v ∈ p.visits settings) :
    v.pass.Shallow depth ∧ (v.pass.step settings p v.site).Shallow depth := by
  obtain ⟨k, hk⟩ := List.getElem?_of_mem hv
  have hcount : ∀ k, blockCount (p.statements.take k) ≤ depth :=
    fun k => ((List.take_sublist k p.statements).countP_le).trans hdepth
  have hpass := visits_shallow hlines hk
  have hstep := (v.pass.step_step settings p v.site).shallow hpass
  rw [← blockCount_take_add_one (statement_visit hk)] at hstep
  exact ⟨hpass.mono (hcount k), hstep.mono (hcount (k + 1))⟩

end

/-! ## Programs and their images -/

/-- What is written at a place can be written: a remark that hides code has a byte before the code,
    the operands of operations are there and so is an `=` that is moved, and a row is broken inside
    its text.  What a row begins with takes a few columns. -/
def Placement.InBounds (settings : Settings) (p : Program) : Placement → Prop
  | .bare start => start.width ≤ settings.textColumn
  | .code start s => start.width ≤ settings.textColumn ∧ s.body = Code.remark :: s.operand ∧
    ∀ row ∈ sweep (p.codeAddress s) s.operand, row.HasOperand
  | .joined _ => True
  | .row start indent column s => start.width ≤ settings.textColumn ∧
    (0 < p.assignmentColumn s →
      ∃ name value, (p.text s).cut? (p.assignmentColumn s) = some (name, '=' :: value)) ∧
    (s.isLedBy .print = true →
      BreaksInside settings.printWidth (p.rowText settings start indent column s))

/-- All that is read for a program stands in its image, all that is written for it can be written,
    and no place, column or depth is beyond the length of the image, but for a few columns. -/
structure Program.InBounds (settings : Settings) (p : Program) : Prop where
  size_le : p.size ≤ p.image.length
  firstLineSize_le : p.image.firstLineSize ≤ p.image.length + 3
  /-- A byte follows the header of each line. -/
  header_lt : ∀ line ∈ p.lines, line.offset + headerSize < p.image.length
  line_le : ∀ line ∈ p.lines, line.offset + line.length ≤ p.image.length
  /-- No statement ends before it begins, or leaves its line. -/
  statement_le : ∀ line ∈ p.lines, ∀ s ∈ line.statements,
    line.offset + headerSize ≤ s.offset ∧ s.offset + s.size ≤ line.offset + line.length
  slice_body : ∀ s ∈ p.statements, p.image.slice? s.offset s.body.length = some s.body
  /-- The leading byte of a statement is there, unless the statement has no bytes at all. -/
  leading : ∀ s ∈ p.statements, ∀ b ∈ s.bytes.head?, p.image[s.offset]? = some b
  /-- Each statement is one of those of a line. -/
  range : ∀ k < p.statements.length, ∃ r ∈ p.ranges, r.1 ≤ k ∧ k < r.2 ∧ r.2 ≤ p.statements.length
  slice_block : ∀ block ∈ p.blocks, p.image.slice? block.1 block.2.length = some block.2
  placement : ∀ placement ∈ p.layout settings, placement.InBounds settings p
  /-- A loop or a clause takes two bytes of the image and indents by two columns. -/
  shallow : ∀ v ∈ p.visits settings, v.pass.Shallow (p.image.length / 2) ∧
    (v.pass.step settings p v.site).Shallow (p.image.length / 2)
  column_le : ∀ v ∈ p.visits settings,
    2 * (v.pass.closeLoops v.site.statement).indent + settings.textColumn ≤ p.image.length + 12

theorem Image.firstLineSize_le (image : Image) : image.firstLineSize ≤ image.length + 3 := by
  unfold firstLineSize
  split
  · rename_i low high rest
    have htake := (List.takeWhile_sublist (l := rest.drop 2) (· != Code.endOfLine)).length_le
    rw [List.length_drop] at htake
    simp only [List.length_cons, headerSize]
    split_ifs <;> omega
  · exact Nat.zero_le _

theorem Line.StandsIn.leading {image : Image} {line : Line} (h : line.StandsIn image)
    {s : Statement} (hs : s ∈ line.statements) :
    ∀ b ∈ s.bytes.head?, image[s.offset]? = some b := by
  intro b hb
  rw [← h.slice_eq s hs, Image.slice, List.head?_take] at hb
  split_ifs at hb
  · simp at hb
  · rwa [List.head?_drop] at hb

theorem Placement.inBounds_of_mem_layout {p : Program} (hkeywords : p.keywords.Ascii)
    (settings : Settings) : ∀ placement ∈ p.layout settings, placement.InBounds settings p := by
  refine layout_forall ?_ ?_ (fun _ _ => trivial) ?_
  · exact fun line hl => IsRowStart.width_le (Or.inr ⟨line, hl, rfl⟩)
  · intro start s hstart _ hcode
    have hshown : s.isEmpty = false := by
      rw [← Bool.not_eq_true]
      exact fun hempty => by simp [Statement.hidesCode_of_isEmpty hempty] at hcode
    refine ⟨hstart.width_le, ?_, sweep_forall CodeRow.hasOperand_ofBytes _ _⟩
    rw [Statement.body_eq hshown, Statement.head_of_hidesCode hcode]
    rfl
  · intro start indent column s hstart _
    refine ⟨hstart.width_le, fun hassign => ?_, fun _ => ?_⟩
    · obtain ⟨name, value, htext, -, hwidth, -⟩ := p.textAt_of_assignment hassign (Nat.le_refl _)
      refine ⟨name, value, ?_⟩
      rw [htext, ← hwidth]
      exact Text.cut?_append _ _
    · exact breaksInside_of_ascii _
        (p.ascii_rowText hkeywords settings hstart.printable indent column s)

/-- The blocks of a dump are bytes of the image, if the lines stand in it. -/
theorem Program.slice?_of_mem_blocks {p : Program} (hsize : p.size ≤ p.image.length)
    (hlines : ∀ line ∈ p.lines, line.offset + line.length ≤ p.image.length) :
    ∀ block ∈ p.blocks, p.image.slice? block.1 block.2.length = some block.2 := by
  have hline : ∀ block ∈ p.lines.map fun line =>
      (line.offset, p.image.slice line.offset line.length),
      p.image.slice? block.1 block.2.length = some block.2 := by
    intro block hblock
    obtain ⟨line, hl, rfl⟩ := List.mem_map.1 hblock
    refine Image.slice?_of_drop ?_ (List.take_append_drop line.length _).symm
    have := hlines line hl
    omega
  intro block hblock
  unfold blocks at hblock
  simp only at hblock
  split at hblock
  · exact hline block hblock
  · rename_i rest hrest
    rcases List.mem_append.1 hblock with hblock | hblock
    · exact hline block hblock
    rcases List.mem_cons.1 hblock with rfl | hblock
    · exact Image.slice?_of_drop hsize hrest
    · -- What follows the two zero bytes is there, since they are.
      split_ifs at hblock
      · simp at hblock
      · rw [List.mem_singleton.1 hblock]
        have hlength := congrArg List.length hrest
        rw [List.length_drop, List.length_cons, List.length_cons] at hlength
        refine Image.slice?_of_drop (by omega) (?_ : _ = rest ++ [])
        rw [← List.drop_drop, hrest, List.append_nil]
        rfl
  · rcases List.mem_append.1 hblock with hblock | hblock
    · exact hline block hblock
    · rw [List.mem_singleton.1 hblock]
      exact Image.slice?_of_drop hsize (List.append_nil _).symm

theorem Program.exists_range {p : Program} (hlines : ∀ line ∈ p.lines, line.statements ≠ [])
    {k : Nat} (hk : k < p.statements.length) :
    ∃ r ∈ p.ranges, r.1 ≤ k ∧ k < r.2 ∧ r.2 ≤ p.statements.length := by
  have htiles := tiles_rangesFrom 0 p.lines
  rw [Nat.zero_add] at htiles
  obtain ⟨r, hr, hstart, hstop⟩ := htiles.exists_mem (Nat.zero_le k) hk
  have hlt := lt_of_mem_rangesFrom hlines r hr
  have hend : r.1 + (r.2 - r.1) ≤ p.statements.length := (htiles.bounds hr).2
  exact ⟨r, hr, hstart, by omega, by omega⟩

/-- **Every program stays inside its image**, if its keywords are in ASCII. -/
theorem Program.inBounds_ofImage {keywords : Keywords} (hkeywords : keywords.Ascii)
    (findAssignments : Bool) (image : Image) (settings : Settings) :
    (ofImage keywords findAssignments image).InBounds settings := by
  set p := ofImage keywords findAssignments image
  have h : image.Decodes 0 0 p.lines := scanLines_decodes image 0 0
  have hstands := h.standsIn
  have hlines : ∀ line ∈ p.lines, line.statements ≠ [] :=
    fun line hl => (hstands line hl).statements_ne_nil
  have hsize : p.size ≤ image.length := by
    have := h.fits (Nat.zero_le _)
    rwa [Nat.zero_add] at this
  have hin : ∀ s ∈ p.statements, ∃ line ∈ p.lines, s ∈ line.statements :=
    fun s hs => List.mem_flatMap.1 hs
  have hwithin : ∀ line ∈ p.lines, ∀ s ∈ line.statements,
      line.offset + headerSize ≤ s.offset ∧ s.offset + s.size ≤ line.offset + line.length :=
    fun line hl s hs => (hstands line hl).tiles.bounds hs
  have hshallow : ∀ v ∈ p.visits settings, v.pass.Shallow (image.length / 2) ∧
      (v.pass.step settings p v.site).Shallow (image.length / 2) := by
    have hblocks : 2 * blockCount p.statements ≤ image.length :=
      blocks_le keywords findAssignments image
    exact fun v hv => shallow_visit hlines (by omega) hv
  refine ⟨hsize, image.firstLineSize_le, ?_, fun line hl => (hstands line hl).fits, hwithin, ?_, ?_,
    fun k hk => exists_range hlines hk,
    slice?_of_mem_blocks hsize fun line hl => (hstands line hl).fits,
    Placement.inBounds_of_mem_layout hkeywords settings, hshallow, ?_⟩
  · intro line hl
    have hfits : line.offset + line.length ≤ image.length := (hstands line hl).fits
    have hfive := (hstands line hl).five_le
    change line.offset + 4 < image.length
    omega
  · intro s hs
    obtain ⟨line, hl, hsl⟩ := hin s hs
    have hfits := (hstands line hl).fits
    have hle := (hwithin line hl s hsl).2
    rw [Statement.size] at hle
    rw [Image.slice?_of_le (by change _ ≤ image.length; omega)]
    exact congrArg some ((hstands line hl).body_eq hsl)
  · intro s hs
    obtain ⟨line, hl, hsl⟩ := hin s hs
    exact (hstands line hl).leading hsl
  · intro v hv
    have hclosed := ((hshallow v hv).1.closeLoops v.site.statement).indent
    have htext : settings.textColumn ≤ 12 := by
      unfold Settings.textColumn
      split_ifs <;> omega
    change _ ≤ image.length + 12
    omega

/-- **Whatever an image holds, it is listed.**

    The keywords are any in ASCII, and rows are broken at any width.  All bytes that are read are
    there, texts are cut where they can be cut, and no number goes far beyond the length of the
    image or of a row. -/
theorem Printer.listing_in_bounds (printer : Printer) (hkeywords : printer.keywords.Ascii)
    (name : Text) (image : Image) :
    (∃ text, printer.listing? name image = some text) ∧
      (printer.program image).InBounds printer.settings := by
  constructor
  · exact Option.isSome_iff_exists.1 (isSome_listing? hkeywords name image)
  · exact Program.inBounds_ofImage hkeywords _ _ _

/-- A `PRINT` with a long string, a remark that hides half an operation, and a line that breaks off
    behind its `IF`. -/
def brokenOffImage : Image :=
  [0x10, 0x08, 10, 0, 0xBA, 0x22, 0x41, 0x42, 0x43, 0x44, 0x45, 0x46, 0x47, 0x22, 0,
   0x18, 0x08, 20, 0, 0xB2, 0x90, 0,
   0x20, 0x08, 30, 0, 0xAD]

/-- A table with one keyword, which is short. -/
def questionMark : Keywords := fun b => if b = Code.print then some ['?'] else none

theorem Printer.listing_in_bounds_brokenOffImage :
    let printer : Printer :=
      { settings := { printWidth := 3, showHeader := false }, keywords := questionMark }
    printer.keywords.Ascii ∧ (printer.program brokenOffImage).statements.length = 4 ∧
      (∃ text, printer.listing? [] brokenOffImage = some text) ∧
      (printer.program brokenOffImage).InBounds printer.settings := by
  intro printer
  have hkeywords : printer.keywords.Ascii := by
    intro b keyword hkeyword
    change (if b = Code.print then some ['?'] else none) = some keyword at hkeyword
    split_ifs at hkeyword
    obtain rfl := Option.some.inj hkeyword
    intro c hc
    rw [List.mem_singleton.1 hc]
    decide
  exact ⟨hkeywords, by decide +kernel, listing_in_bounds printer hkeywords [] brokenOffImage⟩

end BasicListing
