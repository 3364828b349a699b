/-
  Alignment only adds spaces.

  * `Settings.plain`, `Program.plain`: the same without alignment.
  * `LinePass.unaligned`: what a pass knows, but for the columns of `=`.  Each
    step without alignment does what the step with it does
    (`step_unaligned`), so that the two layouts differ only in these columns
    (`layout_plain`).
  * `MovesEquals`: how a row can change.
  * `Program.ShowsText`: the text of a statement stands in a listing.
  * `Printer.alignment_adds_spaces`: alignment changes rows in this way only,
    and without it all texts are shown as they are.
-/
import BasicListing.Proofs.Positions

namespace BasicListing

/-! ## Two passes -/

/-- The settings without alignment. -/
def Settings.plain (settings : Settings) : Settings := { settings with alignAssignments := false }

/-- The program as it is read without alignment. -/
def Program.plain (p : Program) : Program := { p with findAssignments := false }

/-- A place without the column in force. -/
def Placement.unaligned : Placement → Placement
  | .row start indent _ s => .row start indent 0 s
  | placement => placement

/-- What a pass knows from line to line, but for columns. -/
def Pass.unaligned (pass : Pass) : Pass where
  loops := pass.loops
  placed := pass.placed.map Placement.unaligned

/-- What a pass knows inside a line, but for columns. -/
def LinePass.unaligned (pass : LinePass) : LinePass where
  toPass := pass.toPass.unaligned
  start := pass.start
  indent := pass.indent
  floor := pass.floor

namespace LinePass

variable {settings : Settings} {p : Program}

theorem closeLoops_unaligned (pass : LinePass) (s : Statement) :
    pass.unaligned.closeLoops s = (pass.closeLoops s).unaligned := by
  unfold closeLoops
  split <;> rfl

theorem openBlock_unaligned (pass : LinePass) (s : Statement) :
    pass.unaligned.openBlock s = (pass.openBlock s).unaligned := by
  unfold openBlock
  split <;> rfl

theorem alignAt_unaligned (pass : LinePass) (site : Site) :
    (pass.alignAt settings p site).unaligned = pass.unaligned := by
  unfold alignAt
  split <;> rfl

/-- **A step without alignment does what the step with it does.** -/
theorem step_unaligned (pass : LinePass) (site : Site) :
    pass.unaligned.step settings.plain p.plain site = (pass.step settings p site).unaligned := by
  rw [step, step]
  by_cases hempty : site.statement.isEmpty = true
  · rw [if_pos hempty, if_pos hempty, if_neg (by simp [Settings.plain])]
    split <;> rfl
  rw [if_neg hempty, if_neg hempty]
  by_cases hcode : site.statement.hidesCode = true
  · rw [if_pos hcode, if_pos hcode]
    rfl
  rw [if_neg hcode, if_neg hcode, closeLoops_unaligned]
  by_cases hjoins : (pass.closeLoops site.statement).joins settings site.statement = true
  · rw [if_pos hjoins]
    exact if_pos hjoins
  rw [if_neg hjoins, ← openBlock_unaligned]
  refine (if_neg hjoins).trans ?_
  have hplain : (pass.closeLoops site.statement).unaligned.alignAt settings.plain p.plain site =
      ((pass.closeLoops site.statement).alignAt settings p site).unaligned :=
    (alignAt_unaligned _ _).symm
  rw [hplain]
  rfl

theorem foldl_unaligned (pass : LinePass) (sites : List Site) :
    sites.foldl (step settings.plain p.plain) pass.unaligned =
      (sites.foldl (step settings p) pass).unaligned := by
  induction sites generalizing pass with
  | nil => rfl
  | cons site sites ih => rw [List.foldl_cons, List.foldl_cons, step_unaligned, ih]

theorem finish_unaligned (pass : LinePass) : pass.unaligned.finish = pass.finish.unaligned := by
  have hcolumn : (if 0 < pass.unaligned.floor then 0 else pass.unaligned.column) = 0 := ite_self 0
  rw [finish, hcolumn, finish]
  cases hstart : pass.start <;> simp [unaligned, Pass.unaligned, Placement.unaligned, hstart]

end LinePass

theorem Pass.placeLine_unaligned {settings : Settings} {p : Program} (pass : Pass)
    (line : Line × List Site) :
    pass.unaligned.placeLine settings.plain p.plain p.plain.targets line =
      (pass.placeLine settings p p.targets line).unaligned := by
  rw [placeLine, placeLine, ← LinePass.finish_unaligned, ← LinePass.foldl_unaligned]
  rfl

/-- **Without alignment, all places are the same but for their columns.** -/
theorem Program.layout_plain (p : Program) (settings : Settings) :
    p.plain.layout settings.plain = (p.layout settings).map Placement.unaligned := by
  have hlines : ∀ (lines : List (Line × List Site)) (pass : Pass),
      lines.foldl (Pass.placeLine settings.plain p.plain p.plain.targets) pass.unaligned =
        (lines.foldl (Pass.placeLine settings p p.targets) pass).unaligned := by
    intro lines
    induction lines with
    | nil => exact fun _ => rfl
    | cons line lines ih =>
      intro pass
      rw [List.foldl_cons, List.foldl_cons, Pass.placeLine_unaligned, ih]
  rw [layout, layout, List.map_reverse]
  exact congrArg (fun pass : Pass => pass.placed.reverse) (hlines (lineSites p.lines) {})

/-! ## Rows with and without alignment -/

/-- Alignment puts spaces into the row of an assignment, before the first `=` of its text, which is
    the first in the row too.  Before the text stand the gutter or nothing and spaces, and more may
    follow in the row. -/
def MovesEquals (settings : Settings) (p : Program) (plain aligned : Text) : Prop :=
  ∃ s ∈ p.statements, ∃ start column name value more gap,
    0 < p.assignmentColumn s ∧ p.text s = name ++ '=' :: value ∧
    IsRowStart settings p start ∧ '=' ∉ Text.padTo column start ++ name ∧ 0 < gap ∧
    plain = Text.padTo column start ++ name ++ '=' :: value ++ more ∧
    aligned = Text.padTo column start ++ name ++ Text.spaces gap ++ '=' :: value ++ more

/-- A row that alignment leaves alone, or changes in this way. -/
def IsAligned (settings : Settings) (p : Program) (plain aligned : Text) : Prop :=
  aligned = plain ∨ MovesEquals settings p plain aligned

section
variable {settings : Settings} {p : Program} {disassembler : Disassembler}

theorem IsAligned.append {plain aligned : Text} (h : IsAligned settings p plain aligned)
    (t : Text) : IsAligned settings p (plain ++ t) (aligned ++ t) := by
  rcases h with rfl | ⟨s, hs, start, column, name, value, more, gap, hassign, htext, hstart, hfirst,
    hgap, rfl, rfl⟩
  · exact Or.inl rfl
  · exact Or.inr ⟨s, hs, start, column, name, value, more ++ t, gap, hassign, htext, hstart, hfirst,
      hgap, by simp, by simp⟩

theorem Program.textAt_zero (p : Program) (s : Statement) : p.textAt s 0 = p.text s := by
  rw [textAt, Statement.textAt, if_neg (by omega), text]

theorem isAligned_rowText {start : Text} (hstart : IsRowStart settings p start) {s : Statement}
    (hs : s ∈ p.statements) (indent column : Nat) :
    IsAligned settings p (p.plain.rowText settings.plain start indent 0 s)
      (p.rowText settings start indent column s) := by
  have hplain : p.plain.rowText settings.plain start indent 0 s =
      Text.padTo (2 * indent + settings.textColumn) (start ++ branchMark settings s) ++
        p.text s := by
    rw [Program.rowText, ite_self, Program.textAt_zero]
    rfl
  rw [hplain, Program.rowText]
  generalize (if s.isLedBy .remark then 0 else column) = column
  by_cases hmoves : 0 < p.assignmentColumn s ∧ p.assignmentColumn s < column
  · obtain ⟨name, value, htext, hname, -, htextAt⟩ :=
      Program.textAt_of_assignment hmoves.1 hmoves.2.le
    have hmark : branchMark settings s = [] := Program.branchMark_of_assignment hmoves.1
    have hlead : '=' ∉ Text.padTo (2 * indent + settings.textColumn) start := fun h => by
      rw [← List.append_nil start, ← hmark] at h
      exact absurd (mem_lead hstart h) (by decide)
    refine Or.inr ⟨s, hs, start, 2 * indent + settings.textColumn, name, value, [],
      column - p.assignmentColumn s, hmoves.1, htext, hstart, ?_, by omega, ?_, ?_⟩
    · rw [List.mem_append, not_or]
      exact ⟨hlead, hname⟩
    · rw [hmark, List.append_nil, htext]
      simp
    · rw [hmark, List.append_nil, htextAt]
      simp
  · refine Or.inl (congrArg _ ?_)
    exact if_neg hmoves

theorem forall₂_reverseAux {R : Text → Text → Prop} (hR : ∀ t, R t t) (below : List Text)
    {rows rows' : List Text} (h : List.Forall₂ R rows rows') :
    List.Forall₂ R (below.reverseAux rows) (below.reverseAux rows') := by
  induction below generalizing rows rows' with
  | nil => exact h
  | cons row below ih => exact ih (.cons (hR row) h)

/-- **One place is written with and without alignment.** -/
theorem forall₂_write? {placement : Placement} (hplacement : placement ∈ p.layout settings)
    {rows rows' written written' : List Text} (h : List.Forall₂ (IsAligned settings p) rows rows')
    (hplain : p.plain.write? settings.plain disassembler rows placement.unaligned = some written)
    (haligned : p.write? settings disassembler rows' placement = some written') :
    List.Forall₂ (IsAligned settings p) written written' := by
  have hsame : ∀ t, IsAligned settings p t t := fun _ => Or.inl rfl
  cases placement with
  | bare start =>
    obtain rfl := Option.some.inj hplain
    obtain rfl := Option.some.inj haligned
    exact .cons (hsame _) h
  | code start s =>
    obtain rfl := Option.some.inj hplain
    obtain rfl := Option.some.inj haligned
    exact forall₂_reverseAux hsame (p.codeRows disassembler start s) h
  | joined s =>
    cases h with
    | nil =>
      obtain rfl := Option.some.inj hplain
      obtain rfl := Option.some.inj haligned
      exact .cons (hsame _) .nil
    | cons hrow habove =>
      obtain rfl := Option.some.inj hplain
      obtain rfl := Option.some.inj haligned
      exact .cons (hrow.append _) habove
  | row start indent column s =>
    obtain ⟨hstart, hs⟩ := row_of_mem_layout hplacement
    have hrow := isAligned_rowText hstart hs indent column
    rw [Placement.unaligned, Program.write?] at hplain
    rw [Program.write?] at haligned
    by_cases hprint : s.isLedBy .print = true
    · -- The row of a `PRINT` is the same, and so it is broken in the same way.
      have hrowText : p.plain.rowText settings.plain start indent 0 s =
          p.rowText settings start indent column s := by
        rw [Program.rowText, Program.rowText, textAt_of_print hprint, textAt_of_print hprint]
        rfl
      rw [if_pos hprint, Option.map_eq_some_iff] at hplain haligned
      obtain ⟨broken, hbroken, rfl⟩ := hplain
      obtain ⟨broken', hbroken', rfl⟩ := haligned
      rw [hrowText] at hbroken
      obtain rfl := Option.some.inj (hbroken.symm.trans hbroken')
      exact forall₂_reverseAux hsame broken h
    · rw [if_neg hprint, Option.some.injEq] at hplain haligned
      subst hplain haligned
      exact .cons hrow h

/-- **The rows of a program with and without alignment.** -/
theorem forall₂_rows? {rows rows' : List Text}
    (hplain : p.plain.rows? settings.plain disassembler = some rows)
    (haligned : p.rows? settings disassembler = some rows') :
    List.Forall₂ (IsAligned settings p) rows rows' := by
  have hfold : ∀ (layout : List Placement) (rows rows' written written' : List Text),
      (∀ placement ∈ layout, placement ∈ p.layout settings) →
      List.Forall₂ (IsAligned settings p) rows rows' →
      (layout.map Placement.unaligned).foldlM (p.plain.write? settings.plain disassembler) rows =
        some written →
      layout.foldlM (p.write? settings disassembler) rows' = some written' →
      List.Forall₂ (IsAligned settings p) written written' := by
    intro layout
    induction layout with
    | nil =>
      intro rows rows' written written' _ h hplain haligned
      obtain rfl : rows = written := by simpa using hplain
      obtain rfl : rows' = written' := by simpa using haligned
      exact h
    | cons placement layout ih =>
      intro rows rows' written written' hmem h hplain haligned
      rw [List.map_cons, List.foldlM_cons] at hplain
      rw [List.foldlM_cons] at haligned
      obtain ⟨rows₁, hrows₁, hplain⟩ := Option.bind_eq_some_iff.1 hplain
      obtain ⟨rows₂, hrows₂, haligned⟩ := Option.bind_eq_some_iff.1 haligned
      rw [List.forall_mem_cons] at hmem
      exact ih _ _ _ _ hmem.2 (forall₂_write? hmem.1 h hrows₁ hrows₂) hplain haligned
  obtain ⟨written, hwritten, rfl⟩ := Option.map_eq_some_iff.1 hplain
  obtain ⟨written', hwritten', rfl⟩ := Option.map_eq_some_iff.1 haligned
  rw [p.layout_plain] at hwritten
  exact List.forall₂_reverse_iff.2
    (hfold _ [] [] written written' (fun _ h => h) .nil hwritten hwritten')

end

/-- Rows that correspond to each other do so in the text as well, below the same header. -/
theorem forall₂_splitOn {R : Text → Text → Prop} (hR : ∀ t, R t t) (header : List Text)
    {rows rows' : List Text} (hrows : ∀ row ∈ rows, row.Printable)
    (hrows' : ∀ row ∈ rows', row.Printable) (h : List.Forall₂ R rows rows') :
    List.Forall₂ R ((Text.ofRows (header ++ rows)).splitOn '\n')
      ((Text.ofRows (header ++ rows')).splitOn '\n') := by
  cases h with
  | nil => exact List.forall₂_same.2 fun t _ => hR t
  | cons hrow hbelow =>
    rw [Text.ofRows_append _ (by simp), Text.ofRows_append _ (by simp)]
    induction header with
    | nil =>
      rw [List.flatMap_nil, List.nil_append, List.nil_append, splitOn_ofRows hrows (by simp),
        splitOn_ofRows hrows' (by simp)]
      exact .cons hrow hbelow
    | cons t header ih =>
      rw [List.flatMap_cons, List.append_assoc, List.append_assoc, List.append_assoc,
        List.append_assoc, List.singleton_append, List.singleton_append, List.splitOn,
        List.splitOn, List.splitOnP_append_cons _ _ (by simp),
        List.splitOnP_append_cons _ _ (by simp)]
      exact List.rel_append (List.forall₂_same.2 fun t _ => hR t) ih

/-! ## Texts without alignment -/

/-- What can stand behind a text in a listing: nothing, the next row, or a remark in the same
    row. -/
inductive Text.SetOff : Text → Prop
  | end : SetOff []
  | row (below : Text) : SetOff ('\n' :: below)
  | remark (behind : Text) : SetOff (' ' :: behind)

/-- The row of a statement as it is without alignment, before it is broken. -/
def Visit.rowText (settings : Settings) (p : Program) (v : Visit) : Text :=
  p.rowText settings (v.pass.start.getD []) (v.pass.closeLoops v.site.statement).indent 0
    v.site.statement

/-- The statement is a `PRINT` whose row is broken. -/
def Visit.IsWrapped (settings : Settings) (p : Program) (v : Visit) : Prop :=
  v.site.statement.isLedBy .print = true ∧
    needsWrap settings.printWidth (v.rowText settings p) = true

/-- In a listing, the text of a statement stands below all rows written for the places before it,
    or at the end of the last of them. -/
inductive Program.ShowsText (printer : Printer) (name : Text) (p : Program) (listing : Text)
    (v : Visit) : Prop
  /-- An empty statement has no text. -/
  | empty (hempty : v.site.statement.isEmpty = true) (htext : p.text v.site.statement = [])
  | row (hrow : v.HasRow printer.settings) (above : List Text) (gap : Nat) (behind : Text)
    (habove : p.rowsOf? printer.settings printer.disassembler v.pass.placed.reverse = some above)
    (hlisting : listing = (printer.header name p.image ++ above).flatMap (· ++ ['\n']) ++
      (v.lead printer.settings gap ++ p.text v.site.statement ++ behind))
    (hbehind : behind.SetOff)
  | joined (hjoins : v.pass.joins printer.settings v.site.statement = true) (above : List Text)
    (row behind : Text)
    (habove : p.rowsOf? printer.settings printer.disassembler v.pass.placed.reverse =
      some (above ++ [row]))
    (hlisting : listing = (printer.header name p.image ++ above).flatMap (· ++ ['\n']) ++
      (row ++ ' ' :: p.text v.site.statement ++ behind))
    (hbehind : behind.SetOff)

section
variable {p : Program} {settings : Settings} {disassembler : Disassembler}

/-- Below a row, only remarks are written into it. -/
theorem Program.write?_extends_row {placement : Placement} {front above written : List Text}
    {row : Text} (h : p.write? settings disassembler (front ++ row :: above) placement =
      some written) :
    ∃ front' more, written = front' ++ (row ++ more) :: above ∧
      (more = [] ∨ ∃ behind, more = ' ' :: behind) := by
  by_cases hfront : front ≠ [] ∨ placement.startsRow = true
  · rw [write?_append front _ hfront] at h
    obtain ⟨front', -, rfl⟩ := Option.map_eq_some_iff.1 h
    exact ⟨front', [], by simp, Or.inl rfl⟩
  · obtain ⟨rfl, hstarts⟩ : front = [] ∧ placement.startsRow = false := by simpa using hfront
    cases placement with
    | joined s =>
      obtain rfl := Option.some.inj h
      exact ⟨[], ' ' :: p.text s, rfl, Or.inr ⟨_, rfl⟩⟩
    | _ => simp [Placement.startsRow] at hstarts

theorem Program.foldlM_write?_extends_row {places : List Placement} (front : List Text)
    {above written : List Text} {row : Text}
    (h : places.foldlM (p.write? settings disassembler) (front ++ row :: above) =
      some written) :
    ∃ front' more, written = front' ++ (row ++ more) :: above ∧
      (more = [] ∨ ∃ behind, more = ' ' :: behind) := by
  induction places generalizing front row with
  | nil =>
    obtain rfl : front ++ row :: above = written := by simpa using h
    exact ⟨front, [], by simp, Or.inl rfl⟩
  | cons placement places ih =>
    rw [List.foldlM_cons] at h
    obtain ⟨rows, hrows, h⟩ := Option.bind_eq_some_iff.1 h
    obtain ⟨front₁, more₁, rfl, hmore₁⟩ := write?_extends_row hrows
    obtain ⟨front₂, more₂, rfl, hmore₂⟩ := ih front₁ h
    refine ⟨front₂, more₁ ++ more₂, by simp, ?_⟩
    rcases hmore₁ with rfl | ⟨behind, rfl⟩
    · exact hmore₂
    · exact Or.inr ⟨behind ++ more₂, rfl⟩

/-- A row in a text, with what stands behind the beginning of the row. -/
theorem ofRows_around_row (above : List Text) (row : Text) {more : Text}
    (hmore : more = [] ∨ ∃ behind, more = ' ' :: behind) (below : List Text) :
    ∃ behind, Text.ofRows (above ++ (row ++ more) :: below) =
      above.flatMap (· ++ ['\n']) ++ (row ++ behind) ∧ behind.SetOff := by
  rw [Text.ofRows_append _ (by simp)]
  rcases hmore with rfl | ⟨behind, rfl⟩
  · cases below with
    | nil => exact ⟨[], by simp [Text.ofRows], .end⟩
    | cons row' below =>
      refine ⟨'\n' :: Text.ofRows (row' :: below), ?_, .row _⟩
      rw [List.append_nil, Text.ofRows, List.intercalate_cons_cons, Text.ofRows]
      simp
  · obtain ⟨behind', hbehind'⟩ := Text.ofRows_cons (row ++ ' ' :: behind) below
    exact ⟨' ' :: (behind ++ behind'), by rw [hbehind']; simp, .remark _⟩

theorem LinePass.Step.placed_ne_nil {pass next : LinePass} {site : Site}
    (h : LinePass.Step settings p pass site next)
    (hpass : pass.start = none → pass.placed ≠ []) : next.start = none → next.placed ≠ [] := by
  cases h with
  | skip => exact hpass
  | code => simp [place]
  | join => simp [place]
  | row => simp [place]

/-- Where a row does not begin with the gutter, something has been placed above. -/
theorem placed_ne_nil_of_visit {v : Visit} (hv : v ∈ p.visits settings)
    (hstart : v.pass.start = none) : v.pass.placed ≠ [] := by
  have hfold : ∀ (sites : List Site) (pass : LinePass), (pass.start = none → pass.placed ≠ []) →
      (sites.foldl (LinePass.step settings p) pass).start = none →
      (sites.foldl (LinePass.step settings p) pass).placed ≠ [] := by
    intro sites
    induction sites with
    | nil => exact fun _ h => h
    | cons site sites ih =>
      intro pass h
      exact ih _ ((pass.step_step settings p site).placed_ne_nil h)
  obtain ⟨before, line, after, -, hv⟩ := mem_visitsFrom hv
  obtain ⟨-, front, -, -, hpass⟩ := mem_visitsOfLine hv
  rw [hpass] at hstart ⊢
  exact hfold front _ (by simp [LinePass.begin]) hstart

/-- What is written for some places, at least one. -/
theorem Program.foldlM_write?_ne_nil {places : List Placement} (hne : places ≠ [])
    {rows written : List Text}
    (h : places.foldlM (p.write? settings disassembler) rows = some written) : written ≠ [] := by
  induction places generalizing rows with
  | nil => exact absurd rfl hne
  | cons placement places ih =>
    rw [List.foldlM_cons] at h
    obtain ⟨rows', hrows', h⟩ := Option.bind_eq_some_iff.1 h
    cases places with
    | nil =>
      obtain rfl : rows' = written := by simpa using h
      exact write?_ne_nil hrows'
    | cons placement' places => exact ih (by simp) h

/-- What is written before a visit, for it, and behind it. -/
theorem Program.written_around_visit {written : List Text}
    (h : (p.layout settings).foldlM (p.write? settings disassembler) [] = some written) {v : Visit}
    (hv : v ∈ p.visits settings) {placement : Placement}
    (hplacement : v.pass.placement? settings p v.site = some placement) :
    ∃ above rows behind,
      v.pass.placed.reverse.foldlM (p.write? settings disassembler) [] = some above ∧
      p.write? settings disassembler above placement = some rows ∧
      List.foldlM (p.write? settings disassembler) rows behind = some written := by
  obtain ⟨behind, hlayout⟩ := layout_of_visit hv hplacement
  rw [hlayout, List.foldlM_append] at h
  obtain ⟨above, habove, h⟩ := Option.bind_eq_some_iff.1 h
  rw [List.foldlM_cons] at h
  obtain ⟨rows, hrows, h⟩ := Option.bind_eq_some_iff.1 h
  exact ⟨above, rows, behind, habove, hrows, h⟩

/-- Without alignment, no column is in force. -/
theorem Program.column_of_mem_layout_plain {start : Text} {indent column : Nat} {s : Statement}
    (h : .row start indent column s ∈ p.plain.layout settings.plain) : column = 0 := by
  rw [layout_plain, List.mem_map] at h
  obtain ⟨placement, -, hplacement⟩ := h
  cases placement with
  | row => exact (Placement.row.inj hplacement).2.2.1.symm
  | _ => simp [Placement.unaligned] at hplacement

end

section
variable {p : Program} {printer : Printer}

theorem Visit.exists_rowText_eq (settings : Settings) (p : Program) (v : Visit) :
    ∃ gap, v.rowText settings p = v.lead settings gap ++ p.text v.site.statement := by
  rw [Visit.rowText, Program.rowText, ite_self, Program.textAt_zero]
  exact ⟨_, rfl⟩

/-- A row that is not broken is written as it is. -/
theorem Visit.write?_rowText {settings : Settings} {disassembler : Disassembler} {v : Visit}
    (h : ¬ v.IsWrapped settings p) (above : List Text) :
    p.write? settings disassembler above (.row (v.pass.start.getD [])
      (v.pass.closeLoops v.site.statement).indent 0 v.site.statement) =
      some (v.rowText settings p :: above) := by
  rw [Program.write?, ← Visit.rowText]
  by_cases hprint : v.site.statement.isLedBy .print = true
  · rw [if_pos hprint, wrapRow?, if_neg fun hneeds => h ⟨hprint, hneeds⟩]
    rfl
  · rw [if_neg hprint]

/-- **Without alignment, texts are shown as they are.** -/
theorem Program.showsText_of_visit (hcolumns : ∀ start indent column s,
      .row start indent column s ∈ p.layout printer.settings → column = 0)
    {rows : List Text} (hrows : p.rows? printer.settings printer.disassembler = some rows)
    (name : Text) {v : Visit} (hv : v ∈ p.visits printer.settings)
    (hcode : v.site.statement.hidesCode = false) (hwrap : ¬ v.IsWrapped printer.settings p) :
    p.ShowsText printer name (Text.ofRows (printer.header name p.image ++ rows)) v := by
  by_cases hempty : v.site.statement.isEmpty = true
  · refine .empty hempty ?_
    rw [text, Statement.text, List.isEmpty_iff.1 hempty, Keywords.expand_nil]
  rw [Bool.not_eq_true] at hempty
  obtain ⟨written, hwritten, rfl⟩ := Option.map_eq_some_iff.1 hrows
  by_cases hjoins : v.pass.joins printer.settings v.site.statement = true
  · have hplacement : v.pass.placement? printer.settings p v.site =
        some (.joined v.site.statement) := by
      simp [LinePass.placement?, hempty, hcode, hjoins]
    obtain ⟨above, rows, places, habove, hrows, hwritten⟩ :=
      written_around_visit hwritten hv hplacement
    have hstart : v.pass.start = none := by
      simp only [LinePass.joins, Bool.and_eq_true] at hjoins
      exact Option.isNone_iff_eq_none.1 hjoins.2
    obtain ⟨row, above, rfl⟩ := List.exists_cons_of_ne_nil
      (foldlM_write?_ne_nil (by simpa using placed_ne_nil_of_visit hv hstart) habove)
    obtain rfl := Option.some.inj hrows
    obtain ⟨front, more, rfl, hmore⟩ := foldlM_write?_extends_row [] hwritten
    obtain ⟨behind, hbehind, hsetOff⟩ := ofRows_around_row
      (printer.header name p.image ++ above.reverse) (row ++ ' ' :: p.text v.site.statement) hmore
      front.reverse
    refine .joined hjoins above.reverse row behind ?_ ?_ hsetOff
    · rw [rowsOf?, habove, Option.map_some, List.reverse_cons]
    · rw [← hbehind]
      simp
  · rw [Bool.not_eq_true] at hjoins
    have hrow : v.HasRow printer.settings := ⟨hempty, hcode, hjoins⟩
    obtain ⟨column, hplacement⟩ := placement?_of_hasRow (p := p) hrow
    obtain ⟨above, rows, places, habove, hrows, hwritten⟩ :=
      written_around_visit hwritten hv hplacement
    obtain rfl : column = 0 := by
      obtain ⟨behind, hlayout⟩ := layout_of_visit hv hplacement
      exact hcolumns _ _ _ _ (hlayout ▸ List.mem_append_right _ List.mem_cons_self)
    obtain rfl := Option.some.inj ((v.write?_rowText hwrap above).symm.trans hrows)
    obtain ⟨front, more, rfl, hmore⟩ := foldlM_write?_extends_row [] hwritten
    obtain ⟨behind, hbehind, hsetOff⟩ := ofRows_around_row
      (printer.header name p.image ++ above.reverse) (v.rowText printer.settings p) hmore
      front.reverse
    obtain ⟨gap, hgap⟩ := v.exists_rowText_eq printer.settings p
    refine .row hrow above.reverse gap behind ?_ ?_ hsetOff
    · rw [rowsOf?, habove, Option.map_some]
    · rw [← hgap, ← hbehind]
      simp

end

/-- **Alignment only adds spaces before the `=` of assignments.**  The listing with alignment has
    the same rows as the one without it, but for such spaces; and in the one without it, the text
    of each statement that hides no code and is not broken stands as it is. -/
theorem Printer.alignment_adds_spaces (settings : Settings) (name : Text) (image : Image) :
    let plain : Printer := { settings := { settings with alignAssignments := false } }
    let aligned : Printer := { settings := { settings with alignAssignments := true } }
    ∃ text text', plain.listing? name image = some text ∧
      aligned.listing? name image = some text' ∧
      List.Forall₂ (IsAligned aligned.settings (aligned.program image))
        (text.splitOn '\n') (text'.splitOn '\n') ∧
      ∀ (index : Nat) (s : Statement), (plain.program image).statements[index]? = some s →
        s.hidesCode = false →
        ∃ v, ((plain.program image).visits plain.settings)[index]? = some v ∧
          v.site.statement = s ∧ (v.IsWrapped plain.settings (plain.program image) ∨
            (plain.program image).ShowsText plain name text v) := by
  intro plain aligned
  -- Without alignment, the program and the settings are the plain ones of those with it.
  have hprogram : plain.program image = (aligned.program image).plain := rfl
  have hsettings : plain.settings = aligned.settings.plain := rfl
  have hheader : plain.header name image = aligned.header name image := rfl
  obtain ⟨rows, hrows, hprintable⟩ : ∃ rows, (plain.program image).rows? plain.settings
      plain.disassembler = some rows ∧ ∀ row ∈ rows, row.Printable :=
    exists_rows? rfl fun s _ _ => Program.hasPrintableCode_standard _ s
  obtain ⟨rows', hrows', hprintable'⟩ : ∃ rows, (aligned.program image).rows? aligned.settings
      aligned.disassembler = some rows ∧ ∀ row ∈ rows, row.Printable :=
    exists_rows? rfl fun s _ _ => Program.hasPrintableCode_standard _ s
  have hplain : (aligned.program image).plain.rows? aligned.settings.plain aligned.disassembler =
      some rows := by
    rw [← hprogram, ← hsettings]
    exact hrows
  have hcolumns : ∀ start indent column s,
      .row start indent column s ∈ (plain.program image).layout plain.settings → column = 0 := by
    intro start indent column s h
    rw [hprogram, hsettings] at h
    exact Program.column_of_mem_layout_plain h
  refine ⟨Text.ofRows (plain.header name image ++ rows),
    Text.ofRows (aligned.header name image ++ rows'), ?_, ?_, ?_, ?_⟩
  · rw [listing?, hrows, Option.map_some]
  · rw [listing?, hrows', Option.map_some]
  · rw [hheader]
    exact forall₂_splitOn (fun _ => Or.inl rfl) _ hprintable hprintable'
      (forall₂_rows? hplain hrows')
  · intro index s hs hcode
    obtain ⟨v, hv, rfl⟩ := exists_visit plain.settings hs
    refine ⟨v, hv, rfl, ?_⟩
    by_cases hwrap : v.IsWrapped plain.settings (plain.program image)
    · exact Or.inl hwrap
    · exact Or.inr (Program.showsText_of_visit hcolumns hrows name (List.mem_of_getElem? hv) hcode
        hwrap)

theorem Printer.alignment_adds_spaces_runOfThree :
    let plain : Printer := { settings := { showHeader := false, alignAssignments := false } }
    let aligned : Printer := { settings := { showHeader := false, alignAssignments := true } }
    ∃ text text', plain.listing? [] runOfThree = some text ∧
      aligned.listing? [] runOfThree = some text' ∧ text ≠ text' ∧
      List.Forall₂ (IsAligned aligned.settings (aligned.program runOfThree))
        (text.splitOn '\n') (text'.splitOn '\n') ∧
      ∃ v, v.site.statement.body = [0x41, 0xD0, 0x31] ∧
        (plain.program runOfThree).ShowsText plain [] text v := by
  intro plain aligned
  have hdiffer : plain.listing? [] runOfThree ≠ aligned.listing? [] runOfThree := by
    decide +kernel
  have hs : (plain.program runOfThree).statements[0]? =
      some ⟨4, [0x41, 0xD0, 0x31], .colon, true⟩ := by decide +kernel
  obtain ⟨text, text', htext, htext', hrows, hshows⟩ :=
    alignment_adds_spaces { showHeader := false } [] runOfThree
  obtain ⟨v, -, hstatement, hv⟩ := hshows 0 _ hs (by decide)
  refine ⟨text, text', htext, htext', fun h => hdiffer ?_, hrows, v, by rw [hstatement],
    hv.resolve_left fun hwrapped => ?_⟩
  · rw [htext, htext', h]
  · have hprint := hwrapped.1
    rw [hstatement] at hprint
    exact absurd hprint (by decide)

end BasicListing
