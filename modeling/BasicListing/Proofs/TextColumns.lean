/-
  The columns at which the text of statements begins.

  * `Visit.before`: the statements before a statement in its line.  The start
    of a line goes to the first statement that is shown (`start_of_visit`).
  * `Visit.marks`: the line number and the marks before the text of a statement.
  * `Visit.OverrunsGutter`: where there is no room for them.  A branch behind
    separators is shown first in its line, and has a mark of its own behind
    the line number.
  * `Printer.text_starts_in_column`: any other text begins at the column of its
    indentation, with all marks to the left of the text that is not indented.
-/
import BasicListing.Proofs.Positions

namespace BasicListing

/-! ## The first statement that is shown -/

/-- The statements before a statement in its line. -/
def Visit.before (v : Visit) : List Statement :=
  v.line.statements.take (v.line.statements.length - (v.site.after.length + 1))

section
variable {settings : Settings} {p : Program} {v : Visit}

/-- Statements that are not shown leave the start of the line for those behind them. -/
theorem LinePass.start_foldl (settings : Settings) (p : Program) (sites : List Site)
    (pass : LinePass) :
    (sites.foldl (step settings p) pass).start =
      if (sites.map Site.statement).all Statement.isEmpty then pass.start else none := by
  induction sites generalizing pass with
  | nil => rfl
  | cons site sites ih =>
    have hstep := (pass.step_step settings p site).start_eq
    rw [List.foldl_cons, ih, hstep, List.map_cons, List.all_cons]
    cases site.statement.isEmpty <;> simp

/-- **The start of a line goes to its first statement that is shown.** -/
theorem start_of_visit (hv : v ∈ p.visits settings) :
    v.pass.start =
      if v.before.all Statement.isEmpty then some (rowStart settings p.targets v.line)
      else none := by
  obtain ⟨pass, front, hpass, hline⟩ := exists_front_of_visit hv
  have hbefore : v.before = front.map Site.statement := by
    rw [Visit.before, hline]
    refine List.take_left' ?_
    simp only [List.length_append, List.length_map, List.length_cons]
    omega
  rw [hpass, hbefore, LinePass.start_foldl]
  rfl

/-! ## Marks -/

/-- What stands before the text of a statement in its row besides spaces. -/
def Visit.marks (settings : Settings) (v : Visit) : Text :=
  v.pass.start.getD [] ++ branchMark settings v.site.statement

/-- The line number and the mark of a branch do not leave room for each other: the branch is the
    first statement of its line that is shown, but separators stand before it. -/
structure Visit.OverrunsGutter (settings : Settings) (p : Program) (v : Visit) : Prop where
  showsTargets : settings.showBranchTargets = true
  branches : v.site.statement.branch?.isSome = true
  behind : v.site.statement.opensLine = false
  separators : v.before.all Statement.isEmpty = true
  numbered : numberText settings p.targets v.line ≠ []

theorem width_branchMark (settings : Settings) (s : Statement) :
    (branchMark settings s).width =
      if settings.showBranchTargets && !s.opensLine && s.branch?.isSome then 4 else 0 := by
  unfold branchMark
  cases settings.showBranchTargets && !s.opensLine with
  | false => rfl
  | true =>
    cases s.branch? with
    | none => rfl
    | some branch => cases branch <;> rfl

theorem length_numberText {targets : Targets} {line : Line}
    (h : numberText settings targets line ≠ []) :
    (numberText settings targets line).length = 5 := by
  have hle := length_numberText_le settings targets line
  unfold numberText at h hle ⊢
  split_ifs at h hle ⊢
  · exact absurd rfl h
  · rw [Text.padLeft, (printable_decimal _).width_eq, List.length_append, Text.spaces,
      List.length_replicate] at hle ⊢
    omega

theorem width_rowStart (htargets : settings.showBranchTargets = true) (targets : Targets)
    (line : Line) :
    (rowStart settings targets line).width = 7 + (numberText settings targets line).length := by
  have hsource := (pairText_spec (targetMark targets line) (sourceMark_spec line)).2
  have htarget := (pairText_spec (sourceMark line) (targetMark_spec targets line)).2
  rw [(printable_rowStart settings targets line).width_eq, rowStart, gutter, if_pos htargets]
  simp only [List.length_append, hsource, htarget, List.length_cons, List.length_nil, Text.spaces,
    List.length_replicate]
  omega

theorem width_marks_overruns (hv : v ∈ p.visits settings) (h : v.OverrunsGutter settings p) :
    (v.marks settings).width = 16 := by
  rw [Visit.marks, start_of_visit hv, if_pos h.separators, Option.getD_some, Text.width_append,
    width_rowStart h.showsTargets, length_numberText h.numbered, width_branchMark, h.showsTargets,
    h.behind, h.branches]
  rfl

/-- **The gutter holds all marks**, but for the mark of a branch behind a line number. -/
theorem width_marks_le (hv : v ∈ p.visits settings) (h : ¬ v.OverrunsGutter settings p) :
    (v.marks settings).width ≤ settings.textColumn := by
  have hbase : 8 ≤ settings.textColumn := by
    unfold Settings.textColumn
    split_ifs <;> omega
  have hstart := width_rowStart_le settings p.targets v.line
  rw [Visit.marks, start_of_visit hv, Text.width_append, width_branchMark]
  by_cases hmark : (settings.showBranchTargets && !v.site.statement.opensLine &&
      v.site.statement.branch?.isSome) = true
  · rw [if_pos hmark]
    simp only [Bool.and_eq_true, Bool.not_eq_true'] at hmark
    obtain ⟨⟨htargets, hbehind⟩, hbranch⟩ := hmark
    split_ifs with hseparators
    · -- The number is not shown, which leaves room for the mark.
      have hnumber : numberText settings p.targets v.line = [] := by
        by_contra hnumber
        exact h ⟨htargets, hbranch, hbehind, hseparators, hnumber⟩
      rw [Option.getD_some, width_rowStart htargets, hnumber, Settings.textColumn, if_pos htargets]
      decide
    · rw [Option.getD_none, Text.width_nil]
      omega
  · rw [if_neg hmark]
    split_ifs
    · exact hstart
    · exact Nat.zero_le _

end

/-! ## Columns -/

/-- **Text begins at the column of its indentation**, two columns to the right for each loop and
    clause around it, and all marks stand to the left of text that is not indented.

    Only a branch that overruns the gutter can begin further to the right.  The line number and
    its mark take sixteen columns, so it does so if it stands in fewer than two loops. -/
theorem Printer.text_starts_in_column (settings : Settings) (disassembler : Disassembler)
    (name : Text) (image : Image) :
    let printer : Printer := { settings, disassembler }
    let p := printer.program image
    let base := if settings.showBranchTargets then 12 else 8
    ∃ text, printer.listing? name image = some text ∧
      ∀ (k : Nat) (v : Visit), (p.visits settings)[k]? = some v → v.HasRow settings →
        let indent := (v.pass.closeLoops v.site.statement).indent
        (¬ v.OverrunsGutter settings p →
          p.StartsAt printer name text k (2 * indent + base) ∧ (v.marks settings).width ≤ base) ∧
        (v.OverrunsGutter settings p →
          p.StartsAt printer name text k (max (2 * indent + base) 16) ∧
            (v.marks settings).width = 16 ∧ base = 12) := by
  intro printer p base
  obtain ⟨rows, hrows⟩ := exists_rows?_of_ascii (p := p) Keywords.ascii_standard settings
    disassembler
  refine ⟨Text.ofRows (printer.header name image ++ rows), by rw [listing?, hrows]; rfl, ?_⟩
  intro k v hv hrow indent
  have hmem := List.mem_of_getElem? hv
  have hstarts : p.StartsAt printer name (Text.ofRows (printer.header name image ++ rows)) k
      (v.textColumn settings) := startsAt_of_visit rfl hrows name hv hrow
  have hcolumn : v.textColumn settings = max (2 * indent + base) (v.marks settings).width := rfl
  rw [hcolumn] at hstarts
  constructor
  · intro hfits
    have hle : (v.marks settings).width ≤ base := width_marks_le hmem hfits
    rw [max_eq_left (by omega)] at hstarts
    exact ⟨hstarts, hle⟩
  · intro hoverruns
    have hwidth := width_marks_overruns hmem hoverruns
    rw [hwidth] at hstarts
    exact ⟨hstarts, hwidth, if_pos hoverruns.showsTargets⟩

/-- Separators, a loop and a clause before a `GOTO`. -/
def gotoInClause : Image :=
  [0x14, 0x08, 10, 0, 0x3A, 0x3A, 0x81, 0x49, 0xD0, 0x31, 0xC1, 0x33, 0x3A, 0xAD, 0x49, 0xAB, 0x31,
   0x30, 0, 0, 0]

theorem Printer.text_starts_in_column_gotoInClause :
    let printer : Printer := { settings := { showHeader := false } }
    let p := printer.program gotoInClause
    ∃ text v, printer.listing? [] gotoInClause = some text ∧
      (p.visits printer.settings)[4]? = some v ∧ v.site.statement.head = .goto ∧
      p.StartsAt printer [] text 4 16 ∧ (v.marks printer.settings).width ≤ 12 := by
  intro printer p
  obtain ⟨v, hv, -⟩ := exists_visit printer.settings
    (by decide +kernel : p.statements[4]? = some ⟨15, [0xAB, 0x31, 0x30], .zero, false⟩)
  have hvisit : ∀ v ∈ (p.visits printer.settings)[4]?, v.site.statement.head = .goto ∧
      (v.site.statement.isEmpty = false ∧ v.site.statement.hidesCode = false ∧
        v.pass.joins printer.settings v.site.statement = false) ∧
      (v.pass.closeLoops v.site.statement).indent = 2 ∧
      v.before.all Statement.isEmpty = false := by
    decide +kernel
  obtain ⟨hhead, hrow, hindent, hbefore⟩ := hvisit v hv
  obtain ⟨text, htext, hcolumns⟩ := text_starts_in_column printer.settings .standard []
    gotoInClause
  have hfits : ¬ v.OverrunsGutter printer.settings p := fun h =>
    Bool.false_ne_true (hbefore.symm.trans h.separators)
  obtain ⟨hstarts, hwidth⟩ := (hcolumns 4 v hv hrow).1 hfits
  rw [hindent] at hstarts
  exact ⟨text, v, htext, hv, hhead, hstarts, hwidth⟩

/-- A `GOTO` behind a separator, and the line that it goes to. -/
def gotoBehindSeparator : Image :=
  [0x0B, 0x08, 10, 0, 0x3A, 0xAB, 0x31, 0x30, 0x30, 0,
   0x11, 0x08, 100, 0, 0x80, 0, 0, 0]

/-- The mark of the `GOTO` stands behind the line number, and moves the text out of its column. -/
theorem Printer.text_moved_gotoBehindSeparator :
    let printer : Printer := { settings := { showHeader := false } }
    let p := printer.program gotoBehindSeparator
    ∃ text v, printer.listing? [] gotoBehindSeparator = some text ∧
      text = "        10   <--GOTO 100\n-->    100  END".toList ∧
      (p.visits printer.settings)[1]? = some v ∧ v.HasRow printer.settings ∧
      (v.pass.closeLoops v.site.statement).indent = 0 ∧
      ¬ p.StartsAt printer [] text 1 12 ∧ 12 < (v.marks printer.settings).width := by
  intro printer p
  obtain ⟨v, hv, -⟩ := exists_visit printer.settings
    (by decide +kernel : p.statements[1]? = some ⟨5, [0xAB, 0x31, 0x30, 0x30], .zero, false⟩)
  have hvisit : ∀ v ∈ (p.visits printer.settings)[1]?,
      (v.site.statement.isEmpty = false ∧ v.site.statement.hidesCode = false ∧
        v.pass.joins printer.settings v.site.statement = false) ∧
      (v.pass.closeLoops v.site.statement).indent = 0 ∧
      (v.marks printer.settings).width = 16 := by
    decide +kernel
  obtain ⟨hrow, hindent, hwidth⟩ := hvisit v hv
  refine ⟨_, v, by decide +kernel, rfl, hv, hrow, hindent, ?_, by omega⟩
  rintro ⟨v', above, gap, aligned, shown, behind, hv', -, -, hcolumn, -⟩
  obtain rfl : v = v' := Option.some.inj (hv.symm.trans hv')
  rw [Visit.lead, Text.width_append, ← Visit.marks, hwidth] at hcolumn
  omega

end BasicListing
