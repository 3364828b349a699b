/-
  Assignments under each other.

  * `Program.rowText_showsEquals`: where the `=` of an assignment stands in its
    row.
  * `exists_row_of_visit`: an assignment has a row of its own, below those of
    the places that the pass gave before it.
  * `Program.EqualsAt`: where a statement and its `=` stand in a listing.
  * `Printer.assignments_line_up`: the assignments of a run have their `=` in
    one column, which is as far to the right as any of them needs.
-/
import BasicListing.Proofs.Runs
import BasicListing.Proofs.Writing

namespace BasicListing

/-! ## Rows of assignments -/

/-- The row shows the text behind `before`, with spaces put before its first `=`, so that it
    stands at the given column.  More may follow in the row. -/
def Text.ShowsEquals (row before text : Text) (column : Nat) : Prop :=
  ∃ name value gap more, text = name ++ '=' :: value ∧ '=' ∉ name ∧
    row = before ++ name ++ spaces gap ++ '=' :: value ++ more ∧
    width (before ++ name ++ spaces gap) = column

namespace Program

variable {p : Program} {settings : Settings} {disassembler : Disassembler} {s : Statement}

theorem branchMark_of_assignment (h : 0 < p.assignmentColumn s) : branchMark settings s = [] := by
  have hbranch : s.branch? = none := by
    rcases (assignment_cases h).2 with h | ⟨-, b, h, hdigit⟩
    · simp [Statement.branch?, h, Token.isDigit]
    · simp [Statement.branch?, h, hdigit]
  simp [branchMark, hbranch]

/-- The text of an assignment with its `=` moved, which takes spaces before the `=`. -/
theorem textAt_of_assignment (h : 0 < p.assignmentColumn s) {column : Nat}
    (hcolumn : p.assignmentColumn s ≤ column) :
    ∃ name value, p.text s = name ++ '=' :: value ∧ '=' ∉ name ∧
      name.width = p.assignmentColumn s ∧
      p.textAt s column = name ++ Text.spaces (column - p.assignmentColumn s) ++ '=' :: value := by
  obtain ⟨hassign, hequals, -⟩ := equals_of_assignment h
  obtain ⟨name, value, htext, hname⟩ := List.eq_append_cons_of_mem hequals
  have htake : (p.text s).takeWhile (· != '=') = name := by
    rw [htext, takeWhile_bne_append hname]
  have hdrop : (p.text s).dropWhile (· != '=') = '=' :: value := by
    rw [htext, dropWhile_bne_append hname]
  refine ⟨name, value, htext, hname, by rw [hassign, htake], ?_⟩
  change (if 0 < p.assignmentColumn s ∧ p.assignmentColumn s < column then
    (p.text s).takeWhile (· != '=') ++ Text.spaces (column - p.assignmentColumn s) ++
      (p.text s).dropWhile (· != '=') else p.text s) = _
  rw [htake, hdrop]
  split_ifs with hlt
  · rfl
  · -- The `=` already stands there.
    have hzero : column - p.assignmentColumn s = 0 := by omega
    rw [hzero, htext]
    simp [Text.spaces]

/-- **Where the `=` of an assignment stands in its row.** -/
theorem rowText_showsEquals (h : 0 < p.assignmentColumn s) {column : Nat}
    (hcolumn : p.assignmentColumn s ≤ column) {start : Text}
    (hstart : start.width ≤ settings.textColumn) (indent : Nat) (more : Text) :
    Text.ShowsEquals (p.rowText settings start indent column s ++ more)
      (Text.padTo (2 * indent + settings.textColumn) start) (p.text s)
      (2 * indent + settings.textColumn + column) := by
  have hremark : s.isLedBy .remark = false :=
    Statement.isLedBy_eq_false_iff.2 (head_ne_of_assignment h _ (by simp))
  obtain ⟨name, value, htext, hname, hwidth, htextAt⟩ := textAt_of_assignment h hcolumn
  refine ⟨name, value, column - p.assignmentColumn s, more, htext, hname, ?_, ?_⟩
  · rw [rowText, branchMark_of_assignment h, List.append_nil, hremark, if_neg (by simp), htextAt]
    simp only [List.append_assoc]
  · rw [Text.width_append, Text.width_append, Text.width_padTo, Text.width_spaces, hwidth]
    omega

end Program

/-! ## Rows of visits -/

/-- The number of rows that are written for the places given before a visit. -/
def Visit.rowsAbove? (printer : Printer) (p : Program) (v : Visit) : Option Nat :=
  (v.pass.placed.reverse.foldlM (p.write? printer.settings printer.disassembler) []).map
    List.length

/-- What the row of a statement begins with leaves room for its text. -/
def Placement.HasRoom (settings : Settings) : Placement → Prop
  | .row start _ _ _ => start.width ≤ settings.textColumn
  | _ => True

theorem IsRowStart.width_le {settings : Settings} {p : Program} {start : Text}
    (h : IsRowStart settings p start) : start.width ≤ settings.textColumn := by
  rcases h with rfl | ⟨line, -, rfl⟩
  · exact Nat.zero_le _
  · exact width_rowStart_le _ _ _

theorem layout_hasRoom (p : Program) (settings : Settings) :
    ∀ placement ∈ p.layout settings, placement.HasRoom settings :=
  layout_forall (fun _ _ => trivial) (fun _ _ _ _ _ => trivial) (fun _ _ => trivial)
    (fun _ _ _ _ h _ => h.width_le)

section
variable {p : Program} {printer : Printer} {v : Visit}

/-- The place of an assignment, with what is placed before and behind it. -/
theorem exists_layout_of_visit {settings : Settings} (halign : settings.alignAssignments = true)
    (hv : v ∈ p.visits settings) (hassign : 0 < p.assignmentColumn v.site.statement) :
    ∃ behind, p.layout settings = v.pass.placed.reverse ++
      .row (v.pass.start.getD []) v.pass.indent (v.column settings p) v.site.statement ::
        behind := by
  obtain ⟨later, hlater⟩ := placed_suffix_visit hv
  rw [(v.pass.step_step settings p v.site).assignment halign hassign] at hlater
  refine ⟨later.reverse, ?_⟩
  rw [Program.layout, ← hlater, Visit.column, if_neg (by omega)]
  simp

/-- An assignment has a row of its own. -/
theorem exists_row_of_visit {rows : List Text}
    (hrows : p.rows? printer.settings printer.disassembler = some rows)
    (halign : printer.settings.alignAssignments = true) (hv : v ∈ p.visits printer.settings)
    (hassign : 0 < p.assignmentColumn v.site.statement) :
    ∃ number more, v.rowsAbove? printer p = some number ∧
      rows[number]? = some (p.rowText printer.settings (v.pass.start.getD []) v.pass.indent
        (v.column printer.settings p) v.site.statement ++ more) := by
  obtain ⟨behind, hlayout⟩ := exists_layout_of_visit halign hv hassign
  -- The layout is written in three parts; the last leaves the row alone, but for text at its end.
  obtain ⟨written, hwritten, rfl⟩ := Option.map_eq_some_iff.1 hrows
  rw [hlayout, List.foldlM_append] at hwritten
  obtain ⟨above, habove, hwritten⟩ := Option.bind_eq_some_iff.1 hwritten
  rw [List.foldlM_cons] at hwritten
  obtain ⟨rows₁, hrow, hwritten⟩ := Option.bind_eq_some_iff.1 hwritten
  have hprint : v.site.statement.isLedBy .print = false :=
    Statement.isLedBy_eq_false_iff.2 (Program.head_ne_of_assignment hassign _ (by simp))
  simp only [Program.write?, hprint, Bool.false_eq_true, if_false, Option.some.injEq] at hrow
  subst hrow
  obtain ⟨more, hmore⟩ := grows_foldlM hwritten above.length
    (p.rowText printer.settings (v.pass.start.getD []) v.pass.indent (v.column printer.settings p)
      v.site.statement) (by simp)
  exact ⟨above.length, more, by rw [Visit.rowsAbove?, habove]; rfl, hmore⟩

theorem splitOn_ofRows {rows : List Text} (hrows : ∀ row ∈ rows, row.Printable)
    (hne : rows ≠ []) : (Text.ofRows rows).splitOn '\n' = rows :=
  List.splitOn_intercalate '\n' (fun row hrow => (hrows row hrow).newline_notMem) hne

end

/-! ## Assignments of a run -/

/-- The listing of a decoded program. -/
def Printer.textOf? (printer : Printer) (name : Text) (p : Program) : Option Text :=
  (p.rows? printer.settings printer.disassembler).map fun rows =>
    Text.ofRows (printer.header name p.image ++ rows)

theorem Printer.listing?_eq (printer : Printer) (name : Text) (image : Image) :
    printer.listing? name image = printer.textOf? name (printer.program image) := rfl

/-- In a listing, the statement with the given index has a row of its own.  Its text begins at the
    column `start` of that row, and the first `=` of its text stands at the column `column`. -/
def Program.EqualsAt (printer : Printer) (p : Program) (listing : Text)
    (index start column : Nat) : Prop :=
  ∃ (v : Visit) (number : Nat) (row : Text), (p.visits printer.settings)[index]? = some v ∧
    v.rowsAbove? printer p = some number ∧ (listing.splitOn '\n')[number]? = some row ∧
    (Text.padTo start (v.pass.start.getD [])).width = start ∧
    row.ShowsEquals (Text.padTo start (v.pass.start.getD [])) (p.text v.site.statement) column

section
variable {p : Program} {printer : Printer} {v : Visit}

/-- An assignment stands at the indentation and the column that the pass has for it. -/
theorem equalsAt_of_visit {rows : List Text}
    (hrows : p.rows? printer.settings printer.disassembler = some rows)
    (hprintable : ∀ row ∈ rows, row.Printable)
    (halign : printer.settings.alignAssignments = true) {k : Nat}
    (hv : (p.visits printer.settings)[k]? = some v)
    (hassign : 0 < p.assignmentColumn v.site.statement)
    (hfits : p.assignmentColumn v.site.statement ≤ v.column printer.settings p) :
    let start := 2 * v.pass.indent + printer.settings.textColumn
    p.EqualsAt printer (Text.ofRows rows) k start (start + v.column printer.settings p) := by
  have hmem := List.mem_of_getElem? hv
  obtain ⟨number, more, habove, hrow⟩ := exists_row_of_visit hrows halign hmem hassign
  obtain ⟨behind, hlayout⟩ := exists_layout_of_visit halign hmem hassign
  have hplaced := hlayout ▸ List.mem_append_right v.pass.placed.reverse List.mem_cons_self
  have hstart : (v.pass.start.getD []).width ≤ printer.settings.textColumn :=
    layout_hasRoom p printer.settings _ hplaced
  refine ⟨v, number, _, hv, habove, ?_, ?_,
    Program.rowText_showsEquals hassign hfits hstart v.pass.indent more⟩
  · rw [splitOn_ofRows hprintable (by rintro rfl; simp at hrow)]
    exact hrow
  · rw [Text.width_padTo]
    omega

end

/-- **The assignments of a run line up**: the first `=` of each stands in the same column, which
    is as far to the right as any of them needs.

    Two assignments are in one run if all statements between them are assignments, or remarks at
    the end of the row above, and if no `IF` stands before the first of them in its line, or both
    are in the same line. -/
theorem Printer.assignments_line_up (printer : Printer) (name : Text) (findAssignments : Bool)
    (image : Image) {p : Program} (hp : p = Program.ofImage .standard findAssignments image)
    (hheader : printer.settings.showHeader = false)
    (halign : printer.settings.alignAssignments = true)
    (hcode : ∀ s ∈ p.statements, s.hidesCode = false) {i j : Nat} (hij : i < j)
    {s t : Statement} (hs : p.statements[i]? = some s) (ht : p.statements[j]? = some t)
    (hassign : 0 < p.assignmentColumn s) (hassign' : 0 < p.assignmentColumn t)
    (hbetween : ∀ k u, i < k → k < j → p.statements[k]? = some u → 0 < p.assignmentColumn u ∨
      printer.settings.splitComments = false ∧ u.isJoinable = true)
    {r : Nat × Nat} (hr : r ∈ p.ranges) (hi : r.1 ≤ i ∧ i < r.2)
    (hline : j < r.2 ∨ ∀ k u, r.1 ≤ k → k < i → p.statements[k]? = some u →
      u.isLedBy .ifCondition = false) :
    ∃ text start column, printer.textOf? name p = some text ∧
      p.EqualsAt printer text i start column ∧ p.EqualsAt printer text j start column ∧
      start + max (p.assignmentColumn s) (p.assignmentColumn t) ≤ column := by
  have hkeywords : p.keywords = .standard := by rw [hp]; rfl
  have hstands : ∀ line ∈ p.lines, line.StandsIn image := by
    rw [hp]
    exact (scanLines_decodes image 0 0).standsIn
  have hlines : ∀ line ∈ p.lines, line.statements ≠ [] := fun line h =>
    (hstands line h).statements_ne_nil
  have hrun : ∀ k u, i ≤ k → k ≤ j → p.statements[k]? = some u →
      p.endsRun printer.settings.splitComments u = false := by
    intro k u hik hkj hu
    rw [Program.endsRun_eq_false_iff]
    rcases Nat.eq_or_lt_of_le hik with rfl | hik
    · exact Or.inl (Option.some.inj (hs.symm.trans hu) ▸ hassign)
    rcases Nat.eq_or_lt_of_le hkj with rfl | hkj
    · exact Or.inl (Option.some.inj (ht.symm.trans hu) ▸ hassign')
    · exact hbetween k u hik hkj hu
  obtain ⟨v, hv, rfl⟩ := exists_visit printer.settings hs
  obtain ⟨w, hw, rfl⟩ := exists_visit printer.settings ht
  obtain ⟨n, rfl⟩ := Nat.exists_eq_add_of_le hij.le
  obtain ⟨hcolumn, hindent⟩ := run_visits hlines (fun line h => (hstands line h).opens) halign hcode
    hr hi hline hrun hv hassign (Nat.le_refl _) hw
  have hle := (visits_sound hlines halign hcode hv).le_column hassign
  have hle' := (visits_sound hlines halign hcode hw).le_column hassign'
  obtain ⟨rows, hrows, hprintable⟩ : ∃ rows,
      p.rows? printer.settings printer.disassembler = some rows ∧ ∀ row ∈ rows, row.Printable :=
    exists_rows? hkeywords fun u hu hhides => by simp [hcode u hu] at hhides
  have hfirst := equalsAt_of_visit hrows hprintable halign hv hassign hle
  have hlast := equalsAt_of_visit hrows hprintable halign hw hassign' hle'
  rw [hcolumn, hindent] at hlast
  rw [hcolumn] at hle'
  refine ⟨Text.ofRows rows, _, _, ?_, hfirst, hlast, ?_⟩
  · rw [textOf?, hrows, header, if_neg (by simp [hheader])]
    rfl
  · omega

/-- A run of three assignments in two lines, with a remark inside it. -/
def runOfThree : Image :=
  [0x12, 0x08, 10, 0, 0x41, 0xD0, 0x31, 0x3A, 0x42, 0x43, 0x44, 0xD0, 0x32, 0x3A, 0xB2, 0x58, 0,
   0x1D, 0x08, 20, 0, 0x4C, 0x4F, 0x4E, 0x47, 0xD0, 0x33, 0, 0, 0]

theorem Printer.assignments_line_up_runOfThree :
    let printer : Printer := { settings := { showHeader := false } }
    let p := printer.program runOfThree
    ∃ text start column, printer.listing? [] runOfThree = some text ∧
      p.EqualsAt printer text 0 start column ∧ p.EqualsAt printer text 3 start column ∧
      start + 5 ≤ column := by
  intro printer p
  have hcode : ∀ s ∈ p.statements, s.hidesCode = false := by decide +kernel
  have hs : p.statements[0]? = some ⟨4, [0x41, 0xD0, 0x31], .colon, true⟩ := by decide +kernel
  have ht : p.statements[3]? = some ⟨21, [0x4C, 0x4F, 0x4E, 0x47, 0xD0, 0x33], .zero, true⟩ := by
    decide +kernel
  have hbetween : ∀ k < 3, 0 < k → ∀ u ∈ p.statements[k]?, 0 < p.assignmentColumn u ∨
      printer.settings.splitComments = false ∧ u.isJoinable = true := by decide +kernel
  obtain ⟨text, start, column, htext, hfirst, hlast, hle⟩ := assignments_line_up printer [] true
    runOfThree (p := p) rfl rfl rfl hcode (by decide : 0 < 3) hs ht (by decide +kernel)
    (by decide +kernel) (fun k u hk hk3 hu => hbetween k hk3 hk u hu) (r := (0, 3))
    (by decide +kernel) (by decide) (Or.inr fun k _ _ hk => absurd hk (Nat.not_lt_zero k))
  exact ⟨text, start, column, htext, hfirst, hlast, hle⟩

end BasicListing
