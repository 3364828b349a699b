/-
  The rows of each line.

  * `Program.rowCount`: how many rows a line takes, as its statements tell.
    Each statement that is shown has a row, a line without any still has one,
    a remark may share the row of a statement before it, and hidden code takes
    rows of its own.
  * `height_placementsOfLine`: the places of a line take that many rows.
  * `begins_rowsOf?`: the first of them begins with the start of the line.
  * `Printer.rows_by_line`: a listing consists of the rows of its lines.
-/
import BasicListing.Proofs.Content
import BasicListing.Proofs.Leading
import BasicListing.Proofs.LineUp
import BasicListing.Proofs.Placing

namespace BasicListing

/-! ## How many rows a line takes -/

/-- The remark that a line ends with. -/
def Line.remark? (line : Line) : Option Statement :=
  line.statements.getLast?.filter (·.isLedBy .remark)

/-- The remark that a line ends with shares the row of a statement before it. -/
def Line.sharesRow (settings : Settings) (line : Line) : Bool :=
  !settings.splitComments && line.remark?.any (!·.hidesCode)
    && line.statements.dropLast.any (!·.isEmpty)

namespace Program

/-- The number of rows for the code that a statement hides. -/
def codeHeight (p : Program) (s : Statement) : Nat :=
  if s.hidesCode then (sweep (p.codeAddress s) s.operand).length else 0

/-- The number of rows of a line in a listing in which nothing is broken. -/
def rowCount (settings : Settings) (p : Program) (line : Line) : Nat :=
  max 1 (line.statements.countP (!·.isEmpty)) - (if line.sharesRow settings then 1 else 0)
    + (line.remark?.map p.codeHeight).getD 0

end Program

/-! ## Heights -/

/-- The number of rows that a place adds. -/
def Placement.height (p : Program) : Placement → Nat
  | .bare _ => 1
  | .code _ s => 1 + (sweep (p.codeAddress s) s.operand).length
  | .joined _ => 0
  | .row _ _ _ _ => 1

section
variable {settings : Settings} {p : Program}

theorem height_placement? (pass : LinePass) (site : Site) :
    total ((pass.placement? settings p site).toList.map (Placement.height p)) =
      if site.statement.isEmpty || pass.joins settings site.statement && !site.statement.hidesCode
      then 0 else 1 + p.codeHeight site.statement := by
  unfold LinePass.placement?
  by_cases hempty : site.statement.isEmpty = true
  · simp [hempty]
  by_cases hcode : site.statement.hidesCode = true
  · simp [hempty, hcode, Placement.height, Program.codeHeight]
  by_cases hjoins : pass.joins settings site.statement = true
  · simp [hempty, hcode, hjoins, Placement.height]
  · simp [hempty, hcode, hjoins, Placement.height, Program.codeHeight]

/-- **The places of a line take as many rows as its statements tell.**  The induction is on the
    statements before the last one, none of which is a remark; `shown` of them and of the last one
    are shown. -/
theorem height_placementsOfLine (settings : Settings) (p : Program) {sites : List Site}
    {init : List Statement} {last : Statement} (pass : LinePass)
    (hsites : sites.map Site.statement = init ++ [last])
    (hinit : ∀ s ∈ init, s.head ≠ .remark)
    (hopens : pass.start = none ∨ init ≠ [] → last.opensLine = false) :
    let shown := (init ++ [last]).countP (!·.isEmpty)
    total ((placementsOfLine settings p pass sites).map (Placement.height p)) +
        (if !settings.splitComments && last.isLedBy .remark && !last.hidesCode &&
          (pass.start.isNone || init.any (!·.isEmpty)) then 1 else 0) =
      shown + (if pass.start.isSome && shown == 0 then 1 else 0) + p.codeHeight last := by
  induction init generalizing sites pass with
  | nil =>
    obtain ⟨site, rfl, rfl⟩ : ∃ site, sites = [site] ∧ site.statement = last := by
      simpa [List.map_eq_singleton_iff] using hsites
    have hnext := (pass.step_step settings p site).start_eq
    -- Where a row stands above it, the statement is not the first of its line.
    have hjoins : pass.joins settings site.statement =
        (!settings.splitComments && site.statement.isLedBy .remark && pass.start.isNone) := by
      unfold LinePass.joins Statement.isJoinable
      cases hstart : pass.start with
      | none => simp [hopens (Or.inl hstart)]
      | some start => simp
    rw [placementsOfLine, placementsOfLine, List.map_append, total_append, height_placement?, hnext,
      hjoins]
    by_cases hempty : site.statement.isEmpty = true
    · have hcode := Statement.hidesCode_of_isEmpty hempty
      have hremark : site.statement.isLedBy .remark = false := by
        rw [Statement.isLedBy_eq_false_iff]
        rcases Statement.head_of_isEmpty hempty with h | h <;> simp [h]
      cases pass.start <;> simp [hempty, hcode, hremark, Program.codeHeight, Placement.height]
    by_cases hcode : site.statement.hidesCode = true
    · simp [hempty, hcode]
    · have hheight : p.codeHeight site.statement = 0 := by simp [Program.codeHeight, hcode]
      simp only [hempty, hcode, hheight, List.any_nil, Bool.or_false, Bool.false_or,
        Bool.not_false, Bool.and_true]
      split_ifs <;> simp_all
  | cons s init ih =>
    obtain ⟨site, sites, rfl, rfl, hrest⟩ : ∃ site sites', sites = site :: sites' ∧
        site.statement = s ∧ sites'.map Site.statement = init ++ [last] := by
      simpa [List.map_eq_cons_iff] using hsites
    rw [List.forall_mem_cons] at hinit
    have hremark : site.statement.isLedBy .remark = false :=
      Statement.isLedBy_eq_false_iff.2 hinit.1
    have hcode : site.statement.hidesCode = false := by simp [Statement.hidesCode, hremark]
    have hjoins : pass.joins settings site.statement = false := by
      simp [LinePass.joins, Statement.isJoinable, hremark]
    have hnext := (pass.step_step settings p site).start_eq
    have hheights := ih (pass.step settings p site) hrest hinit.2
      fun _ => hopens (Or.inr (by simp))
    rw [hnext] at hheights
    rw [placementsOfLine, List.map_append, total_append, height_placement?]
    by_cases hempty : site.statement.isEmpty = true
    · simpa [hempty] using hheights
    · simp [hempty, hjoins, Program.codeHeight, hcode] at hheights ⊢
      omega

/-! ## The rows of a line -/

namespace Program

theorem length_write? (hwidth : settings.printWidth = 0) {placement : Placement}
    {rows rows' : List Text} (hstarts : rows ≠ [] ∨ placement.startsRow = true)
    (h : p.write? settings .standard rows placement = some rows') :
    rows'.length = placement.height p + rows.length := by
  cases placement with
  | bare start => obtain rfl := Option.some.inj h; simp [Placement.height, Nat.add_comm]
  | code start s =>
    obtain rfl := Option.some.inj h
    have hlength : (p.codeRows .standard start s).length = (Placement.code start s).height p := by
      simp [codeRows, codeOf, Disassembler.standard, Placement.height, Nat.add_comm]
    rw [List.reverseAux_eq, List.length_append, List.length_reverse, hlength]
  | joined s =>
    have hrows : rows ≠ [] := hstarts.resolve_right (by simp [Placement.startsRow])
    obtain ⟨row, above, rfl⟩ := List.exists_cons_of_ne_nil hrows
    obtain rfl := Option.some.inj h
    simp [Placement.height]
  | row start indent column s =>
    have hunbroken : ∀ row, wrapRow? settings.printWidth row = some [row] := by
      simp [hwidth, wrapRow?, needsWrap]
    simp only [write?, hunbroken, Option.map_some] at h
    split_ifs at h <;> (obtain rfl := Option.some.inj h; simp [Placement.height, Nat.add_comm])

theorem length_foldlM_write? (hwidth : settings.printWidth = 0) {places : List Placement}
    {rows rows' : List Text} (hrows : rows ≠ [])
    (h : places.foldlM (p.write? settings .standard) rows = some rows') :
    rows'.length = total (places.map (Placement.height p)) + rows.length := by
  induction places generalizing rows with
  | nil =>
    obtain rfl : rows = rows' := by simpa using h
    simp
  | cons placement places ih =>
    rw [List.foldlM_cons] at h
    obtain ⟨written, hwrite, h⟩ := Option.bind_eq_some_iff.1 h
    rw [ih (write?_ne_nil hwrite) h, length_write? hwidth (Or.inl hrows) hwrite, List.map_cons,
      total_cons]
    omega

/-- Places that begin with a row of their own are written to as many rows as they take. -/
theorem length_rowsOf? (hwidth : settings.printWidth = 0) {placement : Placement}
    (hstarts : placement.startsRow = true) {places : List Placement} {rows : List Text}
    (h : p.rowsOf? settings .standard (placement :: places) = some rows) :
    rows.length = total ((placement :: places).map (Placement.height p)) := by
  obtain ⟨written, hwritten, rfl⟩ := Option.map_eq_some_iff.1 h
  rw [List.foldlM_cons] at hwritten
  obtain ⟨first, hfirst, hwritten⟩ := Option.bind_eq_some_iff.1 hwritten
  rw [List.length_reverse, length_foldlM_write? hwidth (write?_ne_nil hfirst) hwritten,
    length_write? hwidth (Or.inr hstarts) hfirst, List.map_cons, total_cons, List.length_nil]
  omega

end Program

/-- Places that show the given start first.  A row for the start alone is the only one. -/
inductive OpensWith (start : Text) : List Placement → Prop
  | bare : OpensWith start [.bare start]
  | code (s : Statement) (places : List Placement) : OpensWith start (.code start s :: places)
  | row (indent column : Nat) (s : Statement) (places : List Placement) :
      OpensWith start (.row start indent column s :: places)

theorem OpensWith.startsRow {start : Text} {places : List Placement}
    (h : OpensWith start places) :
    ∃ placement rest, places = placement :: rest ∧ placement.startsRow = true := by
  cases h <;> exact ⟨_, _, rfl, rfl⟩

/-- The start of a line goes to the first of its places. -/
theorem opensWith_placementsOfLine {start : Text} (sites : List Site) {pass : LinePass}
    (hstart : pass.start = some start) :
    OpensWith start (placementsOfLine settings p pass sites) := by
  induction sites generalizing pass with
  | nil =>
    rw [placementsOfLine, hstart]
    exact .bare
  | cons site sites ih =>
    have hjoins : pass.joins settings site.statement = false := by simp [LinePass.joins, hstart]
    rw [placementsOfLine, LinePass.placement?, hstart, hjoins]
    by_cases hempty : site.statement.isEmpty = true
    · -- The statement is not shown, and the start is left for the next one.
      rw [if_pos hempty]
      refine ih ?_
      rw [(pass.step_step settings p site).start_eq, if_pos hempty, hstart]
    rw [if_neg hempty]
    by_cases hcode : site.statement.hidesCode = true
    · rw [if_pos hcode]
      exact .code _ _
    · rw [if_neg hcode]
      exact .row _ _ _ _

/-- **The first row of a line begins with the start of the line**, up to spaces at the end of a
    row that shows nothing else. -/
theorem OpensWith.begins (hwidth : settings.printWidth = 0) {start : Text}
    (hstart : start.Printable) {places : List Placement} (hplaces : OpensWith start places)
    {rows : List Text} (h : p.rowsOf? settings .standard places = some rows) :
    ∃ first rest n, rows = first :: rest ∧ start <+: first ++ Text.spaces n := by
  cases hplaces with
  | bare =>
    obtain rfl : [start.trimEnd] = rows := Option.some.inj h
    obtain ⟨n, hn⟩ := Text.exists_trimEnd_append hstart
    exact ⟨start.trimEnd, [], n, rfl, hn ▸ List.prefix_rfl⟩
  | code s places =>
    have hwrite : p.write? settings .standard [] (.code start s) =
        some (p.codeRows .standard start s).reverse := by
      rw [Program.write?, List.reverseAux_eq, List.append_nil]
    obtain ⟨more, below, rfl⟩ := Program.first_of_rowsOf? hwrite h
    exact ⟨_, below, 0, rfl, by simp⟩
  | row indent column s places =>
    have hwrite : p.write? settings .standard [] (.row start indent column s) =
        some [p.rowText settings start indent column s].reverse := by
      simp [Program.write?, wrapRow?, needsWrap, hwidth]
    obtain ⟨more, below, rfl⟩ := Program.first_of_rowsOf? hwrite h
    exact ⟨_, below, 0, rfl, by simp [Program.rowText, Text.padTo]⟩

/-- What a line takes, told by its last statement and those before it. -/
theorem Program.rowCount_eq {line : Line} {init : List Statement} {last : Statement}
    (hline : line.statements = init ++ [last]) :
    p.rowCount settings line = max 1 ((init ++ [last]).countP (!·.isEmpty)) -
      (if !settings.splitComments && last.isLedBy .remark && !last.hidesCode &&
        init.any (!·.isEmpty) then 1 else 0) + p.codeHeight last := by
  cases hremark : last.isLedBy .remark with
  | true => simp [rowCount, Line.sharesRow, Line.remark?, hline, Option.filter_some, hremark]
  | false =>
    have hcode : last.hidesCode = false := by simp [Statement.hidesCode, hremark]
    simp [rowCount, Line.sharesRow, Line.remark?, hline, Option.filter_some, hremark, codeHeight,
      hcode]

/-- The places of a line take the rows that the line has. -/
theorem height_line {line : Line} (hopens : OpensFirst line.statements)
    (hremark : ∃ init last, line.statements = init ++ [last] ∧ ∀ s ∈ init, s.head ≠ .remark)
    {sites : List Site} (hsites : sites.map Site.statement = line.statements) (before : Pass)
    (start : Text) :
    total ((placementsOfLine settings p (.begin before start) sites).map (Placement.height p)) =
      p.rowCount settings line := by
  obtain ⟨init, last, hline, hinit⟩ := hremark
  have hlast : init ≠ [] → last.opensLine = false := by
    intro hne
    obtain ⟨first, rest, rfl⟩ := List.exists_cons_of_ne_nil hne
    rw [hline] at hopens
    exact hopens.2 last (by simp)
  have hheight := height_placementsOfLine settings p (.begin before start) (hsites.trans hline)
    hinit fun h => hlast (h.resolve_left (by simp [LinePass.begin]))
  have hstart : (LinePass.begin before start).start = some start := rfl
  rw [Program.rowCount_eq hline]
  simp only [hstart, Option.isNone_some, Option.isSome_some, Bool.false_or, Bool.true_and,
    beq_iff_eq] at hheight
  generalize (init ++ [last]).countP (!·.isEmpty) = shown at hheight ⊢
  split_ifs at hheight ⊢ <;> omega

end

/-! ## The rows of a listing -/

/-- **A listing consists of the rows of its lines.**  Each line has as many rows as its statements
    tell, and the first of them begins with the start of the line, up to spaces at its end. -/
theorem Printer.rows_by_line (settings : Settings) (hheader : settings.showHeader = false)
    (hwidth : settings.printWidth = 0) (name : Text) (image : Image) :
    let printer : Printer := { settings }
    let p := printer.program image
    p.lines ≠ [] →
    ∃ text groups, printer.listing? name image = some text ∧ text.splitOn '\n' = groups.flatten ∧
      List.Forall₂ (fun line rows => rows.length = p.rowCount settings line ∧
        ∃ first rest n, rows = first :: rest ∧
          rowStart settings p.targets line <+: first ++ Text.spaces n) p.lines groups := by
  intro printer p hlines
  obtain ⟨rows, hrows, hprintable⟩ : ∃ rows, p.rows? settings .standard = some rows ∧
      ∀ row ∈ rows, row.Printable :=
    exists_rows? rfl fun s _ _ => p.hasPrintableCode_standard s
  -- Each line has places that begin with its start, and that take as many rows as it has.
  have hplaces : ∀ group ∈ placementsFrom settings p {} (lineSites p.lines),
      OpensWith (rowStart settings p.targets group.1) group.2 ∧
      total (group.2.map (Placement.height p)) = p.rowCount settings group.1 := by
    intro group hgroup
    obtain ⟨before, sites, hmem, hgroup⟩ := mem_placementsFrom hgroup
    obtain ⟨hline, hsites⟩ := mem_lineSites hmem
    rw [hgroup]
    exact ⟨opensWith_placementsOfLine sites rfl,
      height_line ((scanLines_decodes image 0 0).standsIn _ hline).opens
        (Program.remark_ofImage _ _ image _ hline) hsites before _⟩
  obtain ⟨written, rfl, hwritten⟩ : ∃ written, rows = written.flatten ∧
      List.Forall₂ (fun group rows => p.rowsOf? settings .standard group = some rows)
        ((placementsFrom settings p {} (lineSites p.lines)).map Prod.snd) written := by
    refine Program.rowsOf?_groups ?_ ?_
    · intro places hmem
      obtain ⟨group, hgroup, rfl⟩ := List.mem_map.1 hmem
      exact (hplaces group hgroup).1.startsRow
    · rw [← List.flatMap_def, ← layout_eq_flatMap]
      exact hrows
  have hgroups : List.Forall₂ (fun line rows => rows.length = p.rowCount settings line ∧
      ∃ first rest n, rows = first :: rest ∧
        rowStart settings p.targets line <+: first ++ Text.spaces n) p.lines written := by
    rw [← map_fst_placementsFrom settings p {} p.lines, List.forall₂_map_left_iff]
    rw [List.forall₂_map_left_iff] at hwritten
    refine ((List.forall₂_and_left _ _).2 ⟨hplaces, hwritten⟩).imp ?_
    rintro group rows ⟨⟨hopens, hheight⟩, hrows⟩
    refine ⟨?_, hopens.begins hwidth (printable_rowStart _ _ _) hrows⟩
    obtain ⟨placement, places, hgroup, hstarts⟩ := hopens.startsRow
    rw [hgroup] at hrows hheight
    rw [Program.length_rowsOf? hwidth hstarts hrows, hheight]
  have hne : written.flatten ≠ [] := by
    obtain ⟨line, lines, hcons⟩ := List.exists_cons_of_ne_nil hlines
    rw [hcons] at hgroups
    cases hgroups with
    | cons hline _ =>
      obtain ⟨-, first, rest, -, rfl, -⟩ := hline
      simp
  refine ⟨Text.ofRows written.flatten, written, ?_, splitOn_ofRows hprintable hne, hgroups⟩
  change (p.rows? settings .standard).map _ = _
  rw [hrows, header, if_neg (by simp [printer, hheader])]
  rfl

/-- A line with a remark behind an assignment, one of separators only, one that hides code, and
    one with control characters in a string. -/
def fourKindsOfLines : Image :=
  [0x0C, 0x08, 10, 0, 0x41, 0xD0, 0x31, 0x3A, 0xB2, 0x58, 0,
   0x14, 0x08, 20, 0, 0x3A, 0x3A, 0x3A, 0,
   0x1C, 0x08, 30, 0, 0xB2, 0xEA, 0x60, 0,
   0x27, 0x08, 40, 0, 0xBA, 0x22, 0x41, 0x0A, 0x0D, 0x22, 0, 0, 0]

theorem Printer.rows_by_line_fourKindsOfLines :
    let settings : Settings := { showHeader := false, printWidth := 0 }
    let printer : Printer := { settings }
    let p := printer.program fourKindsOfLines
    p.lines.map (p.rowCount settings) = [1, 1, 3, 1] ∧
    ∃ text groups, printer.listing? [] fourKindsOfLines = some text ∧
      text.splitOn '\n' = groups.flatten ∧
      List.Forall₂ (fun line rows => rows.length = p.rowCount settings line ∧
        ∃ first rest n, rows = first :: rest ∧
          rowStart settings p.targets line <+: first ++ Text.spaces n) p.lines groups :=
  ⟨by decide +kernel, rows_by_line _ rfl rfl [] fourKindsOfLines (by decide +kernel)⟩

end BasicListing
