/-
  How hidden code is laid out.

  * `Program.codeHeading`, `Program.shownCode`: the row that announces hidden
    code, and what is shown below it.
  * `layout_of_hiddenCode`: a remark that hides code ends the places of its
    line, so that a place with a row of its own follows.
  * `rows_of_hiddenCode`: its rows are not changed by anything that follows.
  * `Printer.hiddenCode_below_heading`: the code is indented by two columns more
    than the start of its heading, which is the start of the line if nothing
    before the remark is shown, and empty otherwise.
-/
import BasicListing.Proofs.HiddenCode
import BasicListing.Proofs.RowsByLine
import BasicListing.Proofs.TextColumns

namespace BasicListing

/-! ## Rows of hidden code -/

namespace Program

/-- The row that announces the code that a remark hides. -/
def codeHeading (p : Program) (s : Statement) : Text :=
  "REM - Inline assembler @ $".toList ++ hexWord (p.codeAddress s) ++ " (".toList ++
    decimal (p.codeAddress s).toNat ++ ")".toList

/-- What is shown of the code that a remark hides: its rows, or one that says that there are
    none. -/
def shownCode (p : Program) (disassembler : Disassembler) (s : Statement) : List Text :=
  match p.codeOf disassembler s with
  | .ok rows => rows
  | .error _ => ["<machine code could not be disassembled>".toList]

theorem codeRows_eq (p : Program) (disassembler : Disassembler) (start : Text) (s : Statement) :
    p.codeRows disassembler start s = (start ++ p.codeHeading s) ::
      (p.shownCode disassembler s).map (Text.spaces (start.width + 2) ++ ·) := by
  have hassoc : ∀ a b c d e : Text,
      start ++ a ++ b ++ c ++ d ++ e = start ++ (a ++ b ++ c ++ d ++ e) := by
    intro a b c d e
    simp only [List.append_assoc]
  unfold codeRows codeHeading shownCode
  refine congrArg₂ List.cons (hassoc _ _ _ _ _) ?_
  cases p.codeOf disassembler s <;> rfl

end Program

/-! ## Places of hidden code -/

section
variable {settings : Settings} {p : Program} {v w : Visit}

/-- The pass only places hidden code. -/
theorem LinePass.Step.eq_of_hidesCode {pass next : LinePass} {site : Site}
    (h : Step settings p pass site next) (hcode : site.statement.hidesCode = true) :
    next = pass.place (.code · site.statement) := by
  cases h with
  | skip hempty => simp [Statement.hidesCode_of_isEmpty hempty] at hcode
  | code => rfl
  | join _ hhides => simp [hcode] at hhides
  | row _ hhides => simp [hcode] at hhides

/-- The places of some lines begin with a row of their own. -/
theorem startsRow_placementsFrom (settings : Settings) (p : Program) (pass : Pass)
    (lines : List (Line × List Site)) :
    (placementsFrom settings p pass lines).flatMap Prod.snd = [] ∨
      ∃ placement places,
        (placementsFrom settings p pass lines).flatMap Prod.snd = placement :: places ∧
          placement.startsRow = true := by
  cases lines with
  | nil => exact Or.inl rfl
  | cons line lines =>
    have hopens : OpensWith (rowStart settings p.targets line.1) (placementsOfLine settings p
        (.begin pass (rowStart settings p.targets line.1)) line.2) :=
      opensWith_placementsOfLine line.2 rfl
    obtain ⟨placement, rest, hplaces, hstarts⟩ := hopens.startsRow
    refine Or.inr ⟨placement, rest ++ (placementsFrom settings p
      (pass.placeLine settings p p.targets line) lines).flatMap Prod.snd, ?_, hstarts⟩
    rw [placementsFrom, List.flatMap_cons, hplaces, List.cons_append]

/-- The place of a remark that hides code is the last of its line. -/
theorem layout_of_hiddenCode (hv : v ∈ p.visits settings)
    (hcode : v.site.statement.hidesCode = true) (hafter : v.site.after = []) :
    ∃ lines, p.layout settings = v.pass.placed.reverse ++
      .code (v.pass.start.getD []) v.site.statement ::
        (placementsFrom settings p (v.pass.step settings p v.site).finish lines).flatMap
          Prod.snd := by
  obtain ⟨before, line, after, hlines, hv⟩ := mem_visitsFrom hv
  obtain ⟨-, front, back, hsites, hpass⟩ := mem_visitsOfLine hv
  have hmem : line ∈ lineSites p.lines := hlines ▸ List.mem_append_right before List.mem_cons_self
  have hlast : back = [] := by
    obtain ⟨later, hlater⟩ := eq_sitesFrom_of_mem hmem
    have hfront := sitesFrom_eq_append (hlater.symm.trans hsites)
    have hstatements := (mem_lineSites hmem).2
    rw [hfront, hsites, List.map_append, List.map_cons, List.append_cancel_left_eq,
      List.cons.injEq, hafter, List.map_eq_nil_iff] at hstatements
    exact hstatements.2
  have hline : (before.foldl (Pass.placeLine settings p p.targets) {}).placeLine settings p
      p.targets line = (v.pass.step settings p v.site).finish := by
    rw [Pass.placeLine, hsites, hlast, List.foldl_append, ← hpass]
    rfl
  have hplaced : (v.pass.step settings p v.site).finish.placed =
      .code (v.pass.start.getD []) v.site.statement :: v.pass.placed := by
    rw [(v.pass.step_step settings p v.site).eq_of_hidesCode hcode]
    rfl
  refine ⟨after, ?_⟩
  rw [Program.layout, Program.pass, hlines, List.foldl_append, List.foldl_cons, hline,
    placed_placeLines, List.reverse_append, List.reverse_reverse, hplaced, List.reverse_cons,
    List.append_assoc, List.singleton_append]

/-- **The rows of hidden code are not changed by what follows.** -/
theorem rows_of_hiddenCode {disassembler : Disassembler} {rows : List Text}
    (hrows : p.rows? settings disassembler = some rows) (hv : v ∈ p.visits settings)
    (hcode : v.site.statement.hidesCode = true) (hafter : v.site.after = []) :
    ∃ above below, p.rowsOf? settings disassembler v.pass.placed.reverse = some above ∧
      rows = above ++ p.codeRows disassembler (v.pass.start.getD []) v.site.statement ++ below := by
  obtain ⟨lines, hlayout⟩ := layout_of_hiddenCode hv hcode hafter
  set place := Placement.code (v.pass.start.getD []) v.site.statement with hplace
  have hwritten : p.rowsOf? settings disassembler [place] =
      some (p.codeRows disassembler (v.pass.start.getD []) v.site.statement) := by
    simp [Program.rowsOf?, Program.write?, hplace, List.reverseAux_eq]
  change p.rowsOf? settings disassembler (p.layout settings) = some rows at hrows
  rw [hlayout, Program.rowsOf?_append rfl] at hrows
  obtain ⟨above, habove, hrows⟩ := Option.bind_eq_some_iff.1 hrows
  obtain ⟨rest, hrest, rfl⟩ := Option.map_eq_some_iff.1 hrows
  rcases startsRow_placementsFrom settings p _ lines with
    hnone | ⟨placement, places, hmore, hstarts⟩
  · rw [hnone, hwritten, Option.some.injEq] at hrest
    exact ⟨above, [], habove, by rw [hrest, List.append_nil]⟩
  · rw [hmore, ← List.singleton_append, Program.rowsOf?_append hstarts, hwritten,
      Option.bind_some] at hrest
    obtain ⟨below, -, rfl⟩ := Option.map_eq_some_iff.1 hrest
    exact ⟨above, below, habove, by rw [List.append_assoc]⟩

/-- Behind hidden code the pass goes on with the next line. -/
theorem Visit.Next.behind_hiddenCode (h : Visit.Next settings p v w)
    (hcode : v.site.statement.hidesCode = true) (hafter : v.site.after = []) :
    v.site.later.head? = some w.line ∧
      w.pass = .begin (v.pass.step settings p v.site).finish
        (rowStart settings p.targets w.line) := by
  cases h with
  | inLine => exact absurd hafter (List.cons_ne_nil _ _)
  | newLine line line' later conditional s s' after pass next hs hstep =>
    have hnext : next = pass.step settings p ⟨s, conditional, [], line' :: later⟩ :=
      (hstep.eq_of_hidesCode hcode).trans
        ((pass.step_step settings p _).eq_of_hidesCode hcode).symm
    exact ⟨rfl, by rw [hnext]⟩

end

/-! ## The listing -/

/-- **Hidden code is shown below its heading**, each of its rows in a row of the listing, and two
    columns to the right of what the heading begins with.

    The heading begins with the start of the line if nothing before the remark is shown.  Behind
    another statement it begins the row, so that the code is indented by two columns only.  The
    pass goes on with the next line, and with the same open loops. -/
theorem Printer.hiddenCode_below_heading (settings : Settings) (disassembler : Disassembler)
    (hrows : ∀ address bytes code, disassembler address bytes = .ok code →
      ∀ row ∈ code, '\n' ∉ row) (name : Text) (image : Image) :
    let printer : Printer := { settings, disassembler }
    let p := printer.program image
    ∃ rows, printer.listing? name image = some (Text.ofRows (printer.header name image ++ rows)) ∧
      (∀ row ∈ rows, '\n' ∉ row) ∧
      ∀ (k : Nat) (v : Visit), (p.visits settings)[k]? = some v →
        v.site.statement.hidesCode = true →
        let start := if v.before.all Statement.isEmpty then rowStart settings p.targets v.line
          else []
        let next := (v.pass.step settings p v.site).finish
        (∃ above below, p.rowsOf? settings disassembler v.pass.placed.reverse = some above ∧
          rows = above ++ (start ++ p.codeHeading v.site.statement) ::
            (p.shownCode disassembler v.site.statement).map
              (Text.spaces (start.width + 2) ++ ·) ++ below) ∧
        v.site.after = [] ∧ next.loops = v.pass.loops ∧
        (∀ w, (p.visits settings)[k + 1]? = some w → v.site.later.head? = some w.line ∧
          w.pass = .begin next (rowStart settings p.targets w.line)) ∧
        ((p.visits settings)[k + 1]? = none → p.pass settings = next) := by
  intro printer p
  have hlines : ∀ line ∈ p.lines, line.statements ≠ [] := fun line h =>
    ((scanLines_decodes image 0 0).standsIn line h).statements_ne_nil
  obtain ⟨rows, hwritten⟩ := exists_rows?_of_ascii (p := p) Keywords.ascii_standard settings
    disassembler
  have hcode : ∀ s, p.HasCodeOf (· ≠ '\n') disassembler s := by
    rintro s code hcode row hrow c hc rfl
    exact hrows _ _ code hcode row hrow hc
  have hfeed : ∀ row ∈ rows, ∀ c ∈ row, c ≠ '\n' := by
    refine forall_rows? ?_ rfl (fun s _ _ => hcode s) hwritten
    rintro c hc rfl
    exact absurd hc.1 (by decide)
  refine ⟨rows, by rw [listing?, hwritten]; rfl, fun row hrow h => hfeed row hrow _ h rfl, ?_⟩
  intro k v hv hhides start next
  have hmem := List.mem_of_getElem? hv
  have hafter : v.site.after = [] := after_eq_nil_of_remark
    (Program.remark_ofImage _ _ image) hmem (Statement.head_of_hidesCode hhides)
  have hstart : v.pass.start.getD [] = start := by
    rw [start_of_visit hmem]
    split_ifs with hbefore
    · exact (if_pos hbefore).symm
    · exact (if_neg hbefore).symm
  have hloops : next.loops = v.pass.loops := by
    change (v.pass.step settings p v.site).loops = v.pass.loops
    rw [(v.pass.step_step settings p v.site).eq_of_hidesCode hhides]
    rfl
  refine ⟨?_, hafter, hloops, ?_, ?_⟩
  · obtain ⟨above, below, habove, heq⟩ := rows_of_hiddenCode hwritten hmem hhides hafter
    rw [hstart, Program.codeRows_eq] at heq
    exact ⟨above, below, habove, heq⟩
  · intro w hw
    exact (next_visit hlines hv hw).behind_hiddenCode hhides hafter
  · intro hnone
    refine pass_last_visit hlines ?_
    obtain ⟨hk, -⟩ := List.getElem?_eq_some_iff.1 hv
    have hlength : (p.visits settings).length = k + 1 := by
      have := List.getElem?_eq_none_iff.1 hnone
      omega
    rw [List.getLast?_eq_getElem?, hlength, Nat.add_sub_cancel, hv]

/-- A loop around a remark that hides code behind a separator. -/
def codeInLoop : Image :=
  [0x0C, 0x08, 10, 0, 0x81, 0x49, 0xD0, 0x31, 0xC1, 0x33, 0, 0x15, 0x08, 20, 0, 0x3A, 0xB2, 0xEA,
   0x60, 0, 0x1B, 0x08, 30, 0, 0x82, 0, 0, 0]

/-- A disassembler that fails leaves one row below the heading. -/
theorem Printer.hiddenCode_below_heading_codeInLoop :
    let disassembler : Disassembler := fun _ _ => .error .outOfRange
    let printer : Printer := { settings := { showHeader := false }, disassembler }
    let p := printer.program codeInLoop
    ∃ v w above below, (p.visits printer.settings)[2]? = some v ∧
      v.site.statement.hidesCode = true ∧ (p.visits printer.settings)[3]? = some w ∧
      printer.listing? [] codeInLoop = some (Text.ofRows
        (above ++ ("        20  ".toList ++ p.codeHeading v.site.statement) ::
          [Text.spaces 14 ++ "<machine code could not be disassembled>".toList] ++ below)) ∧
      v.pass.loops ≠ [] ∧ w.pass.loops = v.pass.loops := by
  intro disassembler printer p
  obtain ⟨v, hv, hstatement⟩ := exists_visit printer.settings
    (by decide +kernel : p.statements[2]? = some ⟨16, [0xB2, 0xEA, 0x60], .zero, false⟩)
  obtain ⟨w, hw, -⟩ := exists_visit printer.settings
    (by decide +kernel : p.statements[3]? = some ⟨24, [0x82], .zero, true⟩)
  have hvisit : ∀ v ∈ (p.visits printer.settings)[2]?, v.site.statement.hidesCode = true ∧
      v.before.all Statement.isEmpty = true ∧
      rowStart printer.settings p.targets v.line = "        20  ".toList ∧ v.pass.loops ≠ [] := by
    decide +kernel
  obtain ⟨hcode, hbefore, hstart, hloops⟩ := hvisit v hv
  obtain ⟨rows, hlisting, -, hvisits⟩ := hiddenCode_below_heading printer.settings disassembler
    (fun _ _ _ hcode => nomatch hcode) [] codeInLoop
  obtain ⟨⟨above, below, -, hrows⟩, -, hsame, hnext, -⟩ := hvisits 2 v hv hcode
  have hwidth : Text.width "        20  ".toList + 2 = 14 := by decide
  rw [if_pos hbefore, hstart, hwidth] at hrows
  refine ⟨v, w, above, below, hv, hcode, hw, ?_, hloops, ?_⟩
  · rw [hlisting, hrows]
    rfl
  · rw [(hnext w hw).2]
    exact hsame

/-- A remark that hides code behind a statement that is shown. -/
def codeBehindHome : Image :=
  [0x0B, 0x08, 10, 0, 0x97, 0x3A, 0xB2, 0xEA, 0x60, 0, 0, 0]

/-- The rows of the code stand twelve columns to the left of where the line has them. -/
theorem Printer.hiddenCode_moved_codeBehindHome :
    let printer : Printer := { settings := { showHeader := false } }
    let p := printer.program codeBehindHome
    ∃ text v, printer.listing? [] codeBehindHome = some text ∧
      text = ("        10  HOME\nREM - Inline assembler @ $0808 (2056)\n" ++
        "  0808: EA        NOP\n  0809: 60        RTS").toList ∧
      (p.visits printer.settings)[1]? = some v ∧ v.site.statement.hidesCode = true ∧
      (rowStart printer.settings p.targets v.line).width = 12 ∧
      ∀ row ∈ p.shownCode .standard v.site.statement,
        Text.spaces (12 + 2) ++ row ∉ text.splitOn '\n' := by
  intro printer p
  obtain ⟨v, hv, -⟩ := exists_visit printer.settings
    (by decide +kernel : p.statements[1]? = some ⟨6, [0xB2, 0xEA, 0x60], .zero, false⟩)
  have hvisit : ∀ v ∈ (p.visits printer.settings)[1]?, v.site.statement.hidesCode = true ∧
      (rowStart printer.settings p.targets v.line).width = 12 ∧
      ∀ row ∈ p.shownCode .standard v.site.statement, Text.spaces (12 + 2) ++ row ∉
        (("        10  HOME\nREM - Inline assembler @ $0808 (2056)\n" ++
          "  0808: EA        NOP\n  0809: 60        RTS").toList : Text).splitOn '\n' := by
    decide +kernel
  obtain ⟨hcode, hwidth, hrows⟩ := hvisit v hv
  exact ⟨_, v, by decide +kernel, rfl, hv, hcode, hwidth, hrows⟩

end BasicListing
