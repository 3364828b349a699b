/-
  A listing keeps the content of its program.

  * `Text.ink`: what a text shows besides spaces and line feeds.
  * `Program.content`: what a program has to show: line numbers, texts of
    statements, and the code that remarks hide.
  * `Program.ink_write?`, `LinePass.Step.ink_eq`: writing a place adds the ink
    of what stands there, and a step adds the ink of its statement.  A start
    of a row that has not been placed yet is never dropped.
  * `Printer.ink_listing`: the ink of a listing is that of the content.
-/
import BasicListing.Proofs.Writing
import Mathlib.Data.List.TakeWhile

namespace BasicListing

/-! ## Ink -/

namespace Text

/-- What a text shows: its characters without spaces and line feeds. -/
def ink (t : Text) : Text := t.filter fun c => c != ' ' && c != '\n'

@[simp] theorem ink_nil : ink [] = [] := rfl

@[simp] theorem ink_append (t u : Text) : ink (t ++ u) = ink t ++ ink u := by
  simp [ink]

@[simp] theorem ink_cons_space (t : Text) : ink (' ' :: t) = ink t := by
  simp [ink]

@[simp] theorem ink_spaces (n : Nat) : ink (spaces n) = [] := by
  simp [ink, spaces]

@[simp] theorem ink_padTo (column : Nat) (t : Text) : ink (padTo column t) = ink t := by
  simp [padTo]

@[simp] theorem ink_padLeft (columns : Nat) (t : Text) : ink (padLeft columns t) = ink t := by
  simp [padLeft]

theorem ink_flatten (ts : List Text) : ink ts.flatten = ts.flatMap ink := by
  induction ts with
  | nil => rfl
  | cons t ts ih => rw [List.flatten_cons, ink_append, ih, List.flatMap_cons]

theorem ink_ofRows (rows : List Text) : ink (ofRows rows) = rows.flatMap ink := by
  unfold ofRows
  induction rows with
  | nil => rfl
  | cons row rows ih =>
    cases rows with
    | nil => simp
    | cons row' rows =>
      rw [List.intercalate_cons_cons, ink_append, ink_append, ih, List.flatMap_cons]
      simp [ink]

/-- Only spaces are blank among printable characters. -/
theorem eq_space_of_isBlank {c : Char} (hblank : isBlank c = true)
    (hc : 32 ≤ c.toNat ∧ c.toNat ≤ 127) : c = ' ' := by
  have hnat : c.toNat = ' '.toNat := by
    simp only [isBlank, blankRanges, List.any_cons, List.any_nil, Bool.or_eq_true,
      Bool.and_eq_true, decide_eq_true_eq, Bool.false_eq_true, or_false] at hblank
    change c.toNat = 32
    omega
  exact Char.toNat_inj.1 hnat

/-- Trimming takes spaces from the end of a printable text, and nothing else. -/
theorem exists_trimEnd_append {t : Text} (h : t.Printable) : ∃ n, t = t.trimEnd ++ spaces n := by
  have hblank : ∀ c ∈ (t.reverse.takeWhile isBlank).reverse, c = ' ' := by
    intro c hc
    rw [List.mem_reverse] at hc
    have hmem : c ∈ t := List.mem_reverse.1 ((List.takeWhile_sublist _).subset hc)
    exact eq_space_of_isBlank (List.mem_takeWhile_imp hc) (h c hmem)
  refine ⟨(t.reverse.takeWhile isBlank).reverse.length, ?_⟩
  rw [trimEnd, spaces, ← List.eq_replicate_of_mem hblank, ← List.reverse_append,
    List.takeWhile_append_dropWhile, List.reverse_reverse]

theorem ink_trimEnd {t : Text} (h : t.Printable) : t.trimEnd.ink = t.ink := by
  obtain ⟨n, hn⟩ := exists_trimEnd_append h
  conv_rhs => rw [hn]
  rw [ink_append, ink_spaces, List.append_nil]

theorem ink_eq_filter {t : Text} (h : t.Printable) : t.ink = t.filter (· != ' ') := by
  refine List.filter_congr fun c hc => ?_
  have hne : c ≠ '\n' := fun heq => h.newline_notMem (heq ▸ hc)
  simp [hne]

end Text

/-! ## Content -/

namespace Program

/-- What a remark that hides code shows: where the code stands, and the rows of the code. -/
def codeText (p : Program) (s : Statement) : Text :=
  let address := p.codeAddress s
  "REM - Inline assembler @ $".toList ++ hexWord address ++ " (".toList ++
    decimal address.toNat ++ ")".toList ++ (sweep address s.operand).flatMap CodeRow.text

/-- What a statement has to show. -/
def shownText (p : Program) (s : Statement) : Text :=
  if s.hidesCode then p.codeText s else p.text s

/-- What a program has to show, without spaces: for each line its number and its statements. -/
def content (p : Program) : Text :=
  p.lines.flatMap fun line => decimal line.number.toNat ++
    line.statements.flatMap fun s => (p.shownText s).filter (· != ' ')

theorem printable_codeText (p : Program) (s : Statement) : (p.codeText s).Printable := by
  have hrows : Text.Printable ((sweep (p.codeAddress s) s.operand).flatMap CodeRow.text) :=
    Text.printable_flatMap fun row _ => row.printable_text
  unfold codeText
  simp only [Text.printable_append]
  exact ⟨⟨⟨⟨⟨by decide, printable_hexWord _⟩, by decide⟩, printable_decimal _⟩, by decide⟩, hrows⟩

theorem printable_shownText {p : Program} (hkeywords : p.keywords = .standard) (s : Statement) :
    (p.shownText s).Printable := by
  unfold shownText
  split_ifs
  · exact p.printable_codeText s
  · exact p.printable_text hkeywords s

/-- The ink of what stands at a place. -/
def placedInk (p : Program) : Placement → Text
  | .bare start => start.ink
  | .code start s => start.ink ++ (p.codeText s).ink
  | .joined s => (p.text s).ink
  | .row start _ _ s => start.ink ++ (p.text s).ink

variable {p : Program} {settings : Settings}

/-- Moving the `=` of an assignment adds spaces only. -/
theorem ink_textAt (p : Program) (s : Statement) (column : Nat) :
    (p.textAt s column).ink = (p.text s).ink := by
  unfold textAt Statement.textAt
  simp only
  split_ifs
  · rw [Text.ink_append, Text.ink_append, Text.ink_spaces, List.append_nil, ← Text.ink_append,
      List.takeWhile_append_dropWhile]
    rfl
  · rfl

theorem ink_rowText (htargets : settings.showBranchTargets = false) (start : Text)
    (indent column : Nat) (s : Statement) :
    (p.rowText settings start indent column s).ink = start.ink ++ (p.text s).ink := by
  have hmark : branchMark settings s = [] := by simp [branchMark, htargets]
  rw [rowText, Text.ink_append, Text.ink_padTo, ink_textAt, hmark, List.append_nil]

theorem ink_codeRows (p : Program) (start : Text) (s : Statement) :
    (p.codeRows .standard start s).flatMap Text.ink = start.ink ++ (p.codeText s).ink := by
  have hcode : p.codeOf .standard s = .ok ((sweep (p.codeAddress s) s.operand).map CodeRow.text) :=
    rfl
  have hrows : ∀ rows : List CodeRow,
      ((rows.map CodeRow.text).map (Text.spaces (start.width + 2) ++ ·)).flatMap Text.ink =
        Text.ink (rows.flatMap CodeRow.text) := by
    intro rows
    induction rows with
    | nil => rfl
    | cons row rows ih =>
      rw [List.map_cons, List.map_cons, List.flatMap_cons, ih, List.flatMap_cons, Text.ink_append,
        Text.ink_append, Text.ink_spaces, List.nil_append]
  rw [codeRows, hcode]
  simp only [List.flatMap_cons, hrows]
  unfold codeText
  simp only [Text.ink_append, List.append_assoc]

theorem ink_wrapRow? {width : Nat} {row : Text} {rows : List Text}
    (h : wrapRow? width row = some rows) : rows.flatMap Text.ink = row.ink := by
  obtain ⟨pieces, quote, rfl, rfl⟩ := exists_of_wrapRow? h
  have hindent : ∀ ts : List Text, (ts.map (Text.spaces quote ++ ·)).flatMap Text.ink =
      ts.flatMap Text.ink := by
    intro ts
    rw [List.flatMap_map]
    simp
  rw [List.flatMap_append, hindent, ← List.flatMap_append, List.take_append_drop,
    Text.ink_flatten]

/-- **Writing a place adds its ink** to that of the rows, which are given last first. -/
theorem ink_write? (htargets : settings.showBranchTargets = false) {placement : Placement}
    {P : Char → Prop} (hplacement : placement.Writable P p .standard) {rows rows' : List Text}
    (h : p.write? settings .standard rows placement = some rows') :
    rows'.reverse.flatMap Text.ink = rows.reverse.flatMap Text.ink ++ p.placedInk placement := by
  cases placement with
  | bare start =>
    obtain rfl := Option.some.inj h
    simp [placedInk, Text.ink_trimEnd hplacement]
  | code start s =>
    obtain rfl := Option.some.inj h
    rw [List.reverseAux_eq, List.reverse_append, List.reverse_reverse, List.flatMap_append,
      ink_codeRows, placedInk]
  | joined s =>
    cases rows with
    | nil =>
      obtain rfl := Option.some.inj h
      simp [placedInk]
    | cons row above =>
      obtain rfl := Option.some.inj h
      simp [placedInk]
  | row start indent column s =>
    unfold write? at h
    simp only at h
    split_ifs at h
    · obtain ⟨broken, hbroken, rfl⟩ := Option.map_eq_some_iff.1 h
      rw [List.reverseAux_eq, List.reverse_append, List.reverse_reverse, List.flatMap_append,
        ink_wrapRow? hbroken, ink_rowText htargets, placedInk]
    · obtain rfl := Option.some.inj h
      simp [placedInk, ink_rowText htargets]

theorem ink_foldlM_write? (htargets : settings.showBranchTargets = false)
    {layout : List Placement} {P : Char → Prop}
    (hlayout : ∀ placement ∈ layout, placement.Writable P p .standard) {rows rows' : List Text}
    (h : layout.foldlM (p.write? settings .standard) rows = some rows') :
    rows'.reverse.flatMap Text.ink =
      rows.reverse.flatMap Text.ink ++ layout.flatMap p.placedInk := by
  induction layout generalizing rows with
  | nil =>
    obtain rfl : rows = rows' := by simpa using h
    simp
  | cons placement layout ih =>
    rw [List.forall_mem_cons] at hlayout
    rw [List.foldlM_cons] at h
    obtain ⟨rows₁, h₁, h⟩ := Option.bind_eq_some_iff.1 h
    rw [ih hlayout.2 h, ink_write? htargets hlayout.1 h₁, List.flatMap_cons, List.append_assoc]

end Program

/-! ## The pass -/

/-- The ink of the places given so far. -/
def Pass.ink (p : Program) (pass : Pass) : Text := pass.placed.reverse.flatMap p.placedInk

namespace LinePass

variable {p : Program} {settings : Settings}

/-- The ink of the places given so far, and of a start that is still to be placed. -/
def ink (p : Program) (pass : LinePass) : Text := pass.toPass.ink p ++ Text.ink (pass.start.getD [])

theorem ink_begin (pass : Pass) (start : Text) :
    (begin pass start).ink p = pass.ink p ++ start.ink := rfl

theorem ink_place (pass : LinePass) (placement : Text → Placement) :
    (pass.place placement).ink p =
      pass.toPass.ink p ++ p.placedInk (placement (pass.start.getD [])) := by
  simp [ink, place, Pass.ink]

/-- The row of a line without anything to show keeps its start. -/
theorem ink_finish (pass : LinePass) : pass.finish.ink p = pass.ink p := by
  rw [Pass.ink, ink, finish]
  cases pass.start with
  | none => simp [Pass.ink]
  | some start => simp [Pass.ink, Program.placedInk]

/-- **A step adds the ink of its statement.** -/
theorem Step.ink_eq {pass next : LinePass} {site : Site} (h : Step settings p pass site next) :
    next.ink p = pass.ink p ++ (p.shownText site.statement).ink := by
  cases h with
  | skip hempty =>
    have hshown : p.shownText site.statement = [] := by
      rw [Program.shownText, if_neg (by simp [Statement.hidesCode_of_isEmpty hempty]),
        Program.text, Statement.text, List.isEmpty_iff.1 hempty]
      rfl
    rw [hshown, Text.ink_nil, List.append_nil]
    rfl
  | code _ hcode =>
    rw [ink_place, Program.shownText, if_pos hcode, ink, List.append_assoc]
    rfl
  | join _ hcode hjoins =>
    -- A remark joins a row only behind the first row of its line, so no start is dropped.
    have hstart : pass.start = none := by
      simp only [joins, Bool.and_eq_true] at hjoins
      exact Option.isNone_iff_eq_none.1 hjoins.2
    rw [ink_place, Program.shownText, if_neg (by simp [hcode]), ink, hstart]
    simp [Program.placedInk]
  | row _ hcode _ ready hready =>
    have hink : ready.toPass.ink p ++ Text.ink (ready.start.getD []) = pass.ink p := by
      subst hready
      simp [ink, Pass.ink]
    have hopen : ∀ next : LinePass, (next.openBlock site.statement).ink p = next.ink p := by
      intro next
      simp [ink, Pass.ink]
    rw [hopen, ink_place, Program.shownText, if_neg (by simp [hcode]), ← hink, List.append_assoc]
    rfl

theorem ink_foldl_step (sites : List Site) (pass : LinePass) :
    (sites.foldl (step settings p) pass).ink p =
      pass.ink p ++ (sites.map Site.statement).flatMap fun s => (p.shownText s).ink := by
  induction sites generalizing pass with
  | nil => simp
  | cons site sites ih =>
    rw [List.foldl_cons, ih, (pass.step_step settings p site).ink_eq, List.map_cons,
      List.flatMap_cons, List.append_assoc]

end LinePass

theorem ink_decimal (n : Nat) : (decimal n).ink = decimal n := by
  rw [Text.ink, List.filter_eq_self]
  intro c hc
  have hdigit := isDigit_of_mem_decimal hc
  have hspace : c ≠ ' ' := by rintro rfl; exact absurd hdigit (by decide)
  have hfeed : c ≠ '\n' := by rintro rfl; exact absurd hdigit (by decide)
  simp [hspace, hfeed]

section
variable {p : Program} {settings : Settings}

theorem ink_rowStart (htargets : settings.showBranchTargets = false) (targets : Targets)
    (line : Line) : (rowStart settings targets line).ink = decimal line.number.toNat := by
  simp [rowStart, gutter, numberText, htargets, ink_decimal]

theorem Pass.ink_placeLine (htargets : settings.showBranchTargets = false) (pass : Pass)
    (line : Line × List Site) :
    (pass.placeLine settings p p.targets line).ink p = pass.ink p ++
      (decimal line.1.number.toNat ++
        (line.2.map Site.statement).flatMap fun s => (p.shownText s).ink) := by
  rw [placeLine, LinePass.ink_finish, LinePass.ink_foldl_step, LinePass.ink_begin,
    ink_rowStart htargets, List.append_assoc]

theorem Pass.ink_placeLines (htargets : settings.showBranchTargets = false) (lines : List Line)
    (pass : Pass) :
    ((lineSites lines).foldl (placeLine settings p p.targets) pass).ink p = pass.ink p ++
      lines.flatMap fun line => decimal line.number.toNat ++
        line.statements.flatMap fun s => (p.shownText s).ink := by
  induction lines generalizing pass with
  | nil => simp [lineSites]
  | cons line lines ih =>
    rw [lineSites, List.foldl_cons, ih, ink_placeLine htargets, map_statement_sitesFrom,
      List.flatMap_cons, List.append_assoc]

theorem Program.ink_layout (htargets : settings.showBranchTargets = false)
    (hkeywords : p.keywords = .standard) :
    (p.layout settings).flatMap p.placedInk = p.content := by
  have hshown : ∀ s, (p.shownText s).ink = (p.shownText s).filter (· != ' ') := fun s =>
    Text.ink_eq_filter (printable_shownText hkeywords s)
  have hink := Pass.ink_placeLines (p := p) htargets p.lines {}
  simp only [hshown] at hink
  exact hink

theorem Program.ink_rows? (htargets : settings.showBranchTargets = false)
    (hkeywords : p.keywords = .standard) {rows : List Text}
    (h : p.rows? settings .standard = some rows) : rows.flatMap Text.ink = p.content := by
  obtain ⟨written, hwritten, rfl⟩ := Option.map_eq_some_iff.1 h
  have hlayout : ∀ placement ∈ p.layout settings, placement.Writable _ p .standard :=
    layout_writable fun s _ _ => p.hasPrintableCode_standard s
  rw [ink_foldlM_write? htargets hlayout hwritten, ink_layout htargets hkeywords]
  rfl

end

/-- **A listing keeps the content of its program**: without header and branch marks it shows,
    apart from spaces and line feeds, each line's number and its statements, in order. -/
theorem Printer.ink_listing (settings : Settings) (hheader : settings.showHeader = false)
    (htargets : settings.showBranchTargets = false) (name : Text) (image : Image) :
    let printer : Printer := { settings }
    ∃ text, printer.listing? name image = some text ∧
      text.ink = (printer.program image).content := by
  intro printer
  have hcode : ∀ s, (printer.program image).HasPrintableCode .standard s :=
    (printer.program image).hasPrintableCode_standard
  obtain ⟨rows, hrows, -⟩ : ∃ rows, (printer.program image).rows? settings .standard = some rows ∧
      ∀ row ∈ rows, row.Printable := exists_rows? rfl fun s _ _ => hcode s
  have hprinted : printer.listing? name image = some (Text.ofRows rows) := by
    rw [listing?, hrows, header, if_neg (by simp [printer, hheader])]
    rfl
  refine ⟨_, hprinted, ?_⟩
  rw [Text.ink_ofRows, Program.ink_rows? htargets rfl hrows]

/-- A remark in the row above it, a string that is broken, a line without anything to show, and
    hidden code. -/
def fourLines : Image :=
  [0x0D, 0x08, 10, 0, 0x41, 0xD0, 0x31, 0x3A, 0xB2, 0x48, 0x49, 0,
   0x19, 0x08, 20, 0, 0xBA, 0x22, 0x41, 0x20, 0x42, 0x43, 0x22, 0,
   0x1F, 0x08, 30, 0, 0x3A, 0,
   0x27, 0x08, 40, 0, 0xB2, 0xEA, 0x60, 0, 0, 0]

theorem Printer.ink_listing_fourLines :
    let printer : Printer :=
      { settings := { showHeader := false, showBranchTargets := false, printWidth := 2 } }
    ∃ text, printer.listing? [] fourLines = some text ∧ text.ink =
      "10A=1REMHI20PRINT\"ABC\"3040REM-Inlineassembler@$0824(2084)0824:EANOP0825:60RTS".toList := by
  intro printer
  have hcontent : (printer.program fourLines).content =
      "10A=1REMHI20PRINT\"ABC\"3040REM-Inlineassembler@$0824(2084)0824:EANOP0825:60RTS".toList := by
    decide +kernel
  rw [← hcontent]
  exact Printer.ink_listing _ rfl rfl [] fourLines

end BasicListing
