/-
  The pass over a program, step by step.

  * `LinePass.Step`: what the pass can do with a statement.  It skips it, shows
    the code it hides, joins it to the row above, or gives it a row.
  * `Visit`, `Program.visits`: the statements in the order in which the pass
    comes to them, each with the state in which it does.
  * `Visit.Next`: how one visit follows from the one before it, in the same
    line or at the start of the next.  The visits of a program form a chain of
    these (`visits_isChain`), so that what they keep holds of all visits.
  * `layout_forall`: what all places in a layout have in common.
-/
import BasicListing.Listing.Rows
import Mathlib.Data.List.Chain
import Mathlib.Tactic.Common

namespace BasicListing

/-! ## Heads -/

namespace Statement

theorem isLedBy_iff {s : Statement} {t : Token} : s.isLedBy t = true ↔ s.head = t := by
  simp [isLedBy]

theorem isLedBy_eq_false_iff {s : Statement} {t : Token} : s.isLedBy t = false ↔ s.head ≠ t := by
  simp [isLedBy]

theorem head_of_isEmpty {s : Statement} (h : s.isEmpty = true) :
    s.head = .plain Code.colon ∨ s.head = .plain Code.endOfLine := by
  rw [isEmpty, List.isEmpty_iff] at h
  rw [head, bytes, h, List.nil_append]
  cases s.ending
  · exact Or.inl (by decide)
  · exact Or.inr (by decide)
  · exact Or.inr (by decide)

theorem hidesCode_of_isEmpty {s : Statement} (h : s.isEmpty = true) : s.hidesCode = false := by
  rw [hidesCode, Bool.and_eq_false_iff, isLedBy_eq_false_iff]
  left
  rcases head_of_isEmpty h with h | h <;> rw [h] <;> decide

theorem isEmpty_of_hidesCode {s : Statement} (h : s.hidesCode = true) : s.isEmpty = false := by
  rw [← Bool.not_eq_true]
  intro hempty
  simp [hidesCode_of_isEmpty hempty] at h

theorem head_of_hidesCode {s : Statement} (h : s.hidesCode = true) : s.head = .remark :=
  isLedBy_iff.1 (Bool.and_eq_true_iff.1 h).1

theorem head_of_isJoinable {s : Statement} (h : s.isJoinable = true) : s.head = .remark :=
  isLedBy_iff.1 (Bool.and_eq_true_iff.1 h).1

theorem opensLine_of_isJoinable {s : Statement} (h : s.isJoinable = true) :
    s.opensLine = false := by
  simpa using (Bool.and_eq_true_iff.1 h).2

end Statement

/-! ## Steps -/

namespace LinePass

variable {settings : Settings} {p : Program}

/-- What the pass can do with the statement at a site. -/
inductive Step (settings : Settings) (p : Program) (pass : LinePass) (site : Site) :
    LinePass → Prop
  /-- An empty statement is not shown. -/
  | skip : site.statement.isEmpty = true →
      Step settings p pass site
        { pass with column := if settings.alignAssignments then 0 else pass.column }
  /-- The code that a remark hides is shown. -/
  | code : site.statement.isEmpty = false → site.statement.hidesCode = true →
      Step settings p pass site (pass.place (.code · site.statement))
  /-- A remark joins the row above. -/
  | join : site.statement.isEmpty = false → site.statement.hidesCode = false →
      pass.joins settings site.statement = true →
      Step settings p pass site (pass.place fun _ => .joined site.statement)
  /-- A statement gets a row. -/
  | row : site.statement.isEmpty = false → site.statement.hidesCode = false →
      pass.joins settings site.statement = false →
      ∀ ready, (pass.closeLoops site.statement).alignAt settings p site = ready →
      Step settings p pass site
        ((ready.place (.row · ready.indent ready.column site.statement)).openBlock
          site.statement)

section fields
variable (pass : LinePass) (s : Statement) (site : Site)

@[simp] theorem start_closeLoops : (pass.closeLoops s).start = pass.start := by
  unfold closeLoops; split <;> rfl

@[simp] theorem placed_closeLoops : (pass.closeLoops s).placed = pass.placed := by
  unfold closeLoops; split <;> rfl

@[simp] theorem column_closeLoops : (pass.closeLoops s).column = pass.column := by
  unfold closeLoops; split <;> rfl

@[simp] theorem floor_closeLoops : (pass.closeLoops s).floor = pass.floor := by
  unfold closeLoops; split <;> rfl

@[simp] theorem start_alignAt : (pass.alignAt settings p site).start = pass.start := by
  unfold alignAt; split <;> rfl

@[simp] theorem placed_alignAt : (pass.alignAt settings p site).placed = pass.placed := by
  unfold alignAt; split <;> rfl

@[simp] theorem loops_alignAt : (pass.alignAt settings p site).loops = pass.loops := by
  unfold alignAt; split <;> rfl

@[simp] theorem indent_alignAt : (pass.alignAt settings p site).indent = pass.indent := by
  unfold alignAt; split <;> rfl

@[simp] theorem floor_alignAt : (pass.alignAt settings p site).floor = pass.floor := by
  unfold alignAt; split <;> rfl

@[simp] theorem start_openBlock : (pass.openBlock s).start = pass.start := by
  unfold openBlock; split <;> rfl

@[simp] theorem placed_openBlock : (pass.openBlock s).placed = pass.placed := by
  unfold openBlock; split <;> rfl

@[simp] theorem column_openBlock : (pass.openBlock s).column = pass.column := by
  unfold openBlock; split <;> rfl

end fields

theorem closeLoops_of_head_ne {s : Statement} (h : s.head ≠ .nextLoop) (pass : LinePass) :
    pass.closeLoops s = pass := by
  simp [closeLoops, Statement.closedVariables?, h]

theorem openBlock_of_head_ne {s : Statement} (hif : s.head ≠ .ifCondition)
    (hfor : s.head ≠ .forLoop) (pass : LinePass) : pass.openBlock s = pass := by
  simp [openBlock, Statement.openedVariable?, hfor]

/-- **Each step is one of these.** -/
theorem step_step (settings : Settings) (p : Program) (pass : LinePass) (site : Site) :
    Step settings p pass site (pass.step settings p site) := by
  unfold step
  by_cases hempty : site.statement.isEmpty = true
  · rw [if_pos hempty]
    convert Step.skip hempty using 1
    split <;> rfl
  rw [if_neg hempty]
  rw [Bool.not_eq_true] at hempty
  by_cases hcode : site.statement.hidesCode = true
  · rw [if_pos hcode]
    exact Step.code hempty hcode
  rw [if_neg hcode]
  rw [Bool.not_eq_true] at hcode
  have hjoins : (pass.closeLoops site.statement).joins settings site.statement =
      pass.joins settings site.statement := by
    rw [joins, joins, start_closeLoops]
  simp only [hjoins]
  by_cases hjoin : pass.joins settings site.statement = true
  · -- A remark closes no loops.
    have hremark : site.statement.head = .remark := by
      simp only [joins, Bool.and_eq_true] at hjoin
      exact Statement.head_of_isJoinable hjoin.1.2
    rw [if_pos hjoin, closeLoops_of_head_ne (by simp [hremark])]
    exact Step.join hempty hcode hjoin
  · rw [if_neg hjoin]
    exact Step.row hempty hcode (by simpa using hjoin) _ rfl

variable {pass next : LinePass} {site : Site}

theorem Step.placed_suffix (h : Step settings p pass site next) : pass.placed <:+ next.placed := by
  cases h with
  | skip => exact List.suffix_rfl
  | code => exact List.suffix_cons _ _
  | join => exact List.suffix_cons _ _
  | row _ _ _ ready hready =>
    subst hready
    simp [place]

/-- Behind the first statement of a line that is shown, rows do not begin with the gutter. -/
theorem Step.start_eq (h : Step settings p pass site next) :
    next.start = if site.statement.isEmpty then pass.start else none := by
  cases h with
  | skip hempty => rw [if_pos hempty]
  | code hshown => rw [if_neg (by simp [hshown])]; rfl
  | join hshown => rw [if_neg (by simp [hshown])]; rfl
  | row hshown => rw [if_neg (by simp [hshown])]; simp [place]

end LinePass

/-! ## Visits -/

/-- A statement that the pass comes to. -/
structure Visit where
  line : Line
  site : Site
  /-- The state in which the pass comes to it. -/
  pass : LinePass

/-- The visits to the sites at the end of a line, if the pass comes to the first in the given
    state. -/
def visitsOfLine (settings : Settings) (p : Program) (line : Line) :
    LinePass → List Site → List Visit
  | _, [] => []
  | pass, site :: sites =>
    ⟨line, site, pass⟩ :: visitsOfLine settings p line (pass.step settings p site) sites

/-- The visits to the sites of some lines, if the pass comes to the first line in the given
    state. -/
def visitsFrom (settings : Settings) (p : Program) : Pass → List (Line × List Site) → List Visit
  | _, [] => []
  | pass, line :: lines =>
    visitsOfLine settings p line.1 (.begin pass (rowStart settings p.targets line.1)) line.2 ++
      visitsFrom settings p (pass.placeLine settings p p.targets line) lines

/-- The visits of the pass over a program: one to each statement, in order. -/
def Program.visits (p : Program) (settings : Settings) : List Visit :=
  visitsFrom settings p {} (lineSites p.lines)

section
variable (settings : Settings) (p : Program)

theorem map_site_visitsOfLine (line : Line) (pass : LinePass) (sites : List Site) :
    (visitsOfLine settings p line pass sites).map Visit.site = sites := by
  induction sites generalizing pass with
  | nil => rfl
  | cons site sites ih => rw [visitsOfLine, List.map_cons, ih]

theorem map_site_visitsFrom (pass : Pass) (lines : List (Line × List Site)) :
    (visitsFrom settings p pass lines).map Visit.site = lines.flatMap Prod.snd := by
  induction lines generalizing pass with
  | nil => rfl
  | cons line lines ih =>
    rw [visitsFrom, List.map_append, map_site_visitsOfLine, ih, List.flatMap_cons]

theorem map_statement_sitesFrom (later : List Line) (conditional : Bool) (ss : List Statement) :
    (sitesFrom later conditional ss).map Site.statement = ss := by
  induction ss generalizing conditional with
  | nil => rfl
  | cons s ss ih => rw [sitesFrom, List.map_cons, ih]

theorem map_statement_visits :
    (p.visits settings).map (·.site.statement) = p.statements := by
  have hsites : ∀ lines : List Line, ((lineSites lines).flatMap Prod.snd).map Site.statement =
      lines.flatMap Line.statements := by
    intro lines
    induction lines with
    | nil => rfl
    | cons line lines ih =>
      rw [lineSites, List.flatMap_cons, List.map_append, ih, map_statement_sitesFrom,
        List.flatMap_cons]
  rw [Program.statements, ← hsites, ← map_site_visitsFrom settings p {}, List.map_map]
  rfl

end

/-! ### How visits follow each other -/

/-- How a visit follows from the one before it. -/
inductive Visit.Next (settings : Settings) (p : Program) : Visit → Visit → Prop
  /-- The next statement of the line. -/
  | inLine (line : Line) (later : List Line) (conditional : Bool) (s s' : Statement)
      (after : List Statement) (pass next : LinePass) :
      LinePass.Step settings p pass ⟨s, conditional, s' :: after, later⟩ next →
      Next settings p ⟨line, ⟨s, conditional, s' :: after, later⟩, pass⟩
        ⟨line, ⟨s', conditional || s.isLedBy .ifCondition, after, later⟩, next⟩
  /-- The first statement of the next line. -/
  | newLine (line line' : Line) (later : List Line) (conditional : Bool) (s s' : Statement)
      (after : List Statement) (pass next : LinePass) :
      line'.statements = s' :: after →
      LinePass.Step settings p pass ⟨s, conditional, [], line' :: later⟩ next →
      Next settings p ⟨line, ⟨s, conditional, [], line' :: later⟩, pass⟩
        ⟨line', ⟨s', false, after, later⟩,
          .begin next.finish (rowStart settings p.targets line')⟩

section
variable {settings : Settings} {p : Program}

/-- The visits to the rest of a line and to the lines after it form a chain, if those to the lines
    after it do. -/
theorem isChain_visitsOfLine {line : Line} {later : List Line}
    (hlater : ∀ l ∈ later, l.statements ≠ [])
    (hchain : ∀ pass, (visitsFrom settings p pass (lineSites later)).IsChain
      (Visit.Next settings p))
    {ss : List Statement} (hss : ss ≠ []) (conditional : Bool) (pass : LinePass) :
    (visitsOfLine settings p line pass (sitesFrom later conditional ss) ++
      visitsFrom settings p
        ((sitesFrom later conditional ss).foldl (LinePass.step settings p) pass).finish
        (lineSites later)).IsChain (Visit.Next settings p) := by
  induction ss generalizing conditional pass with
  | nil => exact absurd rfl hss
  | cons s ss ih =>
    cases ss with
    | cons s' after =>
      have hnext := Visit.Next.inLine line later conditional s s' after pass _
        (pass.step_step settings p _)
      exact .cons_cons hnext (ih (by simp) _ _)
    | nil =>
      -- Behind the last statement of a line comes the first of the next, if there is one.
      cases later with
      | nil => exact .singleton _
      | cons line' later =>
        obtain ⟨s', after, hs'⟩ := List.exists_cons_of_ne_nil (hlater line' (by simp))
        have hrest := hchain (pass.step settings p ⟨s, conditional, [], line' :: later⟩).finish
        rw [lineSites, visitsFrom] at hrest
        simp only [hs', sitesFrom, visitsOfLine, List.cons_append] at hrest
        have hnext := Visit.Next.newLine line line' later conditional s s' after pass _ hs'
          (pass.step_step settings p _)
        rw [sitesFrom, sitesFrom, visitsOfLine, visitsOfLine, List.foldl_cons, List.foldl_nil,
          lineSites, visitsFrom]
        simp only [hs', sitesFrom, visitsOfLine, List.cons_append, List.nil_append]
        exact .cons_cons hnext hrest

theorem isChain_visitsFrom {lines : List Line} (hlines : ∀ line ∈ lines, line.statements ≠ [])
    (pass : Pass) :
    (visitsFrom settings p pass (lineSites lines)).IsChain (Visit.Next settings p) := by
  induction lines generalizing pass with
  | nil => exact .nil
  | cons line later ih =>
    have hlater : ∀ l ∈ later, l.statements ≠ [] := fun l hl => hlines l (by simp [hl])
    exact isChain_visitsOfLine hlater (fun pass => ih hlater pass) (hlines line (by simp)) false _

/-- **The visits of a program follow each other**, if each line has a statement. -/
theorem visits_isChain (hlines : ∀ line ∈ p.lines, line.statements ≠ []) :
    (p.visits settings).IsChain (Visit.Next settings p) :=
  isChain_visitsFrom hlines {}

/-- The pass begins with the first statement of the first line. -/
theorem pass_first_visit (hlines : ∀ line ∈ p.lines, line.statements ≠ []) {v : Visit}
    (hv : (p.visits settings)[0]? = some v) :
    ∃ start, v.pass = .begin {} start ∧ v.site.isConditional = false := by
  unfold Program.visits at hv
  cases hp : p.lines with
  | nil => simp [hp, lineSites, visitsFrom] at hv
  | cons line later =>
    obtain ⟨s, after, hs⟩ := List.exists_cons_of_ne_nil (hlines line (by simp [hp]))
    simp only [hp, lineSites, visitsFrom, hs, sitesFrom, visitsOfLine, List.cons_append,
      List.getElem?_cons_zero, Option.some.injEq] at hv
    subst hv
    exact ⟨_, rfl, rfl⟩

theorem last_visitsOfLine {line : Line} {sites : List Site} {pass : LinePass} {v : Visit}
    (hv : (visitsOfLine settings p line pass sites).getLast? = some v) :
    sites.foldl (LinePass.step settings p) pass = v.pass.step settings p v.site := by
  induction sites generalizing pass with
  | nil => simp [visitsOfLine] at hv
  | cons site sites ih =>
    cases sites with
    | nil =>
      obtain rfl : Visit.mk line site pass = v := by simpa [visitsOfLine] using hv
      rfl
    | cons site' sites => exact ih (by simpa [visitsOfLine, List.getLast?_cons_cons] using hv)

/-- The pass ends behind the last statement of the last line. -/
theorem pass_last_visit (hlines : ∀ line ∈ p.lines, line.statements ≠ []) {v : Visit}
    (hv : (p.visits settings).getLast? = some v) :
    p.pass settings = (v.pass.step settings p v.site).finish := by
  have hvisits : ∀ (lines : List Line) (pass : Pass), (∀ line ∈ lines, line.statements ≠ []) →
      (visitsFrom settings p pass (lineSites lines)).getLast? = some v →
      (lineSites lines).foldl (Pass.placeLine settings p p.targets) pass =
        (v.pass.step settings p v.site).finish := by
    intro lines
    induction lines with
    | nil => simp [lineSites, visitsFrom]
    | cons line lines ih =>
      intro pass hne hv
      rw [List.forall_mem_cons] at hne
      rw [lineSites, visitsFrom] at hv
      cases lines with
      | nil =>
        rw [lineSites, visitsFrom, List.append_nil] at hv
        exact congrArg LinePass.finish (last_visitsOfLine hv)
      | cons line' lines =>
        -- The last visit is to one of the lines behind the first.
        refine ih _ hne.2 ?_
        obtain ⟨s, after, hs⟩ := List.exists_cons_of_ne_nil (hne.2 line' (by simp))
        rwa [List.getLast?_append_of_ne_nil _ (by
          simp [lineSites, visitsFrom, hs, sitesFrom, visitsOfLine])] at hv
  exact hvisits p.lines {} hlines hv

end

/-! ## Layouts -/

section
variable {settings : Settings} {p : Program}

theorem placed_suffix_foldl (settings : Settings) (p : Program) (pass : LinePass)
    (sites : List Site) : pass.placed <:+ (sites.foldl (LinePass.step settings p) pass).placed := by
  induction sites generalizing pass with
  | nil => exact List.suffix_rfl
  | cons site sites ih =>
    exact (pass.step_step settings p site).placed_suffix.trans (ih _)

theorem placed_suffix_finish (pass : LinePass) : pass.placed <:+ pass.finish.placed := by
  rw [LinePass.finish]
  cases pass.start with
  | none => exact List.suffix_rfl
  | some start => exact List.suffix_cons _ _

theorem placed_suffix_placeLine (pass : Pass) (line : Line × List Site) :
    pass.placed <:+ (pass.placeLine settings p p.targets line).placed := by
  have h := placed_suffix_foldl settings p
    (.begin pass (rowStart settings p.targets line.1)) line.2
  exact h.trans (placed_suffix_finish _)

theorem placed_suffix_placeLines (pass : Pass) (lines : List (Line × List Site)) :
    pass.placed <:+ (lines.foldl (Pass.placeLine settings p p.targets) pass).placed := by
  induction lines generalizing pass with
  | nil => exact List.suffix_rfl
  | cons line lines ih => exact (placed_suffix_placeLine pass line).trans (ih _)

/-- A visit in a line comes in the state that the steps before it leave. -/
theorem mem_visitsOfLine {line : Line} {sites : List Site} {pass : LinePass} {v : Visit}
    (hv : v ∈ visitsOfLine settings p line pass sites) :
    v.line = line ∧ ∃ before after, sites = before ++ v.site :: after ∧
      v.pass = before.foldl (LinePass.step settings p) pass := by
  induction sites generalizing pass with
  | nil => simp [visitsOfLine] at hv
  | cons site sites ih =>
    rcases List.mem_cons.1 hv with rfl | hv
    · exact ⟨rfl, [], sites, rfl, rfl⟩
    · obtain ⟨hline, before, after, rfl, hpass⟩ := ih hv
      exact ⟨hline, site :: before, after, rfl, hpass⟩

theorem mem_visitsFrom {lines : List (Line × List Site)} {pass : Pass} {v : Visit}
    (hv : v ∈ visitsFrom settings p pass lines) :
    ∃ before line after, lines = before ++ line :: after ∧
      v ∈ visitsOfLine settings p line.1 (.begin
        (before.foldl (Pass.placeLine settings p p.targets) pass)
        (rowStart settings p.targets line.1)) line.2 := by
  induction lines generalizing pass with
  | nil => simp [visitsFrom] at hv
  | cons line lines ih =>
    rcases List.mem_append.1 hv with hv | hv
    · exact ⟨[], line, lines, rfl, hv⟩
    · obtain ⟨before, line', after, rfl, hline⟩ := ih hv
      exact ⟨line :: before, line', after, rfl, hline⟩

theorem mem_lineSites {lines : List Line} {line : Line × List Site} (h : line ∈ lineSites lines) :
    line.1 ∈ lines ∧ line.2.map Site.statement = line.1.statements := by
  induction lines with
  | nil => simp [lineSites] at h
  | cons l later ih =>
    rcases List.mem_cons.1 h with rfl | h
    · exact ⟨by simp, map_statement_sitesFrom later false l.statements⟩
    · exact ⟨by simp [(ih h).1], (ih h).2⟩

theorem eq_sitesFrom_of_mem {lines : List Line} {line : Line × List Site}
    (h : line ∈ lineSites lines) : ∃ later, line.2 = sitesFrom later false line.1.statements := by
  induction lines with
  | nil => simp [lineSites] at h
  | cons l later ih =>
    rcases List.mem_cons.1 h with rfl | h
    · exact ⟨later, rfl⟩
    · exact ih h

theorem sitesFrom_eq_append {later : List Line} {conditional : Bool} {ss : List Statement}
    {front back : List Site} {site : Site}
    (h : sitesFrom later conditional ss = front ++ site :: back) :
    ss = front.map Site.statement ++ site.statement :: site.after := by
  induction front generalizing conditional ss with
  | nil =>
    cases ss with
    | nil => simp [sitesFrom] at h
    | cons s ss =>
      rw [sitesFrom, List.nil_append, List.cons.injEq] at h
      obtain ⟨rfl, -⟩ := h
      rfl
  | cons first front ih =>
    cases ss with
    | nil => simp [sitesFrom] at h
    | cons s ss =>
      rw [sitesFrom, List.cons_append, List.cons.injEq] at h
      obtain ⟨rfl, hrest⟩ := h
      rw [List.map_cons, List.cons_append, ← ih hrest]

/-- How the pass comes to a statement from the start of its line, and what stands around the
    statement. -/
theorem exists_front_of_visit {v : Visit} (hv : v ∈ p.visits settings) :
    ∃ (pass : Pass) (front : List Site),
      v.pass = front.foldl (LinePass.step settings p)
        (.begin pass (rowStart settings p.targets v.line)) ∧
      v.line.statements = front.map Site.statement ++ v.site.statement :: v.site.after := by
  obtain ⟨before, line, after, hlines, hv⟩ := mem_visitsFrom hv
  obtain ⟨hline, front, back, hfront, hpass⟩ := mem_visitsOfLine hv
  obtain ⟨later, hlater⟩ :=
    eq_sitesFrom_of_mem (hlines ▸ List.mem_append_right before List.mem_cons_self)
  rw [hline]
  exact ⟨_, front, hpass, sitesFrom_eq_append (hlater ▸ hfront)⟩

/-- What stands around a statement in its line. -/
theorem exists_before_of_visit {v : Visit} (hv : v ∈ p.visits settings) :
    ∃ before, v.line.statements = before ++ v.site.statement :: v.site.after := by
  obtain ⟨-, front, -, hline⟩ := exists_front_of_visit hv
  exact ⟨front.map Site.statement, hline⟩

theorem line_mem_of_visit {v : Visit} (hv : v ∈ p.visits settings) : v.line ∈ p.lines := by
  obtain ⟨before, line, after, hlines, hv⟩ := mem_visitsFrom hv
  rw [(mem_visitsOfLine hv).1]
  exact (mem_lineSites (hlines ▸ List.mem_append_right before List.mem_cons_self)).1

/-- What has been placed behind a visit stays placed. -/
theorem placed_suffix_visit {v : Visit} (hv : v ∈ p.visits settings) :
    (v.pass.step settings p v.site).placed <:+ (p.pass settings).placed := by
  obtain ⟨before, line, after, hlines, hv⟩ := mem_visitsFrom hv
  obtain ⟨-, front, back, hsites, hpass⟩ := mem_visitsOfLine hv
  rw [Program.pass, hlines, List.foldl_append, List.foldl_cons, Pass.placeLine, hsites,
    List.foldl_append, List.foldl_cons, ← hpass]
  exact ((placed_suffix_foldl settings p _ back).trans (placed_suffix_finish _)).trans
    (placed_suffix_placeLines _ after)

/-- What a row can begin with: the start of the first row of a line, or nothing. -/
def IsRowStart (settings : Settings) (p : Program) (start : Text) : Prop :=
  start = [] ∨ ∃ line ∈ p.lines, start = rowStart settings p.targets line

theorem LinePass.Step.placed_forall {Q : Placement → Prop} {pass next : LinePass} {site : Site}
    (h : LinePass.Step settings p pass site next)
    (hcode : site.statement.hidesCode = true → Q (.code (pass.start.getD []) site.statement))
    (hjoined : Q (.joined site.statement))
    (hrow : ∀ indent column, Q (.row (pass.start.getD []) indent column site.statement))
    (hpass : ∀ placement ∈ pass.placed, Q placement) :
    ∀ placement ∈ next.placed, Q placement := by
  cases h with
  | skip => exact hpass
  | code _ hhides => exact List.forall_mem_cons.2 ⟨hcode hhides, hpass⟩
  | join => exact List.forall_mem_cons.2 ⟨hjoined, hpass⟩
  | row _ _ _ ready hready =>
    subst hready
    simpa [LinePass.place] using And.intro (hrow _ _) hpass

section layouts
variable {Q : Placement → Prop}
  (hbare : ∀ line ∈ p.lines, Q (.bare (rowStart settings p.targets line)))
  (hcode : ∀ start s, IsRowStart settings p start → s ∈ p.statements → s.hidesCode = true →
    Q (.code start s))
  (hjoined : ∀ s ∈ p.statements, Q (.joined s))
  (hrow : ∀ start indent column s, IsRowStart settings p start → s ∈ p.statements →
    Q (.row start indent column s))
include hbare hcode hjoined hrow

-- While a line is placed, the next row begins with nothing or with the start of that line.
theorem placed_forall_line {line : Line} (hl : line ∈ p.lines) {sites : List Site}
    {pass : LinePass} (hsites : ∀ site ∈ sites, site.statement ∈ line.statements)
    (hstart : ∀ start ∈ pass.start, start = rowStart settings p.targets line)
    (hpass : ∀ placement ∈ pass.placed, Q placement) :
    ∀ placement ∈ (sites.foldl (LinePass.step settings p) pass).finish.placed, Q placement := by
  induction sites generalizing pass with
  | nil =>
    rw [List.foldl_nil, LinePass.finish]
    cases hs : pass.start with
    | none => exact hpass
    | some start =>
      rw [hstart start hs]
      exact List.forall_mem_cons.2 ⟨hbare line hl, hpass⟩
  | cons site sites ih =>
    have hstep := pass.step_step settings p site
    have hs : site.statement ∈ p.statements :=
      List.mem_flatMap.2 ⟨line, hl, hsites site (by simp)⟩
    have hgetD : IsRowStart settings p (pass.start.getD []) := by
      cases hstart' : pass.start with
      | none => exact Or.inl rfl
      | some start => exact Or.inr ⟨line, hl, hstart start hstart'⟩
    refine ih (fun site' h => hsites site' (by simp [h])) ?_ (hstep.placed_forall
      (hcode _ _ hgetD hs) (hjoined _ hs) (fun _ _ => hrow _ _ _ _ hgetD hs) hpass)
    rw [hstep.start_eq]
    split_ifs
    · exact hstart
    · simp

/-- What holds of the places that steps can give holds of all places in a layout. -/
theorem layout_forall : ∀ placement ∈ p.layout settings, Q placement := by
  have hlines : ∀ (lines : List (Line × List Site)) (pass : Pass),
      (∀ line ∈ lines, line.1 ∈ p.lines ∧ line.2.map Site.statement = line.1.statements) →
      (∀ placement ∈ pass.placed, Q placement) →
      ∀ placement ∈ (lines.foldl (Pass.placeLine settings p p.targets) pass).placed,
        Q placement := by
    intro lines
    induction lines with
    | nil => exact fun _ _ hpass => hpass
    | cons line lines ih =>
      intro pass hmem hpass
      obtain ⟨hl, hsites⟩ := hmem line (by simp)
      refine ih _ (fun l h => hmem l (by simp [h]))
        (placed_forall_line hbare hcode hjoined hrow hl ?_ ?_ hpass)
      · intro site hsite
        rw [← hsites]
        exact List.mem_map_of_mem hsite
      · simp [LinePass.begin]
  intro placement hplacement
  exact hlines (lineSites p.lines) {} (fun _ => mem_lineSites) (by simp) placement
    (List.mem_reverse.1 hplacement)

end layouts

end

end BasicListing
