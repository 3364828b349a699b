/-
  Runs of assignments in the pass over a program.

  * `LinePass.Level`: before the first `IF` of a line the pass is at the depth
    of the open loops, and behind it the line has a floor.
  * `Program.Fits`: a column that is in force fits all assignments of the run
    that is still to come.
  * `visits_sound`: the pass comes to each statement in a state like this.
    Where the look ahead ends a run and where the pass does is the same.
  * `Visit.Next.inRun`: from one statement of a run to the next, the column
    and the indentation stay.
-/
import BasicListing.Proofs.Decoding
import BasicListing.Proofs.Pass

namespace BasicListing

/-! ## Assignments -/

namespace Program

variable {p : Program} {split : Bool} {s : Statement}

/-- An assignment is led by `LET` or by a character that is not a digit, and its column is that
    of its `=`. -/
theorem assignment_cases (h : 0 < p.assignmentColumn s) :
    p.assignmentColumn s = s.equalsColumn p.keywords ∧
      (s.head = .letAssign ∨ p.findAssignments = true ∧
        ∃ b, s.head = .plain b ∧ (Token.plain b).isDigit = false) := by
  unfold assignmentColumn Statement.assignmentColumn at h ⊢
  split at h
  · exact ⟨rfl, Or.inl ‹_›⟩
  · rename_i b hb
    split_ifs at h with hall
    · rw [if_pos hall]
      rw [Bool.and_eq_true, Bool.not_eq_true'] at hall
      exact ⟨rfl, Or.inr ⟨hall.1, b, hb, hall.2⟩⟩
    · omega
  · omega

theorem head_ne_of_assignment (h : 0 < p.assignmentColumn s) :
    ∀ t ∈ [Token.remark, .print, .nextLoop, .forLoop, .ifCondition], s.head ≠ t := by
  rcases (assignment_cases h).2 with h | ⟨-, b, h, -⟩ <;> simp [h]

theorem isJoinable_of_assignment (h : 0 < p.assignmentColumn s) : s.isJoinable = false := by
  rw [← Bool.not_eq_true]
  exact fun hjoinable =>
    head_ne_of_assignment h _ (by simp) (Statement.head_of_isJoinable hjoinable)

theorem equals_of_assignment (h : 0 < p.assignmentColumn s) :
    p.assignmentColumn s = Text.width ((p.text s).takeWhile (· != '=')) ∧ '=' ∈ p.text s ∧
      s.isEmpty = false := by
  have hequals := (assignment_cases h).1
  rw [hequals] at h ⊢
  unfold Statement.equalsColumn at h ⊢
  split_ifs at h with hcontains
  · rw [if_pos hcontains]
    rw [Bool.and_eq_true, List.contains_iff_mem, List.contains_iff_mem] at hcontains
    refine ⟨rfl, hcontains.2, ?_⟩
    rw [Statement.isEmpty, List.isEmpty_eq_false_iff]
    intro hbody
    simp [Statement.operand, hbody] at hcontains
  · omega

theorem endsRun_eq_false_iff :
    p.endsRun split s = false ↔
      0 < p.assignmentColumn s ∨ split = false ∧ s.isJoinable = true := by
  simp [endsRun, Nat.pos_iff_ne_zero, or_iff_not_imp_left]

theorem isEmpty_of_endsRun (h : p.endsRun split s = false) : s.isEmpty = false := by
  rcases endsRun_eq_false_iff.1 h with h | ⟨-, h⟩
  · exact (equals_of_assignment h).2.2
  · rw [← Bool.not_eq_true]
    intro hempty
    have hremark := Statement.head_of_isJoinable h
    rcases Statement.head_of_isEmpty hempty with hhead | hhead <;> simp [hhead] at hremark

theorem head_ne_ifCondition_of_endsRun (h : p.endsRun split s = false) :
    s.head ≠ .ifCondition := by
  rcases endsRun_eq_false_iff.1 h with h | ⟨-, h⟩
  · exact head_ne_of_assignment h _ (by simp)
  · simp [Statement.head_of_isJoinable h]

end Program

/-! ## Levels -/

namespace LinePass

variable {settings : Settings} {p : Program} {conditional : Bool} {pass next : LinePass}
  {site : Site}

/-- Before the first `IF` of a line the pass is at the depth of the open loops, and behind it the
    line has a floor. -/
structure Level (conditional : Bool) (pass : LinePass) : Prop where
  atLoops : conditional = false → pass.floor = 0 ∧ pass.indent = pass.loops.length
  hasFloor : conditional = true → 0 < pass.floor

theorem Level.begin (pass : Pass) (start : Text) : Level false (begin pass start) :=
  ⟨fun _ => ⟨rfl, rfl⟩, by simp⟩

theorem Level.closeLoops (h : Level conditional pass) (s : Statement) :
    Level conditional (pass.closeLoops s) := by
  unfold LinePass.closeLoops
  split
  · refine ⟨fun hc => ⟨(h.atLoops hc).1, ?_⟩, h.hasFloor⟩
    simp [(h.atLoops hc).1]
  · exact h

theorem Level.alignAt (h : Level conditional pass) (site : Site) :
    Level conditional (pass.alignAt settings p site) :=
  ⟨by simpa using h.atLoops, by simpa using h.hasFloor⟩

/-- Only an `IF` gives its line a floor. -/
theorem Level.openBlock (h : Level conditional pass) (s : Statement) :
    Level (conditional || s.isLedBy .ifCondition) (pass.openBlock s) := by
  by_cases hif : s.head = .ifCondition
  · rw [Statement.isLedBy_iff.2 hif, Bool.or_true]
    refine ⟨by simp, fun _ => ?_⟩
    simp [LinePass.openBlock, hif]
  · rw [Statement.isLedBy_eq_false_iff.2 hif, Bool.or_false]
    by_cases hfor : s.head = .forLoop
    · refine ⟨fun hc => ?_, fun hc => ?_⟩
      · simpa [LinePass.openBlock, Statement.openedVariable?, hfor] using h.atLoops hc
      · simpa [LinePass.openBlock, Statement.openedVariable?, hfor] using h.hasFloor hc
    · rwa [openBlock_of_head_ne hif hfor]

theorem Step.level (h : Step settings p pass site next) (hpass : Level site.isConditional pass) :
    Level (site.isConditional || site.statement.isLedBy .ifCondition) next := by
  have hkeep : site.statement.head ≠ .ifCondition → ∀ pass' : LinePass,
      pass'.floor = pass.floor → pass'.indent = pass.indent → pass'.loops = pass.loops →
      Level (site.isConditional || site.statement.isLedBy .ifCondition) pass' := by
    intro hif pass' hfloor hindent hloops
    rw [Statement.isLedBy_eq_false_iff.2 hif, Bool.or_false]
    refine ⟨?_, ?_⟩
    · rw [hfloor, hindent, hloops]; exact hpass.atLoops
    · rw [hfloor]; exact hpass.hasFloor
  cases h with
  | skip hempty =>
    refine hkeep ?_ _ rfl rfl rfl
    rcases Statement.head_of_isEmpty hempty with h | h <;> simp [h]
  | code _ hcode => exact hkeep (by simp [Statement.head_of_hidesCode hcode]) _ rfl rfl rfl
  | join _ _ hjoins =>
    simp only [joins, Bool.and_eq_true] at hjoins
    exact hkeep (by simp [Statement.head_of_isJoinable hjoins.1.2]) _ rfl rfl rfl
  | row _ _ _ ready hready =>
    have hlevel : Level site.isConditional ready :=
      hready ▸ (hpass.closeLoops site.statement).alignAt site
    have hplaced : Level site.isConditional
        (ready.place (.row · ready.indent ready.column site.statement)) :=
      ⟨hlevel.atLoops, hlevel.hasFloor⟩
    exact hplaced.openBlock site.statement

end LinePass

/-! ## Columns that fit -/

/-- The statements behind a site that its run could go on with, whatever they are. -/
def Site.ahead (site : Site) : List Statement :=
  site.after ++ if site.isConditional then [] else site.later.flatMap Line.statements

namespace Program

variable {p : Program} {split : Bool}

/-- A column that is in force fits the assignments at the beginning of some statements, up to the
    first statement that ends a run. -/
def Fits (p : Program) (split : Bool) (column : Nat) (ss : List Statement) : Prop :=
  column ≠ 0 → ∀ s ∈ ss.takeWhile fun s => !p.endsRun split s, p.assignmentColumn s ≤ column

theorem fits_zero (p : Program) (split : Bool) (ss : List Statement) : p.Fits split 0 ss :=
  fun h => absurd rfl h

theorem Fits.head {column : Nat} {s : Statement} {ss : List Statement}
    (h : p.Fits split column (s :: ss)) (hcolumn : column ≠ 0) (hs : p.endsRun split s = false) :
    p.assignmentColumn s ≤ column :=
  h hcolumn s (by simp [hs])

theorem Fits.tail {column : Nat} {s : Statement} {ss : List Statement}
    (h : p.Fits split column (s :: ss)) (hs : p.endsRun split s = false) :
    p.Fits split column ss := by
  intro hcolumn t ht
  refine h hcolumn t ?_
  rw [List.takeWhile_cons, if_pos (by simp [hs])]
  exact List.mem_cons_of_mem s ht

theorem takeWhile_not_append {α : Type} (f : α → Bool) (xs ys : List α) :
    (xs ++ ys).takeWhile (fun x => !f x) =
      xs.takeWhile (fun x => !f x) ++ if xs.any f then [] else ys.takeWhile fun x => !f x := by
  induction xs with
  | nil => simp
  | cons x xs ih => cases hx : f x <;> simp [hx, ih]

/-- The rest of a run is found by going on until something ends it. -/
theorem restOfRun_eq (p : Program) (split : Bool) (site : Site) :
    p.restOfRun split site = site.ahead.takeWhile fun s => !p.endsRun split s := by
  unfold restOfRun Site.ahead
  rw [takeWhile_not_append]
  cases site.isConditional <;> simp

theorem le_foldl_max {α : Type} (f : α → Nat) (xs : List α) (init : Nat) :
    init ≤ xs.foldl (fun highest x => max highest (f x)) init ∧
      ∀ x ∈ xs, f x ≤ xs.foldl (fun highest x => max highest (f x)) init := by
  induction xs generalizing init with
  | nil => simp
  | cons x xs ih =>
    obtain ⟨hinit, hxs⟩ := ih (max init (f x))
    rw [List.foldl_cons, List.forall_mem_cons]
    exact ⟨(Nat.le_max_left _ _).trans hinit, (Nat.le_max_right _ _).trans hinit, hxs⟩

theorem le_runColumn (p : Program) (split : Bool) (site : Site) :
    p.assignmentColumn site.statement ≤ p.runColumn split site :=
  (le_foldl_max p.assignmentColumn _ _).1

theorem fits_runColumn (p : Program) (split : Bool) (site : Site) :
    p.Fits split (p.runColumn split site) site.ahead := by
  intro _ s hs
  rw [← restOfRun_eq] at hs
  exact (le_foldl_max p.assignmentColumn _ _).2 s hs

theorem le_columnAt {current : Nat} {site : Site}
    (h : p.Fits split current (site.statement :: site.ahead)) :
    p.assignmentColumn site.statement ≤ p.columnAt split current site := by
  unfold columnAt
  split_ifs with hassign hcurrent
  · omega
  · exact p.le_runColumn split site
  · exact h.head hcurrent (endsRun_eq_false_iff.2 (Or.inl (Nat.pos_of_ne_zero hassign)))

theorem fits_columnAt {current : Nat} {site : Site}
    (h : p.Fits split current (site.statement :: site.ahead)) :
    p.Fits split (p.columnAt split current site) site.ahead := by
  unfold columnAt
  split_ifs with hassign hcurrent
  · exact fits_zero p split _
  · exact p.fits_runColumn split site
  · exact h.tail (endsRun_eq_false_iff.2 (Or.inl (Nat.pos_of_ne_zero hassign)))

end Program

namespace LinePass

variable {settings : Settings} {p : Program} {pass next : LinePass} {site : Site}

theorem endsRun_of_joins (h : pass.joins settings site.statement = true) :
    p.endsRun settings.splitComments site.statement = false := by
  simp only [joins, Bool.and_eq_true, Bool.not_eq_true'] at h
  exact Program.endsRun_eq_false_iff.2 (Or.inr h.1)

theorem column_row (halign : settings.alignAssignments = true) {ready : LinePass}
    (hready : (pass.closeLoops site.statement).alignAt settings p site = ready) :
    ready.column = p.columnAt settings.splitComments pass.column site := by
  subst hready
  simp [alignAt, halign]

/-- A statement that ends a run leaves no column in force. -/
theorem Step.column_eq_zero (h : Step settings p pass site next)
    (halign : settings.alignAssignments = true) (hcode : site.statement.hidesCode = false)
    (hends : p.endsRun settings.splitComments site.statement = true) : next.column = 0 := by
  cases h with
  | skip => simp [halign]
  | code _ hhides => simp [hcode] at hhides
  | join _ _ hjoins => simp [endsRun_of_joins hjoins] at hends
  | row _ _ _ ready hready =>
    have hassign : p.assignmentColumn site.statement = 0 := by
      simp only [Program.endsRun, Bool.and_eq_true, beq_iff_eq] at hends
      exact hends.1
    rw [column_openBlock]
    change ready.column = 0
    rw [column_row halign hready, Program.columnAt, if_pos hassign]

/-- **A step keeps a column that fits.** -/
theorem Step.fits (h : Step settings p pass site next)
    (halign : settings.alignAssignments = true)
    (hcode : site.statement.hidesCode = true →
      p.endsRun settings.splitComments site.statement = false)
    (hpass : p.Fits settings.splitComments pass.column (site.statement :: site.ahead)) :
    p.Fits settings.splitComments next.column site.ahead := by
  cases h with
  | skip =>
    rw [halign, if_pos rfl]
    exact p.fits_zero _ _
  | code _ hhides => exact hpass.tail (hcode hhides)
  | join _ _ hjoins => exact hpass.tail (endsRun_of_joins hjoins)
  | row _ _ _ ready hready =>
    rw [column_openBlock]
    change p.Fits _ ready.column _
    rw [column_row halign hready]
    exact Program.fits_columnAt hpass

end LinePass

/-! ## Sound visits -/

/-- The pass comes to a statement at the right level, and with a column that fits. -/
structure Visit.Sound (settings : Settings) (p : Program) (v : Visit) : Prop where
  level : v.pass.Level v.site.isConditional
  fits : p.Fits settings.splitComments v.pass.column (v.site.statement :: v.site.ahead)

section
variable {settings : Settings} {p : Program} {v w : Visit}

theorem Visit.Next.level (h : Visit.Next settings p v w)
    (hv : v.pass.Level v.site.isConditional) : w.pass.Level w.site.isConditional := by
  cases h with
  | inLine line later conditional s s' after pass next hstep => exact hstep.level hv
  | newLine => exact LinePass.Level.begin _ _

/-- A column that fits stays one, also behind hidden code that does not end the run. -/
theorem Visit.Next.sound (h : Visit.Next settings p v w)
    (halign : settings.alignAssignments = true)
    (hcode : v.site.statement.hidesCode = true →
      p.endsRun settings.splitComments v.site.statement = false)
    (hv : v.Sound settings p) : w.Sound settings p := by
  refine ⟨h.level hv.level, ?_⟩
  cases h with
  | inLine line later conditional s s' after pass next hstep =>
    have hfits := hstep.fits halign hcode hv.fits
    by_cases hif : s.isLedBy .ifCondition = true
    · have hhead := Statement.isLedBy_iff.1 hif
      have hends : p.endsRun settings.splitComments s = true := by
        rw [← Bool.not_eq_false]
        exact fun h => Program.head_ne_ifCondition_of_endsRun h hhead
      have hhides : s.hidesCode = false := by simp [Statement.hidesCode, Statement.isLedBy, hhead]
      have hzero : next.column = 0 := hstep.column_eq_zero halign hhides hends
      simpa only [hzero] using p.fits_zero _ _
    · simpa [Site.ahead, hif] using hfits
  | newLine line line' later conditional s s' after pass next hs' hstep =>
    have hfits := hstep.fits halign hcode hv.fits
    have hlevel := hstep.level hv.level
    change p.Fits _ next.finish.column _
    cases hif : conditional || s.isLedBy .ifCondition with
    | true =>
      -- The line has an `IF`, and no column goes on behind it.
      have hfloor : 0 < next.floor := hlevel.hasFloor hif
      rw [LinePass.finish, if_pos hfloor]
      exact p.fits_zero _ _
    | false =>
      have hfloor : next.floor = 0 := (hlevel.atLoops hif).1
      rw [LinePass.finish, if_neg (by omega)]
      simpa [Site.ahead, (Bool.or_eq_false_iff.1 hif).1, hs'] using hfits

theorem next_visit (hlines : ∀ line ∈ p.lines, line.statements ≠ []) {k : Nat}
    (hv : (p.visits settings)[k]? = some v) (hw : (p.visits settings)[k + 1]? = some w) :
    Visit.Next settings p v w := by
  obtain ⟨hk, rfl⟩ := List.getElem?_eq_some_iff.1 hv
  obtain ⟨hk', rfl⟩ := List.getElem?_eq_some_iff.1 hw
  exact List.isChain_iff_getElem.1 (visits_isChain hlines) k hk'

theorem first_visit (hlines : ∀ line ∈ p.lines, line.statements ≠ [])
    (hv : (p.visits settings)[0]? = some v) : v.Sound settings p := by
  obtain ⟨start, hpass, hconditional⟩ := pass_first_visit hlines hv
  refine ⟨?_, ?_⟩
  · rw [hpass, hconditional]
    exact LinePass.Level.begin _ _
  · rw [hpass]
    exact p.fits_zero _ _

theorem statement_visit {k : Nat} (hv : (p.visits settings)[k]? = some v) :
    p.statements[k]? = some v.site.statement := by
  rw [← map_statement_visits settings p, List.getElem?_map, hv]
  rfl

theorem exists_visit (settings : Settings) {k : Nat} {s : Statement}
    (hs : p.statements[k]? = some s) :
    ∃ v : Visit, (p.visits settings)[k]? = some v ∧ v.site.statement = s := by
  rw [← map_statement_visits settings p, List.getElem?_map] at hs
  exact Option.map_eq_some_iff.1 hs

/-- **What holds at the first statement, and from each statement of the next, holds at all.** -/
theorem visits_induction (hlines : ∀ line ∈ p.lines, line.statements ≠ [])
    {Q : Nat → Visit → Prop} (hfirst : ∀ v, (p.visits settings)[0]? = some v → Q 0 v)
    (hnext : ∀ k v w, (p.visits settings)[k]? = some v → Visit.Next settings p v w → Q k v →
      (p.visits settings)[k + 1]? = some w → Q (k + 1) w) {k : Nat}
    (hv : (p.visits settings)[k]? = some v) : Q k v := by
  induction k generalizing v with
  | zero => exact hfirst v hv
  | succ k ih =>
    obtain ⟨hk, -⟩ := List.getElem?_eq_some_iff.1 hv
    have hbefore : (p.visits settings)[k]? = some (p.visits settings)[k] :=
      List.getElem?_eq_getElem _
    exact hnext k _ v hbefore (next_visit hlines hbefore hv) (ih hbefore) hv

theorem visits_level (hlines : ∀ line ∈ p.lines, line.statements ≠ []) {k : Nat}
    (hv : (p.visits settings)[k]? = some v) : v.pass.Level v.site.isConditional :=
  visits_induction (Q := fun _ v => v.pass.Level v.site.isConditional) hlines
    (fun _ hv => (first_visit hlines hv).level) (fun _ _ _ _ hnext ih _ => hnext.level ih) hv

/-- **The pass comes to each statement in a sound state**, if there is no hidden code. -/
theorem visits_sound (hlines : ∀ line ∈ p.lines, line.statements ≠ [])
    (halign : settings.alignAssignments = true)
    (hcode : ∀ s ∈ p.statements, s.hidesCode = false) {k : Nat}
    (hv : (p.visits settings)[k]? = some v) : v.Sound settings p := by
  refine visits_induction (Q := fun _ v => v.Sound settings p) hlines
    (fun v hv => first_visit hlines hv) ?_ hv
  intro k v w hv hnext ih _
  have hs := List.mem_of_getElem? (statement_visit hv)
  exact hnext.sound halign (fun h => by simp [hcode _ hs] at h) ih

/-! ## Along a run -/

/-- The column in force behind a statement that does not end a run. -/
def Visit.column (settings : Settings) (p : Program) (v : Visit) : Nat :=
  if p.assignmentColumn v.site.statement = 0 then v.pass.column
  else p.columnAt settings.splitComments v.pass.column v.site

theorem Visit.Sound.le_column (hv : v.Sound settings p)
    (hassign : 0 < p.assignmentColumn v.site.statement) :
    p.assignmentColumn v.site.statement ≤ v.column settings p := by
  rw [Visit.column, if_neg (by omega)]
  exact Program.le_columnAt hv.fits

/-- A step over an assignment gives it a row and the column in force. -/
theorem LinePass.Step.assignment {pass next : LinePass} {site : Site}
    (h : Step settings p pass site next) (halign : settings.alignAssignments = true)
    (hassign : 0 < p.assignmentColumn site.statement) :
    let column := p.columnAt settings.splitComments pass.column site
    next = { pass with
      column
      placed := .row (pass.start.getD []) pass.indent column site.statement :: pass.placed
      start := none } := by
  have hhead := Program.head_ne_of_assignment hassign
  cases h with
  | skip hempty => simp [(Program.equals_of_assignment hassign).2.2] at hempty
  | code _ hcode => exact absurd (Statement.head_of_hidesCode hcode) (hhead _ (by simp))
  | join _ _ hjoins =>
    simp [joins, Program.isJoinable_of_assignment hassign] at hjoins
  | row _ _ _ ready hready =>
    rw [closeLoops_of_head_ne (hhead _ (by simp)), alignAt, if_pos halign] at hready
    subst hready
    rw [openBlock_of_head_ne (hhead _ (by simp)) (hhead _ (by simp))]
    rfl

/-- A step inside a run keeps the loops and the indentation. -/
theorem LinePass.Step.inRun {pass next : LinePass} {site : Site}
    (h : Step settings p pass site next) (halign : settings.alignAssignments = true)
    (hcode : site.statement.hidesCode = false)
    (hrun : p.endsRun settings.splitComments site.statement = false)
    (hstart : site.statement.isJoinable = true → pass.start = none) :
    next.loops = pass.loops ∧ next.indent = pass.indent ∧
      next.column = if p.assignmentColumn site.statement = 0 then pass.column
        else p.columnAt settings.splitComments pass.column site := by
  rcases Program.endsRun_eq_false_iff.1 hrun with hassign | ⟨hsplit, hjoinable⟩
  · obtain rfl := h.assignment halign hassign
    exact ⟨rfl, rfl, by rw [if_neg (by omega)]⟩
  · have hjoins : pass.joins settings site.statement = true := by
      simp [joins, hsplit, hjoinable, hstart hjoinable]
    have hassign : p.assignmentColumn site.statement = 0 := by
      by_contra hne
      simp [Program.isJoinable_of_assignment (Nat.pos_of_ne_zero hne)] at hjoinable
    rw [if_pos hassign]
    cases h with
    | skip hempty => simp [Program.isEmpty_of_endsRun hrun] at hempty
    | code _ hhides => simp [hcode] at hhides
    | join => exact ⟨rfl, rfl, rfl⟩
    | row _ _ hnot => simp [hjoins] at hnot

/-- **From one statement of a run to the next, the column and the indentation stay**, unless the
    line ends behind an `IF`. -/
theorem Visit.Next.inRun (h : Visit.Next settings p v w)
    (halign : settings.alignAssignments = true) (hcode : v.site.statement.hidesCode = false)
    (hv : v.Sound settings p) (hrun : p.endsRun settings.splitComments v.site.statement = false)
    (hstart : v.site.statement.isJoinable = true → v.pass.start = none)
    (hline : v.site.after ≠ [] ∨ v.site.isConditional = false)
    (hopens : OpensFirst w.line.statements) :
    w.pass.column = v.column settings p ∧ w.pass.indent = v.pass.indent ∧
      (v.site.isConditional = false → w.site.isConditional = false) ∧
      (w.site.statement.isJoinable = true → w.pass.start = none) := by
  have hif : v.site.statement.isLedBy .ifCondition = false :=
    Statement.isLedBy_eq_false_iff.2 (Program.head_ne_ifCondition_of_endsRun hrun)
  cases h with
  | inLine line later conditional s s' after pass next hstep =>
    obtain ⟨-, hindent, hcolumn⟩ := hstep.inRun halign hcode hrun hstart
    refine ⟨hcolumn, hindent, fun hc => by simpa [hif] using hc, fun _ => ?_⟩
    have hshown : s.isEmpty = false := Program.isEmpty_of_endsRun hrun
    have hnext : next.start = if s.isEmpty then pass.start else none := hstep.start_eq
    rw [hnext, hshown, if_neg (by simp)]
  | newLine line line' later conditional s s' after pass next hs' hstep =>
    have hconditional : conditional = false := hline.resolve_left (by simp)
    obtain ⟨hloops, hindent, hcolumn⟩ := hstep.inRun halign hcode hrun hstart
    have hlevel := (hstep.level hv.level).atLoops (by simp [hconditional, hif])
    refine ⟨?_, ?_, fun _ => rfl, fun hjoinable => ?_⟩
    · change next.finish.column = _
      rw [LinePass.finish, if_neg (by omega)]
      exact hcolumn
    · change next.loops.length = pass.indent
      rw [← hlevel.2, hindent]
    · -- The first statement of a line cannot join the row above.
      have hfirst : s'.opensLine = true := by
        change OpensFirst line'.statements at hopens
        rw [hs'] at hopens
        exact hopens.1
      have hnot : s'.opensLine = false := Statement.opensLine_of_isJoinable hjoinable
      simp [hfirst] at hnot

end

/-! ## Runs and lines -/

section
variable {settings : Settings} {p : Program} {v w : Visit}

theorem site_sitesFrom {later : List Line} {conditional : Bool} {ss : List Statement} {k : Nat}
    {site : Site} (h : (sitesFrom later conditional ss)[k]? = some site) :
    site.after = ss.drop (k + 1) ∧
      site.isConditional = (conditional || (ss.take k).any (·.isLedBy .ifCondition)) := by
  induction ss generalizing conditional k with
  | nil => simp [sitesFrom] at h
  | cons s ss ih =>
    cases k with
    | zero =>
      obtain rfl : Site.mk s conditional ss later = site := by simpa [sitesFrom] using h
      simp
    | succ k =>
      have hsite : (sitesFrom later (conditional || s.isLedBy .ifCondition) ss)[k]? =
          some site := by
        simpa [sitesFrom] using h
      obtain ⟨hafter, hconditional⟩ := ih hsite
      exact ⟨by simpa using hafter, by rw [hconditional]; simp [Bool.or_assoc]⟩

theorem le_of_mem_rangesFrom {before : Nat} {lines : List Line} {r : Nat × Nat}
    (h : r ∈ Program.rangesFrom before lines) : before ≤ r.1 := by
  induction lines generalizing before with
  | nil => simp [Program.rangesFrom] at h
  | cons line lines ih =>
    rcases List.mem_cons.1 h with rfl | h
    · exact Nat.le_refl _
    · exact (Nat.le_add_right _ _).trans (ih h)

/-- What a site tells about its line: how much of it is left, and whether it has an `IF` so far. -/
theorem site_of_range {before : Nat} {lines : List Line} {r : Nat × Nat} {k : Nat} {site : Site}
    (hr : r ∈ Program.rangesFrom before lines) (hk : r.1 ≤ before + k ∧ before + k < r.2)
    (hsite : ((lineSites lines).flatMap Prod.snd)[k]? = some site) :
    before + k + site.after.length + 1 = r.2 ∧
      (site.isConditional = true → ∃ m s, r.1 ≤ before + m ∧ m < k ∧
        (lines.flatMap Line.statements)[m]? = some s ∧ s.isLedBy .ifCondition = true) := by
  induction lines generalizing before k with
  | nil => simp [Program.rangesFrom] at hr
  | cons line lines ih =>
    have hlength : (sitesFrom lines false line.statements).length = line.statements.length := by
      rw [← List.length_map Site.statement, map_statement_sitesFrom]
    change (sitesFrom lines false line.statements ++ (lineSites lines).flatMap Prod.snd)[k]? =
      some site at hsite
    -- The range is that of the first line, or of a line behind all its statements.
    rcases List.mem_cons.1 hr with rfl | hr
    · have hlt : k < line.statements.length := by simpa using hk.2
      rw [List.getElem?_append_left (by rw [hlength]; exact hlt)] at hsite
      obtain ⟨hafter, hconditional⟩ := site_sitesFrom hsite
      refine ⟨?_, fun hc => ?_⟩
      · rw [hafter, List.length_drop]
        simp only
        omega
      · rw [hconditional, Bool.false_or, List.any_eq_true] at hc
        obtain ⟨s, hs, hif⟩ := hc
        obtain ⟨m, hm⟩ := List.mem_iff_getElem?.1 hs
        rw [List.getElem?_take] at hm
        split_ifs at hm with hmk
        refine ⟨m, s, Nat.le_add_right _ _, hmk, ?_, hif⟩
        rw [List.flatMap_cons, List.getElem?_append_left (by omega), hm]
    · have hle := le_of_mem_rangesFrom hr
      obtain ⟨k, rfl⟩ : ∃ k', k = line.statements.length + k' := Nat.exists_eq_add_of_le (by omega)
      rw [List.getElem?_append_right (by omega), hlength, Nat.add_sub_cancel_left] at hsite
      obtain ⟨hafter, hif⟩ := ih hr (by omega) hsite
      refine ⟨by omega, fun hc => ?_⟩
      obtain ⟨m, s, hm, hmk, hs, hled⟩ := hif hc
      refine ⟨line.statements.length + m, s, by omega, by omega, ?_, hled⟩
      rw [List.flatMap_cons, List.getElem?_append_right (by omega), Nat.add_sub_cancel_left, hs]

theorem visit_of_range {r : Nat × Nat} (hr : r ∈ p.ranges) {k : Nat} (hk : r.1 ≤ k ∧ k < r.2)
    (hv : (p.visits settings)[k]? = some v) :
    k + v.site.after.length + 1 = r.2 ∧ (v.site.isConditional = true →
      ∃ m s, r.1 ≤ m ∧ m < k ∧ p.statements[m]? = some s ∧ s.isLedBy .ifCondition = true) := by
  have hsite : ((lineSites p.lines).flatMap Prod.snd)[k]? = some v.site := by
    rw [← map_site_visitsFrom settings p {}, List.getElem?_map]
    exact congrArg (Option.map Visit.site) hv
  have h := site_of_range hr (by simpa using hk) hsite
  simp only [Nat.zero_add] at h
  exact h

/-- **The column and the indentation are the same along a whole run.** -/
theorem run_visits (hlines : ∀ line ∈ p.lines, line.statements ≠ [])
    (hopens : ∀ line ∈ p.lines, OpensFirst line.statements)
    (halign : settings.alignAssignments = true)
    (hcode : ∀ s ∈ p.statements, s.hidesCode = false) {i j : Nat} {r : Nat × Nat}
    (hr : r ∈ p.ranges) (hi : r.1 ≤ i ∧ i < r.2)
    (hline : j < r.2 ∨ ∀ k s, r.1 ≤ k → k < i → p.statements[k]? = some s →
      s.isLedBy .ifCondition = false)
    (hrun : ∀ k s, i ≤ k → k ≤ j → p.statements[k]? = some s →
      p.endsRun settings.splitComments s = false)
    (hv : (p.visits settings)[i]? = some v) (hassign : 0 < p.assignmentColumn v.site.statement)
    {n : Nat} (hn : i + n ≤ j) (hw : (p.visits settings)[i + n]? = some w) :
    w.column settings p = v.column settings p ∧ w.pass.indent = v.pass.indent := by
  have hpos : v.column settings p ≠ 0 := by
    have hle := (visits_sound hlines halign hcode hv).le_column hassign
    omega
  -- At each statement of the run the line goes on up to its end, or has no `IF` so far.
  suffices h : w.column settings p = v.column settings p ∧ w.pass.indent = v.pass.indent ∧
      (j < r.2 ∨ w.site.isConditional = false) ∧
      (w.site.statement.isJoinable = true → w.pass.start = none) from ⟨h.1, h.2.1⟩
  induction n generalizing w with
  | zero =>
    obtain rfl : v = w := Option.some.inj (hv.symm.trans hw)
    refine ⟨rfl, rfl, hline.imp_right fun hif => ?_, fun hjoinable => ?_⟩
    · rw [← Bool.not_eq_true]
      intro hconditional
      obtain ⟨m, s, hm, hmi, hs, hled⟩ := (visit_of_range hr hi hv).2 hconditional
      simp [hif m s hm hmi hs] at hled
    · simp [Program.isJoinable_of_assignment hassign] at hjoinable
  | succ n ih =>
    obtain ⟨hlt, -⟩ := List.getElem?_eq_some_iff.1 hw
    obtain ⟨u, hu⟩ : ∃ u, (p.visits settings)[i + n]? = some u :=
      ⟨_, List.getElem?_eq_getElem (by omega)⟩
    obtain ⟨hcolumn, hindent, hgoes, hstart⟩ := ih (by omega) hu
    have hs := statement_visit hu
    have hends := hrun _ _ (Nat.le_add_right i n) (by omega) hs
    have hrest : u.site.after ≠ [] ∨ u.site.isConditional = false := by
      refine hgoes.imp_left fun hj => ?_
      have hafter := (visit_of_range hr (by omega) hu).1
      rw [← List.length_pos_iff]
      omega
    obtain ⟨hcolumn', hindent', hconditional, hstart'⟩ := (next_visit hlines hu hw).inRun halign
      (hcode _ (List.mem_of_getElem? hs)) (visits_sound hlines halign hcode hu) hends hstart hrest
      (hopens _ (line_mem_of_visit (List.mem_of_getElem? hw)))
    refine ⟨?_, hindent'.trans hindent, hgoes.imp_right hconditional, hstart'⟩
    rw [hcolumn] at hcolumn'
    rw [Visit.column, Program.columnAt, hcolumn', if_neg hpos]
    split_ifs <;> rfl

end

end BasicListing
