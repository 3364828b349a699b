/-
  Hidden code inside and between runs of assignments.

  Where a remark shows the code it hides, the pass neither finds nor clears the
  column in force.  So a column can go past a remark at which the look ahead
  ends a run.

  * `Visit.Carries`: a remark that a column goes past.
  * `column_past_hiddenCode`: the column behind a remark that hides code, up to
    the next assignment.
  * `sound_or_carried`: a column in force fits, or has gone past such a remark.
  * `Program.columns_past_hiddenCode`: what this means for rows.
-/
import BasicListing.Proofs.Leading
import BasicListing.Proofs.LineUp

namespace BasicListing

/-! ## Remarks that a column goes past -/

/-- A remark that hides code and ends a run, although a column is in force and stays in force. -/
structure Visit.Carries (settings : Settings) (p : Program) (v : Visit) : Prop where
  hidesCode : v.site.statement.hidesCode = true
  endsRun : p.endsRun settings.splitComments v.site.statement = true
  inForce : v.pass.column ≠ 0
  unconditional : v.site.isConditional = false

theorem assignmentColumn_of_hidesCode {p : Program} {s : Statement} (h : s.hidesCode = true) :
    p.assignmentColumn s = 0 := by
  rw [Program.assignmentColumn, Statement.assignmentColumn, Statement.head_of_hidesCode h]

theorem endsRun_iff_of_hidesCode {p : Program} {split : Bool} {s : Statement}
    (h : s.hidesCode = true) :
    p.endsRun split s = true ↔ s.opensLine = true ∨ split = true := by
  have hremark := Statement.isLedBy_iff.2 (Statement.head_of_hidesCode h)
  simp [Program.endsRun, assignmentColumn_of_hidesCode h, Statement.isJoinable, hremark, or_comm]

section
variable {settings : Settings} {p : Program} {v w : Visit}

theorem after_eq_nil_of_remark (hp : ∀ line ∈ p.lines, ∃ init last,
      line.statements = init ++ [last] ∧ ∀ s ∈ init, s.head ≠ .remark)
    (hv : v ∈ p.visits settings) (hremark : v.site.statement.head = .remark) :
    v.site.after = [] := by
  obtain ⟨before, hbefore⟩ := exists_before_of_visit hv
  obtain ⟨init, last, hline, hinit⟩ := hp _ (line_mem_of_visit hv)
  by_contra hne
  obtain ⟨rest, s, hrest⟩ := (List.eq_nil_or_concat' _).resolve_left hne
  rw [hline, hrest, ← List.cons_append, ← List.append_assoc] at hbefore
  obtain ⟨rfl, -⟩ := List.append_inj' hbefore rfl
  exact hinit _ (by simp) hremark

/-! ## Columns from statement to statement -/

theorem LinePass.Step.column_of_not_assignment {pass next : LinePass} {site : Site}
    (h : Step settings p pass site next) (halign : settings.alignAssignments = true)
    (hcode : site.statement.hidesCode = false) (hassign : p.assignmentColumn site.statement = 0)
    (hpass : pass.start ≠ none ∨ pass.column = 0) : next.column = 0 := by
  cases h with
  | skip => simp [halign]
  | code _ hhides => simp [hcode] at hhides
  | join _ _ hjoins =>
    have hstart : pass.start = none := by
      simp only [joins, Bool.and_eq_true, Option.isNone_iff_eq_none] at hjoins
      exact hjoins.2
    exact hpass.resolve_left (not_not_intro hstart)
  | row _ _ _ ready hready =>
    rw [column_openBlock]
    change ready.column = 0
    rw [column_row halign hready, Program.columnAt, if_pos hassign]

theorem LinePass.Step.column_or_zero {pass next : LinePass} {site : Site}
    (h : Step settings p pass site next) (halign : settings.alignAssignments = true)
    (hpass : pass.column ≠ 0) : next.column = pass.column ∨ next.column = 0 := by
  cases h with
  | skip => simp [halign]
  | code => exact Or.inl rfl
  | join => exact Or.inl rfl
  | row _ _ _ ready hready =>
    rw [column_openBlock]
    change ready.column = _ ∨ ready.column = 0
    rw [column_row halign hready, Program.columnAt, if_neg hpass]
    split_ifs
    · exact Or.inr rfl
    · exact Or.inl rfl

/-- The end of a line keeps the column or clears it. -/
theorem Visit.Next.exists_step (h : Visit.Next settings p v w) :
    ∃ next, LinePass.Step settings p v.pass v.site next ∧
      (w.pass.column = next.column ∨ w.pass.column = 0) := by
  cases h with
  | inLine line later conditional s s' after pass next hstep => exact ⟨next, hstep, Or.inl rfl⟩
  | newLine line line' later conditional s s' after pass next hs' hstep =>
    refine ⟨next, hstep, ?_⟩
    change next.finish.column = _ ∨ next.finish.column = 0
    rw [LinePass.finish]
    split_ifs
    · exact Or.inr rfl
    · exact Or.inl rfl

/-- Behind a remark that hides code comes a new line, with the same column unless the line had an
    `IF`. -/
theorem Visit.Next.of_hidesCode (h : Visit.Next settings p v w) (hafter : v.site.after = [])
    (hcode : v.site.statement.hidesCode = true) (hlevel : v.pass.Level v.site.isConditional) :
    w.pass.column = (if v.site.isConditional then 0 else v.pass.column) ∧
      w.site.isConditional = false ∧ w.pass.start ≠ none := by
  cases h with
  | inLine => simp at hafter
  | newLine line line' later conditional s s' after pass next hs' hstep =>
    refine ⟨?_, rfl, by simp [LinePass.begin]⟩
    cases hstep with
    | skip hempty => simp [Statement.hidesCode_of_isEmpty hempty] at hcode
    | join _ hhides => simp [hhides] at hcode
    | row _ hhides => simp [hhides] at hcode
    | code =>
      change (if 0 < pass.floor then 0 else pass.column) = if conditional then 0 else pass.column
      cases hconditional : conditional with
      | true =>
        have hfloor : 0 < pass.floor := hlevel.hasFloor hconditional
        rw [if_pos hfloor]
        rfl
      | false =>
        have hfloor : pass.floor = 0 := (hlevel.atLoops hconditional).1
        rw [hfloor]
        rfl

theorem carries_or_zero (hcode : v.site.statement.hidesCode = true)
    (hends : p.endsRun settings.splitComments v.site.statement = true) {column : Nat}
    (hcolumn : column = if v.site.isConditional then 0 else v.pass.column) :
    v.Carries settings p ∧ column = v.pass.column ∨ ¬v.Carries settings p ∧ column = 0 := by
  by_cases hcarries : v.Carries settings p
  · rw [hcarries.unconditional] at hcolumn
    exact Or.inl ⟨hcarries, hcolumn⟩
  · refine Or.inr ⟨hcarries, ?_⟩
    rw [hcolumn]
    split_ifs with hif
    · rfl
    · by_contra hne
      exact hcarries ⟨hcode, hends, hne, by simpa using hif⟩

/-! ## Columns behind hidden code -/

/-- All statements between two indices hide code. -/
def Program.HidesBetween (p : Program) (i j : Nat) : Prop :=
  ∀ k s, i < k → k < j → p.statements[k]? = some s → s.hidesCode = true

/-- **The column behind a remark that hides code and ends a run**, up to the next assignment: a
    column that goes past it stays in force as long as only hidden code follows. -/
theorem column_past_hiddenCode (hlines : ∀ line ∈ p.lines, line.statements ≠ [])
    (hremarks : ∀ line ∈ p.lines, ∃ init last,
      line.statements = init ++ [last] ∧ ∀ s ∈ init, s.head ≠ .remark)
    (halign : settings.alignAssignments = true) {i : Nat}
    (hv : (p.visits settings)[i]? = some v) (hcode : v.site.statement.hidesCode = true)
    (hends : p.endsRun settings.splitComments v.site.statement = true) {j : Nat} (hij : i < j)
    (hw : (p.visits settings)[j]? = some w)
    (hbetween : ∀ k s, i < k → k < j → p.statements[k]? = some s → p.assignmentColumn s = 0) :
    (v.Carries settings p ∧ p.HidesBetween i j) ∧ w.pass.column = v.pass.column ∨
      ¬(v.Carries settings p ∧ p.HidesBetween i j) ∧ w.pass.column = 0 := by
  have hnewLine : ∀ {k} {u u' : Visit}, (p.visits settings)[k]? = some u →
      (p.visits settings)[k + 1]? = some u' → u.site.statement.hidesCode = true →
      u'.pass.column = (if u.site.isConditional then 0 else u.pass.column) ∧
        u'.site.isConditional = false ∧ u'.pass.start ≠ none := by
    intro k u u' hu hu' hhides
    have hafter := after_eq_nil_of_remark hremarks (List.mem_of_getElem? hu)
      (Statement.head_of_hidesCode hhides)
    exact (next_visit hlines hu hu').of_hidesCode hafter hhides (visits_level hlines hu)
  -- While the column stays, each statement is the first of its line.
  suffices h : (v.Carries settings p ∧ p.HidesBetween i j) ∧ w.pass.column = v.pass.column ∧
        w.site.isConditional = false ∧ w.pass.start ≠ none ∨
      ¬(v.Carries settings p ∧ p.HidesBetween i j) ∧ w.pass.column = 0 from
    h.imp_left fun h => ⟨h.1, h.2.1⟩
  induction j, hij using Nat.le_induction generalizing w with
  | base =>
    obtain ⟨hcolumn, hconditional, hstart⟩ := hnewLine hv hw hcode
    have hnone : p.HidesBetween i (i + 1) := fun k s hik hki => by omega
    rcases carries_or_zero hcode hends hcolumn with ⟨hcarries, hkeep⟩ | ⟨hnot, hzero⟩
    · exact Or.inl ⟨⟨hcarries, hnone⟩, hkeep, hconditional, hstart⟩
    · exact Or.inr ⟨fun h => hnot h.1, hzero⟩
  | succ j hij ih =>
    obtain ⟨hj, -⟩ := List.getElem?_eq_some_iff.1 hw
    obtain ⟨u, hu⟩ : ∃ u, (p.visits settings)[j]? = some u :=
      ⟨_, List.getElem?_eq_getElem (by omega)⟩
    have hs := statement_visit hu
    have hcases := ih hu fun k s hik hkj => hbetween k s hik (by omega)
    by_cases hhides : u.site.statement.hidesCode = true
    · obtain ⟨hcolumn, hconditional, hstart⟩ := hnewLine hu hw hhides
      have hmore : p.HidesBetween i (j + 1) ↔ p.HidesBetween i j := by
        refine ⟨fun h k s hik hkj => h k s hik (by omega), fun h k s hik hkj hk => ?_⟩
        rcases Nat.lt_succ_iff_lt_or_eq.1 hkj with hkj | rfl
        · exact h k s hik hkj hk
        · exact Option.some.inj (hs.symm.trans hk) ▸ hhides
      rw [hmore]
      rcases hcases with ⟨hcarried, hkeep, hunconditional, -⟩ | ⟨hnot, hzero⟩
      · rw [hunconditional] at hcolumn
        exact Or.inl ⟨hcarried, hcolumn.trans hkeep, hconditional, hstart⟩
      · refine Or.inr ⟨hnot, ?_⟩
        rw [hcolumn, hzero, ite_self]
    · -- Anything else clears the column; a remark that would not has a statement before it.
      refine Or.inr ⟨fun h => hhides (h.2 j _ hij (Nat.lt_succ_self j) hs), ?_⟩
      obtain ⟨next, hstep, hnext⟩ := (next_visit hlines hu hw).exists_step
      have hzero : next.column = 0 := by
        refine hstep.column_of_not_assignment halign (by simpa using hhides)
          (hbetween j _ hij (Nat.lt_succ_self j) hs) ?_
        rcases hcases with ⟨-, -, -, hstart⟩ | ⟨-, hzero⟩
        · exact Or.inl hstart
        · exact Or.inr hzero
      rcases hnext with hnext | hnext
      · exact hnext.trans hzero
      · exact hnext

/-- **A column in force fits, or has gone past a remark that hides code.** -/
theorem sound_or_carried (hlines : ∀ line ∈ p.lines, line.statements ≠ [])
    (hremarks : ∀ line ∈ p.lines, ∃ init last,
      line.statements = init ++ [last] ∧ ∀ s ∈ init, s.head ≠ .remark)
    (halign : settings.alignAssignments = true) {j : Nat}
    (hw : (p.visits settings)[j]? = some w) :
    w.Sound settings p ∨ ∃ i v, i < j ∧ (p.visits settings)[i]? = some v ∧
      v.Carries settings p ∧ w.pass.column = v.pass.column := by
  refine visits_induction (Q := fun j w => w.Sound settings p ∨ ∃ (i : Nat) (v : Visit), i < j ∧
    (p.visits settings)[i]? = some v ∧ v.Carries settings p ∧ w.pass.column = v.pass.column) hlines
    (fun w hw => Or.inl (first_visit hlines hw)) ?_ hw
  intro j u w hu hnext ih hw
  have hcleared : w.pass.column = 0 → w.Sound settings p := by
    intro hzero
    refine ⟨visits_level hlines hw, ?_⟩
    rw [hzero]
    exact p.fits_zero _ _
  rcases ih with hsound | ⟨i, v, hij, hv, hcarries, hcolumn⟩
  · by_cases hends : u.site.statement.hidesCode = true ∧
        p.endsRun settings.splitComments u.site.statement = true
    · have hafter := after_eq_nil_of_remark hremarks (List.mem_of_getElem? hu)
        (Statement.head_of_hidesCode hends.1)
      obtain ⟨hcolumn, -⟩ := hnext.of_hidesCode hafter hends.1 hsound.level
      rcases carries_or_zero hends.1 hends.2 hcolumn with ⟨hcarries, hkeep⟩ | ⟨-, hzero⟩
      · exact Or.inr ⟨j, u, Nat.lt_succ_self j, hu, hcarries, hkeep⟩
      · exact Or.inl (hcleared hzero)
    · refine Or.inl (hnext.sound halign (fun hhides => ?_) hsound)
      rw [← Bool.not_eq_true]
      exact fun h => hends ⟨hhides, h⟩
  · have hne : u.pass.column ≠ 0 := by rw [hcolumn]; exact hcarries.inForce
    obtain ⟨next, hstep, hnext⟩ := hnext.exists_step
    rcases hnext with hnext | hzero
    · rcases hstep.column_or_zero halign hne with hkeep | hzero
      · exact Or.inr ⟨i, v, by omega, hv, hcarries, by rw [hnext, hkeep, hcolumn]⟩
      · exact Or.inl (hcleared (hnext.trans hzero))
    · exact Or.inl (hcleared hzero)

/-! ## Rows -/

/-- The statement has a row of its own, and this is the column in force there. -/
def Visit.AlignedAt (settings : Settings) (p : Program) (v : Visit) (column : Nat) : Prop :=
  ∃ behind, p.layout settings = v.pass.placed.reverse ++
    .row (v.pass.start.getD []) v.pass.indent column v.site.statement :: behind

theorem alignedAt_of_visit (halign : settings.alignAssignments = true) (hv : v ∈ p.visits settings)
    (hassign : 0 < p.assignmentColumn v.site.statement) :
    v.AlignedAt settings p (p.columnAt settings.splitComments v.pass.column v.site) := by
  obtain ⟨behind, hlayout⟩ := exists_layout_of_visit halign hv hassign
  rw [Visit.column, if_neg (by omega)] at hlayout
  exact ⟨behind, hlayout⟩

end

/-- **How far the column of a run goes past hidden code.**

    Let a remark that hides code be the first statement of its line, or let no remark share a row.
    Then the next assignment begins a run of its own, unless the remark carries a column and all
    statements up to the assignment hide code; if so, it has the column that was in force before.
    Only a column like this can be smaller than the column an assignment needs. -/
theorem Program.columns_past_hiddenCode (keywords : Keywords) (findAssignments : Bool)
    (image : Image) {p : Program} (hp : p = Program.ofImage keywords findAssignments image)
    {settings : Settings} (halign : settings.alignAssignments = true) :
    (∀ (i j : Nat) (v w : Visit), i < j →
      (p.visits settings)[i]? = some v → (p.visits settings)[j]? = some w →
      v.site.statement.hidesCode = true →
      (v.site.statement.opensLine = true ∨ settings.splitComments = true) →
      0 < p.assignmentColumn w.site.statement →
      (∀ k s, i < k → k < j → p.statements[k]? = some s → p.assignmentColumn s = 0) →
      (v.Carries settings p ∧ p.HidesBetween i j) ∧ w.AlignedAt settings p v.pass.column ∨
      ¬(v.Carries settings p ∧ p.HidesBetween i j) ∧
        w.AlignedAt settings p (p.runColumn settings.splitComments w.site)) ∧
    ∀ (j : Nat) (w : Visit), (p.visits settings)[j]? = some w →
      0 < p.assignmentColumn w.site.statement →
      ∃ column, w.AlignedAt settings p column ∧ (p.assignmentColumn w.site.statement ≤ column ∨
        ∃ (i : Nat) (v : Visit), i < j ∧ (p.visits settings)[i]? = some v ∧ v.Carries settings p ∧
          column = v.pass.column) := by
  have hlines : ∀ line ∈ p.lines, line.statements ≠ [] := by
    rw [hp]
    exact fun line h => ((scanLines_decodes image 0 0).standsIn line h).statements_ne_nil
  have hremarks := hp ▸ Program.remark_ofImage keywords findAssignments image
  have hkeep : ∀ {w : Visit} {column : Nat}, 0 < p.assignmentColumn w.site.statement →
      w.pass.column = column → column ≠ 0 →
      p.columnAt settings.splitComments w.pass.column w.site = column := by
    intro w column hassign hcolumn hne
    rw [columnAt, if_neg (by omega), hcolumn, if_neg hne]
  constructor
  · intro i j v w hij hv hw hcode hfirst hassign hbetween
    have haligned := alignedAt_of_visit halign (List.mem_of_getElem? hw) hassign
    have hends : p.endsRun settings.splitComments v.site.statement = true :=
      (endsRun_iff_of_hidesCode hcode).2 hfirst
    rcases column_past_hiddenCode hlines hremarks halign hv hcode hends hij hw hbetween with
      ⟨hcarried, hcolumn⟩ | ⟨hnot, hzero⟩
    · rw [hkeep hassign hcolumn hcarried.1.inForce] at haligned
      exact Or.inl ⟨hcarried, haligned⟩
    · rw [columnAt, if_neg (by omega), if_pos hzero] at haligned
      exact Or.inr ⟨hnot, haligned⟩
  · intro j w hw hassign
    refine ⟨_, alignedAt_of_visit halign (List.mem_of_getElem? hw) hassign, ?_⟩
    rcases sound_or_carried hlines hremarks halign hw with hsound | ⟨i, v, hij, hv, hcarries, heq⟩
    · exact Or.inl (le_columnAt hsound.fits)
    · exact Or.inr ⟨i, v, hij, hv, hcarries, hkeep hassign heq hcarries.inForce⟩

/-- A run that ends before the line with hidden code, and an assignment behind it. -/
def hiddenCodeBehindPrint : Image :=
  [0x0E, 0x08, 10, 0, 0x41, 0x42, 0x43, 0x44, 0xD0, 0x31, 0x3A, 0xBA, 0,
   0x16, 0x08, 20, 0, 0xB2, 0xEA, 0x60, 0,
   0x21, 0x08, 30, 0, 0x4C, 0x4F, 0x4E, 0x47, 0xD0, 0x33, 0, 0, 0]

theorem Program.columns_past_hiddenCode_behindPrint :
    let settings : Settings := {}
    let p := Program.ofImage .standard true hiddenCodeBehindPrint
    ∃ w, (p.visits settings)[3]? = some w ∧ p.assignmentColumn w.site.statement = 5 ∧
      w.AlignedAt settings p (p.runColumn settings.splitComments w.site) := by
  intro settings p
  have halign : settings.alignAssignments = true := rfl
  obtain ⟨v, hv, -⟩ := exists_visit settings
    (by decide +kernel : p.statements[2]? = some ⟨17, [0xB2, 0xEA, 0x60], .zero, true⟩)
  obtain ⟨w, hw, -⟩ := exists_visit settings
    (by decide +kernel : p.statements[3]? = some ⟨25, [0x4C, 0x4F, 0x4E, 0x47, 0xD0, 0x33], .zero,
      true⟩)
  have hremark : ∀ v ∈ (p.visits settings)[2]?, v.site.statement.hidesCode = true ∧
      v.site.statement.opensLine = true ∧ v.pass.column = 0 := by decide +kernel
  have hassign : ∀ w ∈ (p.visits settings)[3]?, p.assignmentColumn w.site.statement = 5 := by
    decide +kernel
  obtain ⟨hcode, hopens, hcolumn⟩ := hremark v hv
  have h := (columns_past_hiddenCode .standard true hiddenCodeBehindPrint (p := p) rfl halign).1
    2 3 v w (by decide) hv hw hcode (Or.inl hopens) (by rw [hassign w hw]; decide)
    (fun k s hk hk3 => by omega)
  exact ⟨w, hw, hassign w hw, (h.resolve_left fun hcarried => hcarried.1.1.inForce hcolumn).2⟩

/-- A run, a line with hidden code, and another run. -/
def hiddenCodeBetweenRuns : Image :=
  [0x0C, 0x08, 10, 0, 0x41, 0x42, 0x43, 0x44, 0xD0, 0x31, 0,
   0x14, 0x08, 20, 0, 0xB2, 0xEA, 0x60, 0,
   0x27, 0x08, 30, 0, 0x41, 0xD0, 0x32, 0x3A, 0x4C, 0x4F, 0x4E, 0x47, 0x4E, 0x41, 0x4D, 0x45, 0xD0,
   0x33, 0, 0, 0]

/-- The column of the first run is still in force in the second one, and does not fit its second
    assignment. -/
theorem Program.column_leftOver_hiddenCodeBetweenRuns :
    let settings : Settings := {}
    let p := Program.ofImage .standard true hiddenCodeBetweenRuns
    ∃ v w u, (p.visits settings)[1]? = some v ∧ (p.visits settings)[2]? = some w ∧
      (p.visits settings)[3]? = some u ∧ v.site.statement.hidesCode = true ∧
      v.site.statement.opensLine = true ∧ 0 < p.assignmentColumn w.site.statement ∧
      p.runColumn settings.splitComments w.site = 9 ∧ w.AlignedAt settings p 5 ∧
      p.assignmentColumn u.site.statement = 9 ∧ u.AlignedAt settings p 5 := by
  intro settings p
  have halign : settings.alignAssignments = true := rfl
  obtain ⟨v, hv, -⟩ := exists_visit settings
    (by decide +kernel : p.statements[1]? = some ⟨15, [0xB2, 0xEA, 0x60], .zero, true⟩)
  obtain ⟨w, hw, -⟩ := exists_visit settings
    (by decide +kernel : p.statements[2]? = some ⟨23, [0x41, 0xD0, 0x32], .colon, true⟩)
  obtain ⟨u, hu, -⟩ := exists_visit settings
    (by decide +kernel : p.statements[3]? = some ⟨27,
      [0x4C, 0x4F, 0x4E, 0x47, 0x4E, 0x41, 0x4D, 0x45, 0xD0, 0x33], .zero, false⟩)
  have hremark : ∀ v ∈ (p.visits settings)[1]?, v.site.statement.hidesCode = true ∧
      v.site.statement.opensLine = true := by decide +kernel
  have hfirst : ∀ w ∈ (p.visits settings)[2]?, 0 < p.assignmentColumn w.site.statement ∧
      p.runColumn settings.splitComments w.site = 9 ∧
      p.columnAt settings.splitComments w.pass.column w.site = 5 := by decide +kernel
  have hsecond : ∀ u ∈ (p.visits settings)[3]?, p.assignmentColumn u.site.statement = 9 ∧
      p.columnAt settings.splitComments u.pass.column u.site = 5 := by decide +kernel
  obtain ⟨hcode, hopens⟩ := hremark v hv
  obtain ⟨hassign, hrun, hcolumn⟩ := hfirst w hw
  obtain ⟨hassign', hcolumn'⟩ := hsecond u hu
  have haligned := alignedAt_of_visit halign (List.mem_of_getElem? hw) hassign
  have haligned' := alignedAt_of_visit halign (List.mem_of_getElem? hu) (by rw [hassign']; decide)
  rw [hcolumn] at haligned
  rw [hcolumn'] at haligned'
  exact ⟨v, w, u, hv, hw, hu, hcode, hopens, hassign, hrun, haligned, hassign', haligned'⟩

end BasicListing
