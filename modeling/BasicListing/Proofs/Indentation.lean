/-
  How far statements are indented.

  * `Program.loopsBefore`: the loops that are open before a statement, told by
    the statements before it alone.  The pass keeps them, whatever the settings
    and however the statements are divided into lines (`visits_loops`).
  * `Visit.indent`: the indentation that the pass gives to a statement.
  * `LinePass.Inside`: the pass is inside the clause of an `IF`.  No step leads
    out of it (`LinePass.Step.inside`), and so nothing on a line does.
  * `Program.indent_follows_loops_and_clauses`: statements are indented by the
    loops around them, and on a line with an `IF` further than that `IF`.
-/
import BasicListing.Proofs.Positions

namespace BasicListing

/-! ## Open loops -/

namespace OpenLoops

/-- The loops that are still open when a statement has closed its own. -/
def closing (loops : OpenLoops) (s : Statement) : OpenLoops :=
  match s.closedVariables? with
  | some vs => loops.close vs
  | none => loops

/-- The loops that are open behind a statement. -/
def behind (loops : OpenLoops) (s : Statement) : OpenLoops :=
  match s.openedVariable? with
  | some v => v :: loops.closing s
  | none => loops.closing s

theorem closing_of_head_ne {s : Statement} (hnext : s.head ≠ .nextLoop) (loops : OpenLoops) :
    loops.closing s = loops := by
  simp [closing, Statement.closedVariables?, hnext]

theorem behind_of_head_ne {s : Statement} (hfor : s.head ≠ .forLoop) (hnext : s.head ≠ .nextLoop)
    (loops : OpenLoops) : loops.behind s = loops := by
  simp [behind, closing_of_head_ne hnext, Statement.openedVariable?, hfor]

end OpenLoops

/-- The loops that are open before the statement with the given index. -/
def Program.loopsBefore (p : Program) (index : Nat) : OpenLoops :=
  (p.statements.take index).foldl OpenLoops.behind []

theorem Program.loopsBefore_succ {p : Program} {k : Nat} {s : Statement}
    (hs : p.statements[k]? = some s) : p.loopsBefore (k + 1) = (p.loopsBefore k).behind s := by
  rw [loopsBefore, List.take_add_one, hs, List.foldl_append]
  rfl

namespace LinePass

variable {settings : Settings} {p : Program} {pass next : LinePass} {site : Site}

theorem loops_closeLoops (pass : LinePass) (s : Statement) :
    (pass.closeLoops s).loops = pass.loops.closing s := by
  unfold closeLoops OpenLoops.closing
  cases s.closedVariables? <;> rfl

theorem loops_openBlock (pass : LinePass) (s : Statement) :
    (pass.openBlock s).loops = s.openedVariable?.toList ++ pass.loops := by
  by_cases hif : s.head = .ifCondition
  · simp [openBlock, Statement.openedVariable?, hif]
  · unfold openBlock
    split
    · exact absurd ‹_› hif
    · rw [‹s.openedVariable? = some _›]
      rfl
    · rw [‹s.openedVariable? = none›]
      rfl

/-- **A step opens and closes the loops of its statement**, and no others. -/
theorem Step.loops_behind (h : Step settings p pass site next) :
    next.loops = pass.loops.behind site.statement := by
  cases h with
  | skip hempty =>
    rcases Statement.head_of_isEmpty hempty with h | h <;>
      rw [OpenLoops.behind_of_head_ne (by simp [h]) (by simp [h])]
  | code _ hcode =>
    have hremark := Statement.head_of_hidesCode hcode
    rw [OpenLoops.behind_of_head_ne (by simp [hremark]) (by simp [hremark])]
    rfl
  | join _ _ hjoins =>
    simp only [joins, Bool.and_eq_true] at hjoins
    have hremark := Statement.head_of_isJoinable hjoins.1.2
    rw [OpenLoops.behind_of_head_ne (by simp [hremark]) (by simp [hremark])]
    rfl
  | row _ _ _ ready hready =>
    have hloops : ready.loops = pass.loops.closing site.statement := by
      rw [← hready, loops_alignAt, loops_closeLoops]
    rw [loops_openBlock, OpenLoops.behind, ← hloops]
    cases site.statement.openedVariable? <;> rfl

end LinePass

section
variable {settings : Settings} {p : Program} {v w : Visit}

theorem Visit.Next.loops_behind (h : Visit.Next settings p v w) :
    w.pass.loops = v.pass.loops.behind v.site.statement := by
  cases h with
  | inLine line later conditional s s' after pass next hstep => exact hstep.loops_behind
  | newLine line line' later conditional s s' after pass next hs' hstep => exact hstep.loops_behind

/-- **The pass keeps the open loops**, whatever the settings and across all lines. -/
theorem visits_loops (hlines : ∀ line ∈ p.lines, line.statements ≠ []) {k : Nat}
    (hv : (p.visits settings)[k]? = some v) : v.pass.loops = p.loopsBefore k := by
  refine visits_induction (Q := fun k v => v.pass.loops = p.loopsBefore k) hlines ?_ ?_ hv
  · intro v hv
    obtain ⟨start, hpass, -⟩ := pass_first_visit hlines hv
    rw [hpass]
    rfl
  · intro k v w hv hnext ih _
    rw [hnext.loops_behind, ih, Program.loopsBefore_succ (statement_visit hv)]

end

/-! ## Clauses -/

namespace LinePass

variable {settings : Settings} {p : Program} {pass next : LinePass} {site : Site} {n : Nat}

/-- The pass is inside the clause of an `IF` that is indented by `n`. -/
structure Inside (n : Nat) (pass : LinePass) : Prop where
  lt_floor : n < pass.floor
  floor_le : pass.floor ≤ pass.indent

theorem Inside.closeLoops (h : pass.Inside n) (s : Statement) : (pass.closeLoops s).Inside n := by
  unfold LinePass.closeLoops
  split
  · exact ⟨h.lt_floor, Nat.le_max_left _ _⟩
  · exact h

theorem Inside.openBlock (h : pass.Inside n) (s : Statement) : (pass.openBlock s).Inside n := by
  have hfloor := h.lt_floor
  have hindent := h.floor_le
  unfold LinePass.openBlock
  split
  · refine ⟨?_, Nat.le_refl _⟩
    change n < pass.indent + 1
    omega
  · exact ⟨hfloor, Nat.le_succ_of_le hindent⟩
  · exact h

/-- **No step leads out of a clause.** -/
theorem Step.inside (h : Step settings p pass site next) (hpass : pass.Inside n) :
    next.Inside n := by
  cases h with
  | skip => exact ⟨hpass.lt_floor, hpass.floor_le⟩
  | code => exact ⟨hpass.lt_floor, hpass.floor_le⟩
  | join => exact ⟨hpass.lt_floor, hpass.floor_le⟩
  | row _ _ _ ready hready =>
    have hclosed := hpass.closeLoops site.statement
    have hplaced : (ready.place (.row · ready.indent ready.column site.statement)).Inside n := by
      subst hready
      exact ⟨by simpa [place] using hclosed.lt_floor, by simpa [place] using hclosed.floor_le⟩
    exact hplaced.openBlock site.statement

/-- Behind an `IF` the pass is inside its clause. -/
theorem Step.inside_of_if (h : Step settings p pass site next)
    (hif : site.statement.head = .ifCondition) : next.Inside pass.indent := by
  cases h with
  | skip hempty => rcases Statement.head_of_isEmpty hempty with h | h <;> simp [h] at hif
  | code _ hcode => simp [Statement.head_of_hidesCode hcode] at hif
  | join _ _ hjoins =>
    simp only [joins, Bool.and_eq_true] at hjoins
    simp [Statement.head_of_isJoinable hjoins.1.2] at hif
  | row _ _ _ ready hready =>
    have hindent : ready.indent = pass.indent := by
      rw [← hready, indent_alignAt, closeLoops_of_head_ne (by simp [hif])]
    constructor <;> simp [openBlock, hif, place, hindent]

end LinePass

/-! ## Indentation -/

/-- How far a statement is indented: a `NEXT` has closed its loops then. -/
def Visit.indent (v : Visit) : Nat := (v.pass.closeLoops v.site.statement).indent

section
variable {settings : Settings} {p : Program} {u v w : Visit} {n : Nat}

theorem Visit.indent_of_if (hif : v.site.statement.head = .ifCondition) :
    v.indent = v.pass.indent := by
  rw [Visit.indent, LinePass.closeLoops_of_head_ne (by simp [hif])]

theorem Visit.lt_indent (h : v.pass.Inside n) : n < v.indent :=
  (h.closeLoops v.site.statement).lt_floor.trans_le (h.closeLoops v.site.statement).floor_le

theorem Visit.Next.step_inLine (h : Visit.Next settings p v w) (hafter : v.site.after ≠ []) :
    LinePass.Step settings p v.pass v.site w.pass := by
  cases h with
  | inLine line later conditional s s' after pass next hstep => exact hstep
  | newLine => exact absurd rfl hafter

/-- From an `IF` to the end of its line, the pass is inside the clause. -/
theorem inside_of_range (hlines : ∀ line ∈ p.lines, line.statements ≠ []) {r : Nat × Nat}
    (hr : r ∈ p.ranges) {i m : Nat} (hi : r.1 ≤ i) (hm : i + m + 1 < r.2)
    (hu : (p.visits settings)[i]? = some u) (hif : u.site.statement.head = .ifCondition)
    (hw : (p.visits settings)[i + m + 1]? = some w) : w.pass.Inside u.indent := by
  -- Not at the end of the line, the next statement is one of the same line.
  have hstep : ∀ {k v w}, r.1 ≤ k → k + 1 < r.2 → (p.visits settings)[k]? = some v →
      (p.visits settings)[k + 1]? = some w →
      LinePass.Step settings p v.pass v.site w.pass := by
    intro k v w hk hk' hv hw
    have hafter := (visit_of_range hr ⟨hk, by omega⟩ hv).1
    refine (next_visit hlines hv hw).step_inLine (List.length_pos_iff.1 ?_)
    omega
  induction m generalizing w with
  | zero =>
    rw [Visit.indent_of_if hif]
    exact (hstep hi hm hu hw).inside_of_if hif
  | succ m ih =>
    obtain ⟨hlt, -⟩ := List.getElem?_eq_some_iff.1 hw
    obtain ⟨v, hv⟩ : ∃ v, (p.visits settings)[i + m + 1]? = some v :=
      ⟨_, List.getElem?_eq_getElem (by omega)⟩
    exact (hstep (by omega) hm hv hw).inside (ih (by omega) hv)

/-- Without an `IF` before it in its line, a statement is indented by the open loops. -/
theorem indent_of_range (hlines : ∀ line ∈ p.lines, line.statements ≠ []) {r : Nat × Nat}
    (hr : r ∈ p.ranges) {k : Nat} (hk : r.1 ≤ k ∧ k < r.2)
    (hv : (p.visits settings)[k]? = some v)
    (hif : ∀ i s, r.1 ≤ i → i < k → p.statements[i]? = some s → s.head ≠ .ifCondition) :
    v.indent = ((p.loopsBefore k).closing v.site.statement).length := by
  have hunconditional : v.site.isConditional = false := by
    rw [← Bool.not_eq_true]
    intro hconditional
    obtain ⟨i, s, hi, hik, hs, hled⟩ := (visit_of_range hr hk hv).2 hconditional
    exact hif i s hi hik hs (Statement.isLedBy_iff.1 hled)
  have hlevel := (visits_level hlines hv).closeLoops v.site.statement
  rw [Visit.indent, (hlevel.atLoops hunconditional).2, LinePass.loops_closeLoops,
    visits_loops hlines hv]

end

/-- **Statements are indented by the loops and clauses around them.**

    The pass comes to each statement of each line, here the one with index `k` in a line whose
    statements have the indices from `r.1` to below `r.2`, with the loops that the statements before
    it leave open.  Its row, if it has one, has the indentation of the visit.

    * Without an `IF` before it in its line, it is indented by the number of the loops that are open
      when it has closed its own.
    * It is indented further than each `IF` before it in its line.
    * The first statement of each line is indented by the open loops alone. -/
theorem Program.indent_follows_loops_and_clauses (keywords : Keywords) (findAssignments : Bool)
    (image : Image) (settings : Settings) :
    let p := Program.ofImage keywords findAssignments image
    ∀ r ∈ p.ranges, ∀ k, r.1 ≤ k → k < r.2 →
      ∃ v, (p.visits settings)[k]? = some v ∧ p.statements[k]? = some v.site.statement ∧
        v.pass.loops = p.loopsBefore k ∧
        (v.HasRow settings → ∃ start column behind, p.layout settings =
          v.pass.placed.reverse ++ .row start v.indent column v.site.statement :: behind) ∧
        ((∀ i s, r.1 ≤ i → i < k → p.statements[i]? = some s → s.head ≠ .ifCondition) →
          v.indent = ((p.loopsBefore k).closing v.site.statement).length) ∧
        (∀ i u, r.1 ≤ i → i < k → (p.visits settings)[i]? = some u →
          u.site.statement.head = .ifCondition → u.HasRow settings ∧ u.indent < v.indent) ∧
        (k = r.1 → v.indent = ((p.loopsBefore k).closing v.site.statement).length) := by
  intro p r hr k hk hkr
  have hlines : ∀ line ∈ p.lines, line.statements ≠ [] := fun line h =>
    ((scanLines_decodes image 0 0).standsIn line h).statements_ne_nil
  obtain ⟨s, hs⟩ : ∃ s, p.statements[k]? = some s := by
    have hbounds := ((tiles_rangesFrom 0 p.lines).bounds hr).2
    have hend : r.1 + (r.2 - r.1) ≤ 0 + p.statements.length := hbounds
    exact ⟨_, List.getElem?_eq_getElem (by omega)⟩
  obtain ⟨v, hv, rfl⟩ := exists_visit settings hs
  refine ⟨v, hv, hs, visits_loops hlines hv, ?_, indent_of_range hlines hr ⟨hk, hkr⟩ hv, ?_, ?_⟩
  · intro hrow
    obtain ⟨column, hplacement⟩ := placement?_of_hasRow (p := p) hrow
    obtain ⟨behind, hlayout⟩ := layout_of_visit (List.mem_of_getElem? hv) hplacement
    exact ⟨_, column, behind, hlayout⟩
  · intro i u hi hik hu hif
    obtain ⟨m, rfl⟩ : ∃ m, k = i + m + 1 := ⟨k - i - 1, by omega⟩
    exact ⟨Visit.hasRow_of_isToken (by rw [hif]; rfl) (by simp [hif]),
      Visit.lt_indent (inside_of_range hlines hr hi hkr hu hif hv)⟩
  · rintro rfl
    exact indent_of_range hlines hr ⟨hk, hkr⟩ hv fun i s hi hik => by omega

/-- A loop, then a line with a loop between two clauses in which a `NEXT` closes both loops, and a
    line behind it. -/
def loopInClauses : Image :=
  [0x0C, 0x08, 10, 0, 0x81, 0x49, 0xD0, 0x31, 0xC1, 0x33, 0,
   0x25, 0x08, 20, 0, 0xAD, 0x49, 0xC4, 0x81, 0x4A, 0xD0, 0x31, 0xC1, 0x32, 0x3A, 0xAD, 0x4A, 0xC4,
   0x82, 0x4A, 0x2C, 0x49, 0x3A, 0xBA, 0x4A, 0,
   0x2B, 0x08, 30, 0, 0xBA, 0, 0, 0]

theorem Program.indent_follows_loops_and_clauses_loopInClauses :
    let p := Program.ofImage .standard true loopInClauses
    p.ranges = [(0, 1), (1, 6), (6, 7)] ∧
    ∃ u v w : Visit, (p.visits {})[1]? = some u ∧ u.site.statement.head = .ifCondition ∧
      (p.visits {})[4]? = some v ∧ v.site.statement.head = .nextLoop ∧
      (p.visits {})[6]? = some w ∧
      u.indent = 1 ∧ v.pass.loops = [['J'], ['I']] ∧ u.indent < v.indent ∧ w.indent = 0 := by
  intro p
  have hranges : p.ranges = [(0, 1), (1, 6), (6, 7)] := by decide +kernel
  have hheads : p.statements.map Statement.head =
      [.forLoop, .ifCondition, .forLoop, .ifCondition, .nextLoop, .print, .print] := by
    decide +kernel
  have hloops : p.loopsBefore 1 = [['I']] ∧ p.loopsBefore 4 = [['J'], ['I']] ∧
      p.loopsBefore 6 = [] := by
    decide +kernel
  have hhead : ∀ {k : Nat} {s : Statement}, p.statements[k]? = some s →
      (p.statements.map Statement.head)[k]? = some s.head := by
    intro k s hs
    rw [List.getElem?_map, hs]
    rfl
  have hindents := indent_follows_loops_and_clauses .standard true loopInClauses {}
  obtain ⟨u, hu, hus, -, -, -, -, hfirst⟩ := hindents (1, 6) (by simp [p, hranges]) 1 (by decide)
    (by decide)
  obtain ⟨v, hv, hvs, hopen, -, -, hclause, -⟩ := hindents (1, 6) (by simp [p, hranges]) 4
    (by decide) (by decide)
  obtain ⟨w, hw, hws, -, -, hunconditional, -, -⟩ := hindents (6, 7) (by simp [p, hranges]) 6
    (by decide) (by decide)
  have huhead : .ifCondition = u.site.statement.head := by simpa [hheads] using hhead hus
  have hvhead : .nextLoop = v.site.statement.head := by simpa [hheads] using hhead hvs
  have hwhead : .print = w.site.statement.head := by simpa [hheads] using hhead hws
  refine ⟨hranges, u, v, w, hu, huhead.symm, hv, hvhead.symm, hw, ?_, hopen.trans hloops.2.1,
    (hclause 1 u (by decide) (by decide) hu huhead.symm).2, ?_⟩
  · rw [hfirst rfl, OpenLoops.closing_of_head_ne (by simp [← huhead]), hloops.1]
    rfl
  · rw [hunconditional fun i s hi hik => by omega,
      OpenLoops.closing_of_head_ne (by simp [← hwhead]), hloops.2.2]
    rfl

end BasicListing
