/-
  Loops that are properly nested are drawn nested.

  * `Nest`: the loops that are open, each with the index of its `FOR`.
  * `Program.IsNested`: each `NEXT` closes the innermost loops, and none is
    left open.
  * `nest_suffix`, `nest_between`: a loop that is open was open all the time
    since its `FOR`, inside the loops that were open there.
  * `follows_visits`: the pass keeps the loops of the nest, and indents by their
    number.
  * `Printer.loops_drawn_nested`: so the text of a `NEXT` stands below that of
    the `FOR`, and what is between them stands further to the right.
-/
import BasicListing.Proofs.Indentation

namespace BasicListing

/-! ## Nests -/

/-- Open loops, innermost first: the index of the `FOR` and its variable. -/
abbrev Nest := List (Nat × Text)

namespace Nest

/-- Close a loop for each of the variables, which have to name the innermost loops in order. -/
def closeNamed? : List Text → Nest → Option Nest
  | [], nest => some nest
  | v :: vs, (_, w) :: nest => if sameName v w then closeNamed? vs nest else none
  | _ :: _, [] => none

/-- The nest behind the statement with the given index. -/
def next? (index : Nat) (s : Statement) (nest : Nest) : Option Nest :=
  match s.openedVariable?, s.closedVariables? with
  | some v, _ => some ((index, v) :: nest)
  | none, some [] => nest.tail?
  | none, some vs => closeNamed? vs nest
  | none, none => some nest

/-- The nest behind some statements, of which the first has the given index. -/
def run? (index : Nat) (nest : Nest) : List Statement → Option Nest
  | [] => some nest
  | s :: ss => (next? index s nest).bind fun nest => run? (index + 1) nest ss

/-- What a statement can do to a nest. -/
inductive Next (index : Nat) (s : Statement) (nest : Nest) : Nest → Prop
  | opens (v : Text) : s.head = .forLoop → s.openedVariable? = some v →
      Next index s nest ((index, v) :: nest)
  | closes (vs : List Text) (closed rest : Nest) : s.head = .nextLoop →
      s.closedVariables? = some vs → nest = closed ++ rest → closed.length = max 1 vs.length →
      OpenLoops.close (nest.map Prod.snd) vs = rest.map Prod.snd → Next index s nest rest
  | neutral : s.head ≠ .forLoop → s.head ≠ .nextLoop → Next index s nest nest

theorem closeNamed?_spec {vs : List Text} {nest rest : Nest} (h : closeNamed? vs nest = some rest) :
    ∃ closed, nest = closed ++ rest ∧ closed.length = vs.length ∧
      vs.foldl OpenLoops.closeVariable (nest.map Prod.snd) = rest.map Prod.snd := by
  induction vs generalizing nest with
  | nil =>
    obtain rfl : nest = rest := Option.some.inj h
    exact ⟨[], rfl, rfl, rfl⟩
  | cons v vs ih =>
    cases nest with
    | nil => simp [closeNamed?] at h
    | cons loop nest =>
      rw [closeNamed?] at h
      split_ifs at h with hsame
      obtain ⟨closed, rfl, hlength, hloops⟩ := ih h
      refine ⟨loop :: closed, rfl, by simp [hlength], ?_⟩
      -- The variable names the innermost loop, so no other is closed on the way.
      have hclose : OpenLoops.closeVariable ((loop :: (closed ++ rest)).map Prod.snd) v =
          (closed ++ rest).map Prod.snd := by
        simp [OpenLoops.closeVariable, hsame]
      rw [List.foldl_cons, hclose, hloops]

theorem next_of_next? {index : Nat} {s : Statement} {nest nest' : Nest}
    (h : next? index s nest = some nest') : Next index s nest nest' := by
  by_cases hfor : s.head = .forLoop
  · obtain ⟨v, hv⟩ : ∃ v, s.openedVariable? = some v := by simp [Statement.openedVariable?, hfor]
    obtain rfl : (index, v) :: nest = nest' := by simpa [next?, hv] using h
    exact .opens v hfor hv
  have hopened : s.openedVariable? = none := by simp [Statement.openedVariable?, hfor]
  by_cases hnext : s.head = .nextLoop
  · obtain ⟨vs, hvs⟩ : ∃ vs, s.closedVariables? = some vs := by
      simp [Statement.closedVariables?, hnext]
    rw [next?, hopened, hvs] at h
    cases vs with
    | nil =>
      cases nest with
      | nil => simp at h
      | cons loop rest =>
        obtain rfl : rest = nest' := Option.some.inj h
        exact .closes [] [loop] rest hnext hvs rfl rfl rfl
    | cons v vs =>
      obtain ⟨closed, hnest, hlength, hloops⟩ := closeNamed?_spec h
      exact .closes (v :: vs) closed nest' hnext hvs hnest (by simp [hlength]) hloops
  · have hclosed : s.closedVariables? = none := by simp [Statement.closedVariables?, hnext]
    obtain rfl : nest = nest' := by simpa [next?, hopened, hclosed] using h
    exact .neutral hfor hnext

theorem run?_append (index : Nat) (nest : Nest) (ss ss' : List Statement) :
    run? index nest (ss ++ ss') =
      (run? index nest ss).bind fun nest' => run? (index + ss.length) nest' ss' := by
  induction ss generalizing index nest with
  | nil => rfl
  | cons s ss ih =>
    rw [List.cons_append, run?, run?, Option.bind_assoc]
    congr 1
    funext nest'
    rw [ih, List.length_cons, Nat.add_assoc, Nat.add_comm 1]

end Nest

/-! ## Nested programs -/

namespace Program

/-- The loops that are open before the statement with the given index. -/
def nestBefore (p : Program) (index : Nat) : Nest :=
  (Nest.run? 0 [] (p.statements.take index)).getD []

/-- Each `NEXT` closes the innermost loops, and no loop is left open. -/
def IsNested (p : Program) : Prop := Nest.run? 0 [] p.statements = some []

instance (p : Program) : Decidable p.IsNested := inferInstanceAs (Decidable (_ = _))

/-- The loops that the statement with the given index closes, innermost first: one for each of
    its variables, and one if it names none. -/
def closedBy (p : Program) (index : Nat) : Nest :=
  match (p.statements[index]?).bind Statement.closedVariables? with
  | some vs => (p.nestBefore index).take (max 1 vs.length)
  | none => []

variable {p : Program}

theorem run?_take (h : p.IsNested) (k : Nat) :
    Nest.run? 0 [] (p.statements.take k) = some (p.nestBefore k) := by
  rw [IsNested, ← List.take_append_drop k p.statements, Nest.run?_append] at h
  obtain ⟨nest, hnest, -⟩ := Option.bind_eq_some_iff.1 h
  rw [nestBefore, hnest, Option.getD_some]

theorem nestBefore_length (h : p.IsNested) : p.nestBefore p.statements.length = [] := by
  rw [nestBefore, List.take_length, h, Option.getD_some]

theorem nest_next (h : p.IsNested) {k : Nat} {s : Statement} (hs : p.statements[k]? = some s) :
    Nest.Next k s (p.nestBefore k) (p.nestBefore (k + 1)) := by
  obtain ⟨hk, -⟩ := List.getElem?_eq_some_iff.1 hs
  have hrun := run?_take h (k + 1)
  rw [List.take_add_one, hs, Nest.run?_append, run?_take h k, List.length_take,
    Nat.min_eq_left hk.le, Nat.zero_add] at hrun
  exact Nest.next_of_next? (by simpa [Nest.run?] using hrun)

theorem nest_beyond {k : Nat} (hs : p.statements[k]? = none) :
    p.nestBefore (k + 1) = p.nestBefore k := by
  rw [nestBefore, nestBefore, List.take_add_one, hs]
  simp

/-- What happens to a loop in one step: it is the one that is opened, or was open before. -/
theorem nest_step (h : p.IsNested) {k i : Nat} {w : Text} {below : Nest}
    (hopen : (i, w) :: below <:+ p.nestBefore (k + 1)) :
    (i, w) :: below <:+ p.nestBefore k ∨
      i = k ∧ below = p.nestBefore k ∧ ∃ s, p.statements[k]? = some s ∧ s.head = .forLoop := by
  cases hs : p.statements[k]? with
  | none =>
    rw [nest_beyond hs] at hopen
    exact Or.inl hopen
  | some s =>
    have hnext := nest_next h hs
    generalize p.nestBefore (k + 1) = after at hnext hopen
    cases hnext with
    | opens v hfor _ =>
      rcases List.suffix_cons_iff.1 hopen with heq | hsuffix
      · obtain ⟨hloop, rfl⟩ := List.cons.inj heq
        exact Or.inr ⟨congrArg Prod.fst hloop, rfl, s, rfl, hfor⟩
      · exact Or.inl hsuffix
    | closes vs closed rest _ _ hnest =>
      rw [hnest]
      exact Or.inl (hopen.trans (List.suffix_append _ _))
    | neutral => exact Or.inl hopen

/-- **A loop that is open stands inside those that were open at its `FOR`.** -/
theorem nest_suffix (h : p.IsNested) {k i : Nat} {w : Text} {below : Nest}
    (hopen : (i, w) :: below <:+ p.nestBefore k) :
    i < k ∧ below = p.nestBefore i ∧ ∃ s, p.statements[i]? = some s ∧ s.head = .forLoop := by
  induction k with
  | zero => simp [nestBefore, Nest.run?] at hopen
  | succ k ih =>
    rcases nest_step h hopen with hopen | ⟨rfl, hbelow, hs⟩
    · obtain ⟨hik, hbelow⟩ := ih hopen
      exact ⟨by omega, hbelow⟩
    · exact ⟨by omega, hbelow, hs⟩

/-- **A loop that is open has been open since its `FOR`.** -/
theorem nest_between (h : p.IsNested) {i j k : Nat} {w : Text} {below : Nest}
    (hopen : (i, w) :: below <:+ p.nestBefore j) (hik : i < k) (hkj : k ≤ j) :
    (i, w) :: below <:+ p.nestBefore k := by
  induction j, hkj using Nat.le_induction with
  | base => exact hopen
  | succ j hkj ih =>
    rcases nest_step h hopen with hopen | ⟨rfl, -⟩
    · exact ih hopen
    · omega

theorem exists_suffix_of_closedBy {j : Nat} {loop : Nat × Text} (hloop : loop ∈ p.closedBy j) :
    ∃ below, loop :: below <:+ p.nestBefore j := by
  unfold closedBy at hloop
  split at hloop
  · obtain ⟨inside, below, hnest⟩ := List.append_of_mem (List.mem_of_mem_take hloop)
    exact ⟨below, inside, hnest.symm⟩
  · simp at hloop

/-- A `NEXT` closes loops, and behind it those are left that the outermost of them stands in. -/
theorem getLast?_closedBy (h : p.IsNested) {j : Nat} {s : Statement}
    (hs : p.statements[j]? = some s) (hhead : s.head = .nextLoop) :
    ∃ i w, (p.closedBy j).getLast? = some (i, w) ∧
      (i, w) :: p.nestBefore (j + 1) <:+ p.nestBefore j := by
  have hnext := nest_next h hs
  generalize p.nestBefore (j + 1) = after at hnext
  cases hnext with
  | opens _ hfor => simp [hhead] at hfor
  | neutral _ hne => exact absurd hhead hne
  | closes vs closed rest _ hvs hnest hlength =>
    have hclosed : p.closedBy j = closed := by
      rw [closedBy, hs, Option.bind_some, hvs, hnest]
      exact List.take_left' hlength
    have hne : closed ≠ [] := by
      rintro rfl
      rw [List.length_nil] at hlength
      omega
    obtain ⟨inside, ⟨i, w⟩, rfl⟩ := (List.eq_nil_or_concat' closed).resolve_left hne
    refine ⟨i, w, by rw [hclosed, List.getLast?_concat], inside, ?_⟩
    rw [hnest, List.append_assoc]
    rfl

end Program

/-! ## The pass over a nested program -/

/-- The names of the loops in a nest are what the pass keeps. -/
theorem Nest.Next.behind_eq {index : Nat} {s : Statement} {nest nest' : Nest}
    (h : Nest.Next index s nest nest') :
    OpenLoops.behind (nest.map Prod.snd) s = nest'.map Prod.snd := by
  cases h with
  | opens v hfor hv =>
    rw [OpenLoops.behind, hv, OpenLoops.closing_of_head_ne (by simp [hfor])]
    rfl
  | closes vs closed rest hnext hvs _ _ hclose =>
    simp [OpenLoops.behind, OpenLoops.closing, Statement.openedVariable?, hnext, hvs, hclose]
  | neutral hfor hnext => exact OpenLoops.behind_of_head_ne hfor hnext _

namespace LinePass

variable {pass : LinePass} {index : Nat} {nest nest' : Nest}

/-- The row of a `NEXT` is indented like what follows, and any other like what stands before. -/
theorem indent_closeLoops (hlevel : pass.Level false) {s : Statement}
    (hnest : Nest.Next index s nest nest') (hloops : pass.loops = nest.map Prod.snd) :
    (pass.closeLoops s).indent = min nest.length nest'.length := by
  obtain ⟨hfloor, hindent⟩ := hlevel.atLoops rfl
  rw [hloops, List.length_map] at hindent
  cases hnest with
  | opens v hfor hv =>
    rw [closeLoops_of_head_ne (by simp [hfor]), hindent, List.length_cons]
    omega
  | closes vs closed rest hnext hvs hsplit _ hclose =>
    simp only [closeLoops, hvs, hfloor, hloops, hclose, List.length_map]
    rw [hsplit, List.length_append]
    omega
  | neutral hfor hnext =>
    rw [closeLoops_of_head_ne hnext, hindent, Nat.min_self]

end LinePass

/-- The pass comes to the statement with the given index at the depth of the nest before it. -/
structure Visit.Follows (p : Program) (index : Nat) (v : Visit) : Prop where
  unconditional : v.site.isConditional = false
  level : v.pass.Level false
  loops : v.pass.loops = (p.nestBefore index).map Prod.snd

section
variable {settings : Settings} {p : Program} {v w : Visit}

theorem Visit.Next.follows (h : Visit.Next settings p v w)
    (hif : v.site.statement.head ≠ .ifCondition) {k : Nat}
    (hnest : Nest.Next k v.site.statement (p.nestBefore k) (p.nestBefore (k + 1)))
    (hv : v.Follows p k) : w.Follows p (k + 1) := by
  have hunconditional := hv.unconditional
  have hled := Statement.isLedBy_eq_false_iff.2 hif
  have hloops : w.pass.loops = (p.nestBefore (k + 1)).map Prod.snd := by
    rw [h.loops_behind, hv.loops, hnest.behind_eq]
  cases h with
  | inLine line later conditional s s' after pass next hstep =>
    have hlevel := hstep.level (by rw [hunconditional]; exact hv.level)
    rw [hunconditional, hled] at hlevel
    exact ⟨by simp_all, hlevel, hloops⟩
  | newLine line line' later conditional s s' after pass next hs' hstep =>
    exact ⟨rfl, LinePass.Level.begin _ _, hloops⟩

/-- **The pass keeps the loops of the nest**, if no clause comes in between. -/
theorem follows_visits (hlines : ∀ line ∈ p.lines, line.statements ≠ [])
    (hif : ∀ s ∈ p.statements, s.head ≠ .ifCondition) (hnested : p.IsNested) {k : Nat}
    (hv : (p.visits settings)[k]? = some v) : v.Follows p k := by
  refine visits_induction (Q := fun k v => v.Follows p k) hlines ?_ ?_ hv
  · intro v hv
    obtain ⟨start, hpass, hunconditional⟩ := pass_first_visit hlines hv
    refine ⟨hunconditional, ?_, ?_⟩
    · rw [hpass]
      exact LinePass.Level.begin _ _
    · rw [hpass]
      rfl
  · intro k v w hv hnext ih _
    have hs := statement_visit hv
    exact hnext.follows (hif _ (List.mem_of_getElem? hs)) (Program.nest_next hnested hs) ih

theorem loops_pass (hlines : ∀ line ∈ p.lines, line.statements ≠ [])
    (hif : ∀ s ∈ p.statements, s.head ≠ .ifCondition) (hnested : p.IsNested) :
    (p.pass settings).loops = [] := by
  have hlength : (p.visits settings).length = p.statements.length := by
    rw [← map_statement_visits settings, List.length_map]
  cases hlast : (p.visits settings).getLast? with
  | none =>
    rw [List.getLast?_eq_none_iff] at hlast
    have hp : p.lines = [] := by
      cases hp : p.lines with
      | nil => rfl
      | cons line lines =>
        have hempty : p.statements = [] := by rw [← map_statement_visits settings, hlast]; rfl
        rw [Program.statements, hp, List.flatMap_cons, List.append_eq_nil_iff] at hempty
        exact absurd hempty.1 (hlines line (by simp [hp]))
    rw [Program.pass, hp]
    rfl
  | some v =>
    rw [List.getLast?_eq_getElem?] at hlast
    obtain ⟨hk, -⟩ := List.getElem?_eq_some_iff.1 hlast
    have hs := statement_visit hlast
    have hloops := (v.pass.step_step settings p v.site).loops_behind
    rw [(follows_visits hlines hif hnested hlast).loops, (Program.nest_next hnested hs).behind_eq,
      Nat.sub_add_cancel (by omega), hlength, Program.nestBefore_length hnested] at hloops
    rw [pass_last_visit hlines (List.getLast?_eq_getElem?.trans hlast)]
    exact hloops

/-! ## Columns -/

/-- How far a statement with a row is indented. -/
theorem indent_of_visit (hlines : ∀ line ∈ p.lines, line.statements ≠ [])
    (hif : ∀ s ∈ p.statements, s.head ≠ .ifCondition) (hnested : p.IsNested) {k : Nat}
    (hv : (p.visits settings)[k]? = some v) :
    (v.pass.closeLoops v.site.statement).indent =
      min (p.nestBefore k).length (p.nestBefore (k + 1)).length :=
  have hfollows := follows_visits hlines hif hnested hv
  LinePass.indent_closeLoops hfollows.level (Program.nest_next hnested (statement_visit hv))
    hfollows.loops

theorem le_textColumn (settings : Settings) (v : Visit) :
    2 * (v.pass.closeLoops v.site.statement).indent + settings.textColumn ≤
      v.textColumn settings :=
  Nat.le_max_left _ _

/-- A `FOR` or a `NEXT` has a row of its own, and nothing moves its text to the right. -/
theorem loop_row (hv : v ∈ p.visits settings)
    (hloop : v.site.statement.head = .forLoop ∨ v.site.statement.head = .nextLoop) :
    v.HasRow settings ∧ v.textColumn settings =
      2 * (v.pass.closeLoops v.site.statement).indent + settings.textColumn := by
  have hrow : v.HasRow settings := by
    rcases hloop with h | h <;> exact Visit.hasRow_of_isToken (by rw [h]; rfl) (by simp [h])
  refine ⟨hrow, ?_⟩
  obtain ⟨column, hplacement⟩ := placement?_of_hasRow (p := p) hrow
  obtain ⟨behind, hlayout⟩ := layout_of_visit hv hplacement
  have hstart : IsRowStart settings p (v.pass.start.getD []) :=
    (row_of_mem_layout (hlayout ▸ List.mem_append_right _ List.mem_cons_self)).1
  have hmark : branchMark settings v.site.statement = [] := by
    rcases hloop with h | h <;> simp [branchMark, Statement.branch?, h, Token.isDigit]
  have hwidth := hstart.width_le
  rw [Visit.textColumn, hmark, List.append_nil]
  omega

end

/-- **Properly nested loops are drawn nested.**

    For each statement with a row there is a column at which its text begins.  It is the same for a
    `NEXT` and the outermost `FOR` that it closes, and what stands between a `FOR` and the `NEXT`
    that closes it begins at least two columns further to the right. -/
theorem Printer.loops_drawn_nested (printer : Printer) (name : Text) (findAssignments : Bool)
    (image : Image) {p : Program} (hp : p = Program.ofImage .standard findAssignments image)
    (hif : ∀ s ∈ p.statements, s.head ≠ .ifCondition) (hnested : p.IsNested) :
    ∃ (text : Text) (column : Nat → Nat), printer.textOf? name p = some text ∧
      (∀ k v, (p.visits printer.settings)[k]? = some v → v.HasRow printer.settings →
        p.StartsAt printer name text k (column k)) ∧
      (∀ j s, p.statements[j]? = some s → s.head = .nextLoop →
        ∃ i w, (p.closedBy j).getLast? = some (i, w) ∧
          p.StartsAt printer name text i (column i) ∧ p.StartsAt printer name text j (column j) ∧
          column j = column i) ∧
      (∀ j, ∀ loop ∈ p.closedBy j, p.StartsAt printer name text loop.1 (column loop.1) ∧
        ∀ k v, loop.1 < k → k < j → (p.visits printer.settings)[k]? = some v →
          v.HasRow printer.settings → column loop.1 + 2 ≤ column k) ∧
      (p.pass printer.settings).loops = [] := by
  have hkeywords : p.keywords = .standard := by rw [hp]; rfl
  have hlines : ∀ line ∈ p.lines, line.statements ≠ [] := by
    rw [hp]
    exact fun line h => ((scanLines_decodes image 0 0).standsIn line h).statements_ne_nil
  obtain ⟨rows, hrows⟩ := exists_rows?_of_ascii (hkeywords ▸ Keywords.ascii_standard)
    printer.settings printer.disassembler
  let column : Nat → Nat := fun k =>
    ((p.visits printer.settings)[k]?.map (Visit.textColumn printer.settings)).getD 0
  have hcolumn : ∀ {k v}, (p.visits printer.settings)[k]? = some v →
      column k = v.textColumn printer.settings := fun hv => by simp [column, hv]
  have hstarts : ∀ k v, (p.visits printer.settings)[k]? = some v → v.HasRow printer.settings →
      p.StartsAt printer name (Text.ofRows (printer.header name p.image ++ rows)) k (column k) := by
    intro k v hv hrow
    rw [hcolumn hv]
    exact startsAt_of_visit hkeywords hrows name hv hrow
  -- The `FOR` of an open loop is indented by the loops that it stands in.
  have hfor : ∀ {i w below k}, (i, w) :: below <:+ p.nestBefore k →
      p.StartsAt printer name (Text.ofRows (printer.header name p.image ++ rows)) i (column i) ∧
        column i = 2 * below.length + printer.settings.textColumn := by
    intro i w below k hopen
    obtain ⟨hik, hbelow, s, hs, hhead⟩ := Program.nest_suffix hnested hopen
    obtain ⟨v, hv, rfl⟩ := exists_visit printer.settings hs
    obtain ⟨hrow, htext⟩ := loop_row (List.mem_of_getElem? hv) (Or.inl hhead)
    have hlength := (Program.nest_between hnested hopen (Nat.lt_add_one i) hik).length_le
    rw [List.length_cons] at hlength
    refine ⟨hstarts i v hv hrow, ?_⟩
    rw [hcolumn hv, htext, indent_of_visit hlines hif hnested hv, ← hbelow]
    omega
  refine ⟨_, column, by rw [textOf?, hrows]; rfl, hstarts, ?_, ?_, loops_pass hlines hif hnested⟩
  · intro j s hs hhead
    obtain ⟨i, w, hlast, hopen⟩ := Program.getLast?_closedBy hnested hs hhead
    obtain ⟨hstart, heq⟩ := hfor hopen
    obtain ⟨v, hv, rfl⟩ := exists_visit printer.settings hs
    obtain ⟨hrow, htext⟩ := loop_row (List.mem_of_getElem? hv) (Or.inr hhead)
    refine ⟨i, w, hlast, hstart, hstarts j v hv hrow, ?_⟩
    have hlength := hopen.length_le
    rw [List.length_cons] at hlength
    rw [hcolumn hv, htext, indent_of_visit hlines hif hnested hv, heq]
    omega
  · rintro j ⟨i, w⟩ hloop
    obtain ⟨below, hopen⟩ := Program.exists_suffix_of_closedBy hloop
    obtain ⟨hstart, heq⟩ := hfor hopen
    refine ⟨hstart, fun k v hik hkj hv _ => ?_⟩
    -- The loop is open on both sides of the statement.
    have hbefore := (Program.nest_between hnested hopen hik hkj.le).length_le
    have hafter := (Program.nest_between hnested hopen (Nat.lt_add_right 1 hik) hkj).length_le
    have hle := le_textColumn printer.settings v
    rw [List.length_cons] at hbefore hafter
    rw [indent_of_visit hlines hif hnested hv] at hle
    change column i + 2 ≤ column k
    rw [heq, hcolumn hv]
    omega

/-- Two loops that one `NEXT` closes, and one with a remark behind its `FOR`. -/
def nestedLoops : Image :=
  [0x13, 0x08, 10, 0, 0x81, 0x49, 0xD0, 0x31, 0xC1, 0x33, 0x3A, 0x81, 0x4A, 0xD0, 0x31, 0xC1, 0x32,
   0,
   0x1A, 0x08, 20, 0, 0xBA, 0x49, 0,
   0x23, 0x08, 30, 0, 0x82, 0x4A, 0x2C, 0x49, 0,
   0x31, 0x08, 40, 0, 0x81, 0x4B, 0xD0, 0x31, 0xC1, 0x32, 0x3A, 0xB2, 0x58, 0,
   0x37, 0x08, 50, 0, 0x82, 0, 0, 0]

theorem Printer.loops_drawn_nested_nestedLoops :
    let printer : Printer := {}
    let p := printer.program nestedLoops
    p.IsNested ∧ ∃ (text : Text) (column : Nat → Nat), printer.listing? [] nestedLoops = some text ∧
      p.StartsAt printer [] text 0 (column 0) ∧ p.StartsAt printer [] text 2 (column 2) ∧
      p.StartsAt printer [] text 3 (column 3) ∧ column 3 = column 0 ∧ column 0 + 2 ≤ column 2 ∧
      (p.pass printer.settings).loops = [] := by
  intro printer p
  have hnested : p.IsNested := by decide +kernel
  have hif : ∀ s ∈ p.statements, s.head ≠ .ifCondition := by decide +kernel
  have hprint : p.statements[2]? = some ⟨22, [0xBA, 0x49], .zero, true⟩ := by decide +kernel
  have hnext : p.statements[3]? = some ⟨29, [0x82, 0x4A, 0x2C, 0x49], .zero, true⟩ := by
    decide +kernel
  have hclosed : p.closedBy 3 = [(1, ['J']), (0, ['I'])] := by decide +kernel
  obtain ⟨text, column, htext, hstarts, hcloses, hinside, hloops⟩ :=
    loops_drawn_nested printer [] true nestedLoops (p := p) rfl hif hnested
  obtain ⟨v, hv, hs⟩ := exists_visit printer.settings hprint
  have hrow : v.HasRow printer.settings := by
    refine ⟨by rw [hs]; decide, by rw [hs]; decide, ?_⟩
    rw [LinePass.joins, hs]
    rfl
  obtain ⟨i, w, hlast, hfor, hstart, heq⟩ := hcloses 3 _ hnext (by decide)
  obtain ⟨rfl, rfl⟩ : 0 = i ∧ ['I'] = w := by simpa [hclosed] using hlast
  exact ⟨hnested, text, column, htext, hfor, hstarts 2 v hv hrow, hstart, heq,
    (hinside 3 (0, ['I']) (by simp [hclosed])).2 2 v (by decide) (by decide) hv hrow, hloops⟩

end BasicListing
