/-
  Places, line by line.

  * `LinePass.placement?`: the place that a step gives, if it gives one.
  * `placementsOfLine`, `placementsFrom`: the places of a line and of each of
    some lines.  Those of all lines make up the layout (`layout_eq_flatMap`), and
    each visit finds its own there (`layout_of_visit`).
  * `Program.rowsOf?`: the rows that some places are written to.  Places that
    begin a row of their own leave all rows above them alone
    (`write?_append`), so each line is written by itself (`rowsOf?_groups`).
-/
import BasicListing.Proofs.Writing
import Mathlib.Data.List.Forall2

namespace BasicListing

/-! ## The places that steps give -/

namespace LinePass

/-- The place that a step gives to the statement at a site. -/
def placement? (settings : Settings) (p : Program) (pass : LinePass) (site : Site) :
    Option Placement :=
  if site.statement.isEmpty then none
  else if site.statement.hidesCode then some (.code (pass.start.getD []) site.statement)
  else if pass.joins settings site.statement then some (.joined site.statement)
  else
    let ready := (pass.closeLoops site.statement).alignAt settings p site
    some (.row (pass.start.getD []) ready.indent ready.column site.statement)

variable {settings : Settings} {p : Program} {pass next : LinePass} {site : Site}

theorem Step.placed_eq (h : Step settings p pass site next) :
    next.placed = (pass.placement? settings p site).toList ++ pass.placed := by
  unfold placement?
  cases h with
  | skip hempty => rw [if_pos hempty]; rfl
  | code hshown hcode => rw [if_neg (by simp [hshown]), if_pos hcode]; rfl
  | join hshown hcode hjoins =>
    rw [if_neg (by simp [hshown]), if_neg (by simp [hcode]), if_pos hjoins]; rfl
  | row hshown hcode hjoins ready hready =>
    rw [if_neg (by simp [hshown]), if_neg (by simp [hcode]), if_neg (by simp [hjoins])]
    subst hready
    simp [place]

end LinePass

/-- The places of a line whose sites are still to come, if the pass comes to them in the given
    state.  A line without anything to show has a place at its end. -/
def placementsOfLine (settings : Settings) (p : Program) : LinePass → List Site → List Placement
  | pass, [] => (pass.start.map Placement.bare).toList
  | pass, site :: sites =>
    (pass.placement? settings p site).toList ++
      placementsOfLine settings p (pass.step settings p site) sites

/-- Each of some lines with its places, if the pass comes to the first of them in the given
    state. -/
def placementsFrom (settings : Settings) (p : Program) :
    Pass → List (Line × List Site) → List (Line × List Placement)
  | _, [] => []
  | pass, line :: lines =>
    (line.1, placementsOfLine settings p
      (.begin pass (rowStart settings p.targets line.1)) line.2) ::
        placementsFrom settings p (pass.placeLine settings p p.targets line) lines

section
variable {settings : Settings} {p : Program}

theorem placed_finish_foldl (settings : Settings) (p : Program) (pass : LinePass)
    (sites : List Site) :
    (sites.foldl (LinePass.step settings p) pass).finish.placed =
      (placementsOfLine settings p pass sites).reverse ++ pass.placed := by
  induction sites generalizing pass with
  | nil =>
    rw [List.foldl_nil, placementsOfLine, LinePass.finish]
    cases pass.start <;> rfl
  | cons site sites ih =>
    have hplaced := (pass.step_step settings p site).placed_eq
    rw [List.foldl_cons, ih, hplaced, placementsOfLine]
    cases pass.placement? settings p site <;> simp

theorem placed_placeLines (pass : Pass) (lines : List (Line × List Site)) :
    (lines.foldl (Pass.placeLine settings p p.targets) pass).placed =
      ((placementsFrom settings p pass lines).flatMap Prod.snd).reverse ++ pass.placed := by
  induction lines generalizing pass with
  | nil => rfl
  | cons line lines ih =>
    have hline := placed_finish_foldl settings p
      (.begin pass (rowStart settings p.targets line.1)) line.2
    rw [List.foldl_cons, ih, placementsFrom, List.flatMap_cons, List.reverse_append,
      List.append_assoc]
    exact congrArg _ hline

/-- **The places of the lines make up the layout.** -/
theorem layout_eq_flatMap (p : Program) (settings : Settings) :
    p.layout settings = (placementsFrom settings p {} (lineSites p.lines)).flatMap Prod.snd := by
  rw [Program.layout, Program.pass, placed_placeLines]
  simp

theorem map_fst_placementsFrom (settings : Settings) (p : Program) (pass : Pass)
    (lines : List Line) :
    (placementsFrom settings p pass (lineSites lines)).map Prod.fst = lines := by
  induction lines generalizing pass with
  | nil => rfl
  | cons line lines ih => rw [lineSites, placementsFrom, List.map_cons, ih]

theorem mem_placementsFrom {pass : Pass} {lines : List (Line × List Site)}
    {line : Line × List Placement} (h : line ∈ placementsFrom settings p pass lines) :
    ∃ before sites, (line.1, sites) ∈ lines ∧ line.2 = placementsOfLine settings p
      (.begin before (rowStart settings p.targets line.1)) sites := by
  induction lines generalizing pass with
  | nil => simp [placementsFrom] at h
  | cons l lines ih =>
    rcases List.mem_cons.1 h with rfl | h
    · exact ⟨pass, l.2, List.mem_cons_self, rfl⟩
    · obtain ⟨before, sites, hmem, hline⟩ := ih h
      exact ⟨before, sites, List.mem_cons_of_mem _ hmem, hline⟩

/-- A visit finds the place that it gives behind all places given before. -/
theorem layout_of_visit {v : Visit} (hv : v ∈ p.visits settings) {placement : Placement}
    (h : v.pass.placement? settings p v.site = some placement) :
    ∃ behind, p.layout settings = v.pass.placed.reverse ++ placement :: behind := by
  obtain ⟨later, hlater⟩ := placed_suffix_visit hv
  rw [(v.pass.step_step settings p v.site).placed_eq, h] at hlater
  refine ⟨later.reverse, ?_⟩
  rw [Program.layout, ← hlater]
  simp

end

/-! ## Writing places -/

/-- A place with a row of its own. -/
def Placement.startsRow : Placement → Bool
  | .joined _ => false
  | _ => true

/-- The rows that some places are written to. -/
def Program.rowsOf? (p : Program) (settings : Settings) (disassembler : Disassembler)
    (places : List Placement) : Option (List Text) :=
  (places.foldlM (p.write? settings disassembler) []).map List.reverse

namespace Program

variable {p : Program} {settings : Settings} {disassembler : Disassembler}

/-- What is written below some rows does not depend on those above the last of them. -/
theorem write?_append {placement : Placement} (rows above : List Text)
    (h : rows ≠ [] ∨ placement.startsRow = true) :
    p.write? settings disassembler (rows ++ above) placement =
      (p.write? settings disassembler rows placement).map (· ++ above) := by
  cases placement with
  | bare start => rfl
  | code start s => simp [write?, List.reverseAux_eq]
  | joined s =>
    have hrows : rows ≠ [] := h.resolve_right (by simp [Placement.startsRow])
    obtain ⟨row, rest, rfl⟩ := List.exists_cons_of_ne_nil hrows
    rfl
  | row start indent column s =>
    unfold write?
    simp only
    split_ifs
    · rw [Option.map_map]
      congr 1
      funext broken
      simp [List.reverseAux_eq]
    · rfl

theorem write?_ne_nil {placement : Placement} {rows rows' : List Text}
    (h : p.write? settings disassembler rows placement = some rows') : rows' ≠ [] := by
  cases placement with
  | bare start => obtain rfl := Option.some.inj h; simp
  | code start s => obtain rfl := Option.some.inj h; simp [codeRows, List.reverseAux_eq]
  | joined s => cases rows <;> (obtain rfl := Option.some.inj h; simp)
  | row start indent column s =>
    unfold write? at h
    simp only at h
    split_ifs at h
    · obtain ⟨broken, hbroken, rfl⟩ := Option.map_eq_some_iff.1 h
      obtain ⟨first, rest, rfl, -⟩ := first_of_wrapRow? hbroken
      simp [List.reverseAux_eq]
    · obtain rfl := Option.some.inj h; simp

theorem foldlM_write?_append {rows : List Text} (hrows : rows ≠ []) (above : List Text)
    (places : List Placement) :
    places.foldlM (p.write? settings disassembler) (rows ++ above) =
      (places.foldlM (p.write? settings disassembler) rows).map (· ++ above) := by
  induction places generalizing rows with
  | nil => rfl
  | cons placement places ih =>
    rw [List.foldlM_cons, List.foldlM_cons, write?_append rows above (Or.inl hrows)]
    cases hwrite : p.write? settings disassembler rows placement with
    | none => rfl
    | some rows' => exact ih (write?_ne_nil hwrite)

/-- Places that begin with a row of their own are written below what stands above them. -/
theorem foldlM_write?_below {placement : Placement} (hstarts : placement.startsRow = true)
    (places : List Placement) (above : List Text) :
    (placement :: places).foldlM (p.write? settings disassembler) above =
      ((placement :: places).foldlM (p.write? settings disassembler) []).map (· ++ above) := by
  have hwrite : p.write? settings disassembler above placement =
      (p.write? settings disassembler [] placement).map (· ++ above) :=
    write?_append [] above (Or.inr hstarts)
  rw [List.foldlM_cons, List.foldlM_cons, hwrite]
  cases hrows : p.write? settings disassembler [] placement with
  | none => rfl
  | some rows => exact foldlM_write?_append (write?_ne_nil hrows) above places

theorem rowsOf?_append {placement : Placement} (hstarts : placement.startsRow = true)
    (before places : List Placement) :
    p.rowsOf? settings disassembler (before ++ placement :: places) =
      (p.rowsOf? settings disassembler before).bind fun above =>
        (p.rowsOf? settings disassembler (placement :: places)).map (above ++ ·) := by
  unfold rowsOf?
  rw [List.foldlM_append]
  cases before.foldlM (p.write? settings disassembler) [] with
  | none => rfl
  | some above =>
    change ((placement :: places).foldlM (p.write? settings disassembler) above).map _ = _
    rw [foldlM_write?_below hstarts]
    cases (placement :: places).foldlM (p.write? settings disassembler) [] <;> simp

/-- What is written behind a place leaves its first row alone, but for text at its end. -/
theorem first_of_rowsOf? {placement : Placement} {places : List Placement} {first : Text}
    {rest rows : List Text}
    (hwrite : p.write? settings disassembler [] placement = some (first :: rest).reverse)
    (h : p.rowsOf? settings disassembler (placement :: places) = some rows) :
    ∃ more below, rows = (first ++ more) :: below := by
  obtain ⟨written, hwritten, rfl⟩ := Option.map_eq_some_iff.1 h
  rw [List.foldlM_cons, hwrite] at hwritten
  obtain ⟨more, hmore⟩ := grows_foldlM hwritten 0 first (by simp)
  obtain ⟨below, hbelow⟩ := List.head?_eq_some_iff.1 (List.head?_eq_getElem?.trans hmore)
  exact ⟨more, below, hbelow⟩

/-- **Each of some groups of places is written by itself**, if it begins with a row of its own. -/
theorem rowsOf?_groups {groups : List (List Placement)}
    (hgroups : ∀ group ∈ groups, ∃ placement places, group = placement :: places ∧
      placement.startsRow = true) {rows : List Text}
    (h : p.rowsOf? settings disassembler groups.flatten = some rows) :
    ∃ written, rows = written.flatten ∧
      List.Forall₂ (fun group rows => p.rowsOf? settings disassembler group = some rows)
        groups written := by
  induction groups generalizing rows with
  | nil =>
    obtain rfl : [] = rows := by simpa [rowsOf?] using h
    exact ⟨[], rfl, .nil⟩
  | cons group groups ih =>
    rw [List.forall_mem_cons] at hgroups
    cases groups with
    | nil => exact ⟨[rows], by simp, .cons (by simpa using h) .nil⟩
    | cons group' groups =>
      obtain ⟨placement, places, hgroup', hstarts⟩ := hgroups.2 group' (by simp)
      rw [List.flatten_cons, List.flatten_cons, hgroup', List.cons_append,
        rowsOf?_append hstarts] at h
      obtain ⟨above, habove, h⟩ := Option.bind_eq_some_iff.1 h
      obtain ⟨below, hbelow, rfl⟩ := Option.map_eq_some_iff.1 h
      rw [← List.cons_append, ← hgroup', ← List.flatten_cons] at hbelow
      obtain ⟨written, rfl, hwritten⟩ := ih hgroups.2 hbelow
      exact ⟨above :: written, rfl, .cons habove hwritten⟩

end Program

end BasicListing
