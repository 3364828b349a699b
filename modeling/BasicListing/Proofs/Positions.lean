/-
  Where the text of a statement stands in a listing.

  * `Visit.HasRow`: the statement gets a row of its own.
  * `Visit.lead`: what stands before its text in that row.
  * `Program.StartsAt`: its text begins at some column of that row.  The row of
    a `PRINT` may be broken, but not before its text begins.
  * `startsAt_of_visit`: this is the column behind the lead.
-/
import BasicListing.Proofs.Expansion
import BasicListing.Proofs.Leading
import BasicListing.Proofs.LineUp
import BasicListing.Proofs.Placing

namespace BasicListing

/-! ## Texts -/

namespace Text

theorem eq_nil_of_width_eq_zero {t : Text} (h : t.width = 0) : t = [] := by
  cases t with
  | nil => rfl
  | cons c t =>
    have := c.utf8Size_pos
    rw [width_cons] at h
    omega

/-- Of two beginnings of a text, the one that takes fewer columns begins the other. -/
theorem prefix_of_width_le {t u v : Text} (ht : t <+: v) (hu : u <+: v)
    (h : t.width ≤ u.width) : t <+: u := by
  rcases List.prefix_or_prefix_of_prefix ht hu with htu | ⟨rest, rfl⟩
  · exact htu
  · rw [width_append] at h
    have hrest : rest = [] := eq_nil_of_width_eq_zero (by omega)
    simp [hrest]

theorem ofRows_cons (row : Text) (rows : List Text) :
    ∃ behind, ofRows (row :: rows) = row ++ behind := by
  cases rows with
  | nil => exact ⟨[], by simp [ofRows]⟩
  | cons row' rows => exact ⟨_, by rw [ofRows, List.intercalate_cons_cons, List.append_assoc]⟩

theorem ofRows_append (rows : List Text) {below : List Text} (hbelow : below ≠ []) :
    ofRows (rows ++ below) = rows.flatMap (· ++ ['\n']) ++ ofRows below := by
  induction rows with
  | nil => rfl
  | cons row rows ih =>
    obtain ⟨row', rest, hrest⟩ := List.exists_cons_of_ne_nil
      (List.append_ne_nil_of_right_ne_nil rows hbelow)
    rw [List.flatMap_cons, List.append_assoc, ← ih, List.cons_append, hrest, ofRows, ofRows,
      List.intercalate_cons_cons]

end Text

/-! ## What a `PRINT` begins with -/

theorem Program.print_prefix {p : Program} (hkeywords : p.keywords = .standard) {s : Statement}
    (hs : s.isLedBy .print = true) : ['P'] <+: p.text s := by
  have hhead := Statement.isLedBy_iff.1 hs
  have hshown : s.isEmpty = false := by
    rw [← Bool.not_eq_true]
    intro hempty
    rcases Statement.head_of_isEmpty hempty with h | h <;> simp [h] at hhead
  have hprint : ['P'] <+: Keywords.standard.expand [Code.print] := by decide +kernel
  rw [text, Statement.text, hkeywords, Statement.body_eq hshown, hhead]
  exact hprint.trans (Keywords.expand_prefix_append _ [Code.print] _)

/-- The characters of marks and of the spaces around them. -/
def markChars : List Char := [' ', '<', '>', '-']

theorem mem_rowStart {settings : Settings} {targets : Targets} {line : Line} {c : Char}
    (h : c ∈ rowStart settings targets line) : c ∈ markChars ∨ c.isDigit = true := by
  have hsource : sourceMark line ∈ [none, some "<<", some " <"] := by
    unfold sourceMark
    split <;> decide
  have htarget : targetMark targets line ∈ [none, some ">>", some "> "] := by
    unfold targetMark
    split_ifs <;> decide
  have hpairs : ∀ source ∈ [none, some "<<", some " <"], ∀ target ∈ [none, some ">>", some "> "],
      pairText source target ++ pairText target source ⊆ markChars := by decide
  have hpair := hpairs _ hsource _ htarget
  have hspaces : ∀ {n : Nat}, c ∈ Text.spaces n → c ∈ markChars := fun hc =>
    List.eq_of_mem_replicate hc ▸ List.mem_cons_self
  have hnumber : c ∈ numberText settings targets line → c ∈ markChars ∨ c.isDigit = true := by
    unfold numberText
    split_ifs
    · simp
    · rw [Text.padLeft, List.mem_append]
      exact Or.imp hspaces isDigit_of_mem_decimal
  rw [rowStart, List.mem_append] at h
  rcases h with h | h
  · unfold gutter at h
    split_ifs at h
    · simp only [List.mem_append, List.mem_singleton] at h
      rcases h with ((h | h) | rfl) | h
      · exact Or.inl (hpair (List.mem_append_left _ h))
      · exact Or.inl (hpair (List.mem_append_right _ h))
      · exact Or.inl List.mem_cons_self
      · exact hnumber h
    · rcases List.mem_cons.1 h with rfl | h
      · exact Or.inl List.mem_cons_self
      · exact hnumber h
  · exact Or.inl (hspaces h)

/-! ## Rows of statements -/

/-- The statement is shown in a row of its own: it is not empty, hides no code and does not share
    the row above. -/
def Visit.HasRow (settings : Settings) (v : Visit) : Prop :=
  v.site.statement.isEmpty = false ∧ v.site.statement.hidesCode = false ∧
    v.pass.joins settings v.site.statement = false

/-- A statement that is led by a token has a row of its own, if it is not a remark. -/
theorem Visit.hasRow_of_isToken {settings : Settings} {v : Visit}
    (htoken : v.site.statement.head.isToken = true) (hremark : v.site.statement.head ≠ .remark) :
    v.HasRow settings := by
  refine ⟨?_, ?_, ?_⟩
  · rw [← Bool.not_eq_true]
    intro hempty
    rcases Statement.head_of_isEmpty hempty with h | h <;> simp [h, Token.isToken] at htoken
  · simp [Statement.hidesCode, Statement.isLedBy, hremark]
  · simp [LinePass.joins, Statement.isJoinable, Statement.isLedBy, hremark]

/-- What stands before the text of a statement in its row, with `gap` spaces at the end. -/
def Visit.lead (settings : Settings) (v : Visit) (gap : Nat) : Text :=
  v.pass.start.getD [] ++ branchMark settings v.site.statement ++ Text.spaces gap

/-- In a listing, the text of the statement with the given index begins at the given column of its
    row.  That row stands below all rows written for the places before it.  Of a `PRINT`, whose
    row may be broken, the beginning of the text stands there. -/
def Program.StartsAt (printer : Printer) (name : Text) (p : Program) (listing : Text)
    (index column : Nat) : Prop :=
  ∃ (v : Visit) (above : List Text) (gap aligned : Nat) (shown behind : Text),
    (p.visits printer.settings)[index]? = some v ∧
    p.rowsOf? printer.settings printer.disassembler v.pass.placed.reverse = some above ∧
    listing = (printer.header name p.image ++ above).flatMap (· ++ ['\n']) ++
      (v.lead printer.settings gap ++ shown ++ behind) ∧
    (v.lead printer.settings gap).width = column ∧
    shown <+: p.textAt v.site.statement aligned ∧
    (shown = p.textAt v.site.statement aligned ∨
      v.site.statement.isLedBy .print = true ∧ shown ≠ [])

section
variable {settings : Settings} {p : Program} {disassembler : Disassembler}

theorem row_of_mem_layout {start : Text} {indent column : Nat} {s : Statement}
    (h : .row start indent column s ∈ p.layout settings) :
    IsRowStart settings p start ∧ s ∈ p.statements := by
  have hall : ∀ placement ∈ p.layout settings, ∀ start indent column s,
      placement = .row start indent column s → IsRowStart settings p start ∧ s ∈ p.statements := by
    refine layout_forall ?_ ?_ ?_ ?_
    · rintro line - start indent column s ⟨⟩
    · rintro start s - - - start' indent column s' ⟨⟩
    · rintro s - start indent column s' ⟨⟩
    · rintro start indent column s hstart hs _ _ _ _ ⟨⟩
      exact ⟨hstart, hs⟩
  exact hall _ h _ _ _ _ rfl

/-- The lead of a row holds marks, spaces and digits only. -/
theorem mem_lead {start : Text} (hstart : IsRowStart settings p start) {column : Nat}
    {s : Statement} {c : Char} (h : c ∈ Text.padTo column (start ++ branchMark settings s)) :
    c ∈ markChars ∨ c.isDigit = true := by
  have hmark : branchMark settings s ⊆ markChars := by
    unfold branchMark
    split_ifs
    · split <;> decide
    · simp
  simp only [Text.padTo, List.mem_append] at h
  rcases h with (h | h) | h
  · rcases hstart with rfl | ⟨line, -, rfl⟩
    · simp at h
    · exact mem_rowStart h
  · exact Or.inl (hmark h)
  · exact Or.inl (List.eq_of_mem_replicate h ▸ List.mem_cons_self)

theorem quote_notMem_lead {start : Text} (hstart : IsRowStart settings p start) (column : Nat)
    (s : Statement) : '"' ∉ Text.padTo column (start ++ branchMark settings s) :=
  fun h => absurd (mem_lead hstart h) (by decide)

theorem textAt_of_print {s : Statement} (hs : s.isLedBy .print = true) (column : Nat) :
    p.textAt s column = p.text s := by
  have hassign : s.assignmentColumn p.keywords p.findAssignments = 0 := by
    rw [Statement.assignmentColumn, Statement.isLedBy_iff.1 hs]
  simp [Program.textAt, Statement.textAt, hassign, Program.text]

/-- The row of a statement begins with its lead and its text, even if it is broken. -/
theorem exists_write?_row (hkeywords : p.keywords = .standard) {start : Text}
    (hstart : IsRowStart settings p start) (indent column : Nat) (s : Statement) :
    ∃ aligned shown rest,
      p.write? settings disassembler [] (.row start indent column s) =
        some ((Text.padTo (2 * indent + settings.textColumn) (start ++ branchMark settings s) ++
          shown) :: rest).reverse ∧
      shown <+: p.textAt s aligned ∧
      (shown = p.textAt s aligned ∨ s.isLedBy .print = true ∧ shown ≠ []) := by
  set lead := Text.padTo (2 * indent + settings.textColumn) (start ++ branchMark settings s)
    with hlead
  set text := p.textAt s (if s.isLedBy .remark then 0 else column) with htext
  have hrow : p.rowText settings start indent column s = lead ++ text := rfl
  by_cases hprint : s.isLedBy .print = true
  · obtain ⟨broken, hbroken⟩ := exists_wrapRow? settings.printWidth fun c hc => Text.utf8Size_of_le
      (p.printable_rowText hkeywords settings hstart.printable indent column s c hc).2
    have hwrite : p.write? settings disassembler [] (.row start indent column s) =
        some broken.reverse := by
      rw [Program.write?, if_pos hprint, hbroken, Option.map_some, List.reverseAux_eq,
        List.append_nil]
    obtain ⟨first, rest, rfl, hprefix, hfirst⟩ := first_of_wrapRow? hbroken
    rcases hfirst with rfl | hwidth
    · exact ⟨_, text, rest, hwrite, List.prefix_rfl, Or.inl rfl⟩
    · -- The row is broken behind the first quote, and neither the lead nor the keyword has one.
      have hbegin : lead ++ ['P'] <+: first := by
        have hquote : ∀ c ∈ lead, (c != '"') = true := by
          intro c hc
          rw [bne_iff_ne]
          rintro rfl
          exact quote_notMem_lead hstart _ s hc
        obtain ⟨rest', hrest'⟩ := p.print_prefix hkeywords hprint
        have htake : (lead ++ text).takeWhile (· != '"') =
            lead ++ ['P'] ++ rest'.takeWhile (· != '"') := by
          rw [List.takeWhile_append_of_pos hquote, htext, textAt_of_print hprint, ← hrest',
            List.append_assoc]
          rfl
        rw [hrow, htake, Text.width_append] at hwidth
        refine Text.prefix_of_width_le ?_ hprefix (by omega)
        rw [hrow, htext, textAt_of_print hprint, ← hrest', ← List.append_assoc]
        exact List.prefix_append _ _
      obtain ⟨more, rfl⟩ := hbegin
      rw [List.append_assoc] at hprefix hwrite
      rw [hrow, List.prefix_append_right_inj] at hprefix
      exact ⟨_, ['P'] ++ more, rest, hwrite, hprefix, Or.inr ⟨hprint, by simp⟩⟩
  · refine ⟨_, text, [], ?_, List.prefix_rfl, Or.inl rfl⟩
    rw [Program.write?, if_neg hprint, hrow]
    rfl

/-- The column at which the text of a statement begins in its row. -/
def Visit.textColumn (settings : Settings) (v : Visit) : Nat :=
  max (2 * (v.pass.closeLoops v.site.statement).indent + settings.textColumn)
    (Text.width (v.pass.start.getD [] ++ branchMark settings v.site.statement))

theorem placement?_of_hasRow {v : Visit} (h : v.HasRow settings) :
    ∃ column, v.pass.placement? settings p v.site = some (.row (v.pass.start.getD [])
      (v.pass.closeLoops v.site.statement).indent column v.site.statement) := by
  obtain ⟨hshown, hcode, hjoins⟩ := h
  refine ⟨((v.pass.closeLoops v.site.statement).alignAt settings p v.site).column, ?_⟩
  simp [LinePass.placement?, hshown, hcode, hjoins]

end

/-- **The text of a statement begins behind its lead.** -/
theorem startsAt_of_visit {printer : Printer} {p : Program} (hkeywords : p.keywords = .standard)
    {rows : List Text} (hrows : p.rows? printer.settings printer.disassembler = some rows)
    (name : Text) {index : Nat} {v : Visit} (hv : (p.visits printer.settings)[index]? = some v)
    (hrow : v.HasRow printer.settings) :
    p.StartsAt printer name (Text.ofRows (printer.header name p.image ++ rows)) index
      (v.textColumn printer.settings) := by
  obtain ⟨column, hplacement⟩ := placement?_of_hasRow (p := p) hrow
  obtain ⟨behind, hlayout⟩ := layout_of_visit (List.mem_of_getElem? hv) hplacement
  have hstart : IsRowStart printer.settings p (v.pass.start.getD []) :=
    (row_of_mem_layout (hlayout ▸ List.mem_append_right _ List.mem_cons_self)).1
  -- The rows above do not depend on what follows, and nothing below changes the row's beginning.
  change p.rowsOf? _ _ (p.layout printer.settings) = some rows at hrows
  rw [hlayout, Program.rowsOf?_append rfl] at hrows
  obtain ⟨above, habove, hrows⟩ := Option.bind_eq_some_iff.1 hrows
  obtain ⟨below, hbelow, rfl⟩ := Option.map_eq_some_iff.1 hrows
  obtain ⟨aligned, shown, rest, hwrite, hprefix, hshown⟩ :=
    exists_write?_row hkeywords hstart _ column v.site.statement
  obtain ⟨more, rest', rfl⟩ := Program.first_of_rowsOf? hwrite hbelow
  obtain ⟨behind', hbehind'⟩ := Text.ofRows_cons _ rest'
  refine ⟨v, above, 2 * (v.pass.closeLoops v.site.statement).indent +
      printer.settings.textColumn - Text.width (v.pass.start.getD [] ++
        branchMark printer.settings v.site.statement), aligned, shown, more ++ behind', hv, habove,
    ?_, ?_, hprefix, hshown⟩
  · rw [← List.append_assoc, Text.ofRows_append _ (by simp), hbehind', List.append_assoc _ more]
    rfl
  · exact Text.width_padTo _ _

end BasicListing
