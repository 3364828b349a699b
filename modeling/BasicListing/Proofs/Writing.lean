/-
  Writing a layout.

  * `exists_rows?_of_ascii`: with keywords in ASCII a layout can always be
    written, so there is a listing (`Printer.isSome_listing?`).
  * `Placement.Writable`: a place at which only hidden code can have characters
    that are not printable.  All places in a layout are like this
    (`layout_writable`).
  * `forall_rows?`, `exists_rows?`: so with the standard keywords the rows of a
    layout are made of printable characters and those of hidden code.
  * `Grows`: what is written behind some rows leaves them alone, but for text
    at the end of the last.
-/
import BasicListing.Proofs.Pass
import BasicListing.Proofs.Printable
import BasicListing.Proofs.Wrapping

namespace BasicListing

/-! ## Rows are printable -/

namespace Program

variable {p : Program} {settings : Settings} {disassembler : Disassembler}

theorem printable_text (hkeywords : p.keywords = .standard) (s : Statement) :
    (p.text s).Printable := by
  rw [text, Statement.text, hkeywords]
  exact Keywords.printable_expand _

theorem mem_textAt {s : Statement} {column : Nat} {c : Char} (h : c ∈ p.textAt s column) :
    c ∈ p.text s ∨ c = ' ' := by
  unfold textAt Statement.textAt at h
  simp only at h
  split_ifs at h
  · rw [List.mem_append, List.mem_append] at h
    rcases h with (h | h) | h
    · exact Or.inl ((List.takeWhile_sublist _).subset h)
    · exact Or.inr (List.eq_of_mem_replicate h)
    · exact Or.inl ((List.dropWhile_sublist _).subset h)
  · exact Or.inl h

theorem printable_branchMark (settings : Settings) (s : Statement) :
    (branchMark settings s).Printable := by
  unfold branchMark
  split_ifs
  · split
    · decide
    · decide
    · exact Text.printable_nil
  · exact Text.printable_nil

/-- What a row is made of. -/
theorem mem_rowText {start : Text} {indent column : Nat} {s : Statement} {c : Char}
    (h : c ∈ p.rowText settings start indent column s) :
    c ∈ start ∨ c ∈ branchMark settings s ∨ c ∈ p.text s ∨ c = ' ' := by
  simp only [rowText, Text.padTo, List.mem_append] at h
  rcases h with ((h | h) | h) | h
  · exact Or.inl h
  · exact Or.inr (Or.inl h)
  · exact Or.inr (Or.inr (Or.inr (List.eq_of_mem_replicate h)))
  · exact Or.inr (Or.inr (mem_textAt h))

theorem printable_rowText (hkeywords : p.keywords = .standard) (settings : Settings)
    {start : Text} (hstart : start.Printable) (indent column : Nat) (s : Statement) :
    (p.rowText settings start indent column s).Printable := by
  intro c hc
  rcases mem_rowText hc with hc | hc | hc | rfl
  · exact hstart c hc
  · exact printable_branchMark settings s c hc
  · exact p.printable_text hkeywords s c hc
  · decide

theorem ascii_rowText (hkeywords : p.keywords.Ascii) (settings : Settings) {start : Text}
    (hstart : start.Printable) (indent column : Nat) (s : Statement) :
    (p.rowText settings start indent column s).Ascii := by
  intro c hc
  rcases mem_rowText hc with hc | hc | hc | rfl
  · exact hstart.ascii c hc
  · exact (printable_branchMark settings s).ascii c hc
  · exact hkeywords.expand s.body c hc
  · decide

/-- The code that a statement hides has rows of characters with the property `P`, or cannot be
    read. -/
def HasCodeOf (P : Char → Prop) (p : Program) (disassembler : Disassembler) (s : Statement) :
    Prop :=
  ∀ code, p.codeOf disassembler s = .ok code → ∀ row ∈ code, ∀ c ∈ row, P c

/-- The code that a statement hides has printable rows, or cannot be read. -/
def HasPrintableCode (p : Program) (disassembler : Disassembler) (s : Statement) : Prop :=
  p.HasCodeOf (fun c => 32 ≤ c.toNat ∧ c.toNat ≤ 127) disassembler s

theorem hasPrintableCode_standard (p : Program) (s : Statement) :
    p.HasPrintableCode .standard s := by
  intro code hcode
  obtain rfl := Except.ok.inj hcode
  intro row hrow
  obtain ⟨codeRow, -, rfl⟩ := List.mem_map.1 hrow
  exact codeRow.printable_text

section
variable {P : Char → Prop} (hprintable : ∀ c : Char, 32 ≤ c.toNat ∧ c.toNat ≤ 127 → P c)
include hprintable

theorem forall_codeRows {s : Statement} (hcode : p.HasCodeOf P disassembler s) {start : Text}
    (hstart : start.Printable) : ∀ row ∈ p.codeRows disassembler start s, ∀ c ∈ row, P c := by
  unfold codeRows
  simp only [List.forall_mem_cons, List.forall_mem_map]
  constructor
  · have haddress : Text.Printable (start ++ "REM - Inline assembler @ $".toList ++
        hexWord (p.codeAddress s) ++ " (".toList ++ decimal (p.codeAddress s).toNat ++
        ")".toList) := by
      simp only [Text.printable_append, hstart, printable_hexWord, printable_decimal, true_and,
        and_true]
      decide
    exact fun c hc => hprintable c (haddress c hc)
  · intro row hrow c hc
    rcases List.mem_append.1 hc with hc | hc
    · exact hprintable c (Text.printable_spaces _ c hc)
    · split at hrow
      · exact hcode _ ‹_› row hrow c hc
      · rw [List.mem_singleton.1 hrow] at hc
        have hplaceholder : Text.Printable
            "<machine code could not be disassembled>".toList := by decide
        exact hprintable c (hplaceholder c hc)

end

end Program

theorem printable_of_mem_wrapRow? {width : Nat} {row : Text} {rows : List Text}
    (hrow : row.Printable) (h : wrapRow? width row = some rows) :
    ∀ row' ∈ rows, row'.Printable := by
  obtain ⟨pieces, quote, rfl, rfl⟩ := exists_of_wrapRow? h
  have hpiece : ∀ piece ∈ pieces, Text.Printable piece := fun piece hpiece =>
    hrow.mono fun c hc => List.mem_flatten.2 ⟨piece, hpiece, hc⟩
  intro row' hrow'
  rcases List.mem_append.1 hrow' with hrow' | hrow'
  · exact hpiece row' (List.mem_of_mem_take hrow')
  · obtain ⟨piece, hmem, rfl⟩ := List.mem_map.1 hrow'
    exact Text.printable_append.2
      ⟨Text.printable_spaces _, hpiece piece (List.mem_of_mem_drop hmem)⟩

/-! ## Writing -/

section
variable {p : Program} {settings : Settings} {disassembler : Disassembler}

theorem IsRowStart.printable {start : Text} (h : IsRowStart settings p start) :
    start.Printable := by
  rcases h with rfl | ⟨line, -, rfl⟩
  · exact Text.printable_nil
  · exact printable_rowStart settings p.targets line

/-- **A layout can be written**, if all keywords are in ASCII. -/
theorem exists_rows?_of_ascii (hkeywords : p.keywords.Ascii) (settings : Settings)
    (disassembler : Disassembler) : ∃ rows, p.rows? settings disassembler = some rows := by
  have hwrite : ∀ placement ∈ p.layout settings, ∀ rows,
      ∃ rows', p.write? settings disassembler rows placement = some rows' := by
    refine layout_forall (fun _ _ rows => ⟨_, rfl⟩) (fun _ _ _ _ _ rows => ⟨_, rfl⟩) ?_ ?_
    · intro s _ rows
      cases rows <;> exact ⟨_, rfl⟩
    · intro start indent column s hstart _ rows
      -- Only the row of a `PRINT` is broken.
      have hrow := p.ascii_rowText hkeywords settings hstart.printable indent column s
      obtain ⟨broken, hbroken⟩ := exists_wrapRow? settings.printWidth
        fun c hc => Text.utf8Size_of_le (hrow c hc)
      unfold Program.write?
      simp only [hbroken]
      split_ifs <;> exact ⟨_, rfl⟩
  have hfold : ∀ (layout : List Placement) (rows : List Text), (∀ placement ∈ layout, ∀ rows,
      ∃ rows', p.write? settings disassembler rows placement = some rows') →
      ∃ rows', layout.foldlM (p.write? settings disassembler) rows = some rows' := by
    intro layout
    induction layout with
    | nil => exact fun rows _ => ⟨rows, rfl⟩
    | cons placement layout ih =>
      intro rows hlayout
      rw [List.forall_mem_cons] at hlayout
      obtain ⟨rows', hrows'⟩ := hlayout.1 rows
      obtain ⟨rows'', hrows''⟩ := ih rows' hlayout.2
      exact ⟨rows'', by rw [List.foldlM_cons, hrows']; exact hrows''⟩
  obtain ⟨rows, hrows⟩ := hfold _ [] hwrite
  exact ⟨rows.reverse, by rw [Program.rows?, hrows]; rfl⟩

/-- With keywords in ASCII there is a listing. -/
theorem Printer.isSome_listing? {printer : Printer} (h : printer.keywords.Ascii) (name : Text)
    (image : Image) : (printer.listing? name image).isSome = true := by
  obtain ⟨rows, hrows⟩ := exists_rows?_of_ascii (p := printer.program image) h printer.settings
    printer.disassembler
  rw [listing?, hrows]
  rfl

end

/-- A place at which all that is shown is printable, but for the rows of hidden code, which are
    made of characters with the property `P`. -/
def Placement.Writable (P : Char → Prop) (p : Program) (disassembler : Disassembler) :
    Placement → Prop
  | .bare start => start.Printable
  | .code start s => start.Printable ∧ p.HasCodeOf P disassembler s
  | .joined _ => True
  | .row start _ _ _ => start.Printable

section
variable {p : Program} {settings : Settings} {disassembler : Disassembler} {P : Char → Prop}

theorem layout_writable
    (hcode : ∀ s ∈ p.statements, s.hidesCode = true → p.HasCodeOf P disassembler s) :
    ∀ placement ∈ p.layout settings, placement.Writable P p disassembler :=
  layout_forall (fun line _ => printable_rowStart settings p.targets line)
    (fun _ s h hs hhides => ⟨h.printable, hcode s hs hhides⟩) (fun _ _ => trivial)
    (fun _ _ _ _ h _ => h.printable)

theorem forall_write? (hprintable : ∀ c : Char, 32 ≤ c.toNat ∧ c.toNat ≤ 127 → P c)
    (hkeywords : p.keywords = .standard) {placement : Placement}
    (hplacement : placement.Writable P p disassembler) {rows rows' : List Text}
    (hrows : ∀ row ∈ rows, ∀ c ∈ row, P c)
    (h : p.write? settings disassembler rows placement = some rows') :
    ∀ row ∈ rows', ∀ c ∈ row, P c := by
  have hmade : ∀ {t : Text}, t.Printable → ∀ c ∈ t, P c := fun ht c hc => hprintable c (ht c hc)
  have hbelow : ∀ {below : List Text}, (∀ row ∈ below, ∀ c ∈ row, P c) →
      ∀ row ∈ below.reverseAux rows, ∀ c ∈ row, P c := by
    intro below hbelow row hrow
    rw [List.reverseAux_eq, List.mem_append, List.mem_reverse] at hrow
    exact hrow.elim (hbelow row) (hrows row)
  cases placement with
  | bare start =>
    obtain rfl := Option.some.inj h
    exact List.forall_mem_cons.2 ⟨hmade (Text.Printable.trimEnd hplacement), hrows⟩
  | code start s =>
    obtain rfl := Option.some.inj h
    exact hbelow (p.forall_codeRows hprintable hplacement.2 hplacement.1)
  | joined s =>
    have htext : Text.Printable (' ' :: p.text s) :=
      Text.printable_cons.2 ⟨by decide, p.printable_text hkeywords s⟩
    cases rows with
    | nil =>
      obtain rfl := Option.some.inj h
      exact List.forall_mem_singleton.2 (hmade htext)
    | cons row above =>
      obtain rfl := Option.some.inj h
      rw [List.forall_mem_cons] at hrows
      refine List.forall_mem_cons.2 ⟨fun c hc => ?_, hrows.2⟩
      exact (List.mem_append.1 hc).elim (hrows.1 c) (hmade htext c)
  | row start indent column s =>
    have hrow := p.printable_rowText hkeywords settings hplacement indent column s
    unfold Program.write? at h
    simp only at h
    split_ifs at h
    · obtain ⟨broken, hbroken, rfl⟩ := Option.map_eq_some_iff.1 h
      exact hbelow fun row' hrow' => hmade (printable_of_mem_wrapRow? hrow hbroken row' hrow')
    · obtain rfl := Option.some.inj h
      exact List.forall_mem_cons.2 ⟨hmade hrow, hrows⟩

/-- **The rows of a layout are made of printable characters and those of hidden code**, with the
    standard keywords. -/
theorem forall_rows? (hprintable : ∀ c : Char, 32 ≤ c.toNat ∧ c.toNat ≤ 127 → P c)
    (hkeywords : p.keywords = .standard)
    (hcode : ∀ s ∈ p.statements, s.hidesCode = true → p.HasCodeOf P disassembler s)
    {rows : List Text} (hrows : p.rows? settings disassembler = some rows) :
    ∀ row ∈ rows, ∀ c ∈ row, P c := by
  have hfold : ∀ (layout : List Placement) (rows rows' : List Text),
      (∀ placement ∈ layout, placement.Writable P p disassembler) →
      (∀ row ∈ rows, ∀ c ∈ row, P c) →
      layout.foldlM (p.write? settings disassembler) rows = some rows' →
      ∀ row ∈ rows', ∀ c ∈ row, P c := by
    intro layout
    induction layout with
    | nil =>
      intro rows rows' _ hrows h
      obtain rfl : rows = rows' := by simpa using h
      exact hrows
    | cons placement layout ih =>
      intro rows rows' hlayout hrows h
      rw [List.forall_mem_cons] at hlayout
      rw [List.foldlM_cons] at h
      obtain ⟨written, hwritten, h⟩ := Option.bind_eq_some_iff.1 h
      exact ih written rows' hlayout.2
        (forall_write? hprintable hkeywords hlayout.1 hrows hwritten) h
  obtain ⟨written, hwritten, rfl⟩ := Option.map_eq_some_iff.1 hrows
  intro row hrow
  exact hfold _ [] written (layout_writable hcode) (by simp) hwritten row (List.mem_reverse.1 hrow)

theorem exists_rows? (hkeywords : p.keywords = .standard)
    (hcode : ∀ s ∈ p.statements, s.hidesCode = true → p.HasPrintableCode disassembler s) :
    ∃ rows, p.rows? settings disassembler = some rows ∧ ∀ row ∈ rows, row.Printable := by
  obtain ⟨rows, hrows⟩ := exists_rows?_of_ascii (hkeywords ▸ Keywords.ascii_standard) settings
    disassembler
  exact ⟨rows, hrows, forall_rows? (fun _ hc => hc) hkeywords hcode hrows⟩

/-! ## Rows that have been written -/

/-- Each of the first rows begins one of the second, the one with the same number. -/
def Grows (rows rows' : List Text) : Prop :=
  ∀ (n : Nat) (row : Text), rows[n]? = some row → ∃ more, rows'[n]? = some (row ++ more)

theorem Grows.trans {rows rows' rows'' : List Text} (h : Grows rows rows')
    (h' : Grows rows' rows'') : Grows rows rows'' := by
  intro n row hrow
  obtain ⟨more, hmore⟩ := h n row hrow
  obtain ⟨more', hmore'⟩ := h' n _ hmore
  exact ⟨more ++ more', by rw [hmore', List.append_assoc]⟩

theorem grows_append (rows below : List Text) : Grows rows (rows ++ below) := by
  intro n row hrow
  obtain ⟨hn, -⟩ := List.getElem?_eq_some_iff.1 hrow
  exact ⟨[], by rw [List.getElem?_append_left hn, hrow, List.append_nil]⟩

theorem grows_last (above : List Text) (row more : Text) :
    Grows (above ++ [row]) (above ++ [row ++ more]) := by
  intro n row' hrow'
  rcases Nat.lt_trichotomy n above.length with hn | hn | hn
  · rw [List.getElem?_append_left hn] at hrow' ⊢
    exact ⟨[], by rw [hrow', List.append_nil]⟩
  · subst hn
    obtain rfl : row = row' := by simpa using hrow'
    exact ⟨more, by simp⟩
  · rw [List.getElem?_append_right hn.le, List.getElem?_singleton, if_neg (by omega)] at hrow'
    simp at hrow'

/-- Writing changes rows only by text at the end of the last. -/
theorem grows_write? {rows rows' : List Text} {placement : Placement}
    (h : p.write? settings disassembler rows placement = some rows') :
    Grows rows.reverse rows'.reverse := by
  cases placement with
  | bare start =>
    obtain rfl := Option.some.inj h
    rw [List.reverse_cons]; exact grows_append _ _
  | code start s =>
    obtain rfl := Option.some.inj h
    rw [List.reverseAux_eq, List.reverse_append, List.reverse_reverse]; exact grows_append _ _
  | joined s =>
    cases rows with
    | nil => exact fun n row hrow => by simp at hrow
    | cons row above =>
      obtain rfl := Option.some.inj h
      rw [List.reverse_cons, List.reverse_cons]; exact grows_last _ _ _
  | row start indent column s =>
    unfold Program.write? at h
    simp only at h
    split_ifs at h
    · obtain ⟨broken, -, rfl⟩ := Option.map_eq_some_iff.1 h
      rw [List.reverseAux_eq, List.reverse_append, List.reverse_reverse]; exact grows_append _ _
    · obtain rfl := Option.some.inj h
      rw [List.reverse_cons]; exact grows_append _ _

theorem grows_foldlM {layout : List Placement} {rows rows' : List Text}
    (h : layout.foldlM (p.write? settings disassembler) rows = some rows') :
    Grows rows.reverse rows'.reverse := by
  induction layout generalizing rows with
  | nil =>
    obtain rfl : rows = rows' := by simpa using h
    exact fun n row hrow => ⟨[], by rw [hrow, List.append_nil]⟩
  | cons placement layout ih =>
    rw [List.foldlM_cons] at h
    obtain ⟨rows₁, h₁, h⟩ := Option.bind_eq_some_iff.1 h
    exact (grows_write? h₁).trans (ih h)

end

end BasicListing
