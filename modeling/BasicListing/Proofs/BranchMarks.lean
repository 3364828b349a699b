/-
  What the gutter tells about branches.

  * `Program.IsCalled`, `Program.IsJumpedTo`: some statement of the program
    branches to a line.
  * `Text.field`: the characters of a row in some columns.  A row goes on with
    spaces behind its end.
  * `Program.GutterTells`: the columns of a row to the left of the text say how
    its line is branched to, whether it begins with a branch, and its number.
  * `Program.rowsByLine?`: the rows of each line.
  * `OpensWith.gutterTells`: the first of them tells the truth.
  * `Printer.gutter_tells_branches`: so does each line of a listing.
-/
import BasicListing.Proofs.CodeLayout

namespace BasicListing

/-! ## Branches -/

/-- The token that a line begins with. -/
def Line.head? (line : Line) : Option Token := line.statements.head?.map Statement.head

/-- The line begins with a branch. -/
def Line.Branches (line : Line) : Prop := line.head? = some .gosub ∨ line.head? = some .goto

/-- Some `GOSUB` calls the line with the given number. -/
def Program.IsCalled (p : Program) (number : UInt16) : Prop :=
  ∃ s ∈ p.statements, s.head = .gosub ∧ s.target? = some number

/-- Some `GOTO` or a line number alone goes to the line with the given number. -/
def Program.IsJumpedTo (p : Program) (number : UInt16) : Prop :=
  ∃ s ∈ p.statements, (s.head = .goto ∨ s.head.isDigit = true) ∧ s.target? = some number

/-- Something branches to the line with the given number. -/
def Program.IsReached (p : Program) (number : UInt16) : Prop :=
  p.IsCalled number ∨ p.IsJumpedTo number

namespace Statement

theorem branch?_cases {s : Statement} {branch : Branch} (h : s.branch? = some branch) :
    s.head = .gosub ∧ branch = .gosub ∨
      (s.head = .goto ∨ s.head.isDigit = true) ∧ branch ≠ .gosub := by
  unfold branch? at h
  split at h
  · rename_i hgoto
    obtain rfl := Option.some.inj h
    exact Or.inr ⟨Or.inl hgoto, by simp⟩
  · rename_i hgosub
    exact Or.inl ⟨hgosub, (Option.some.inj h).symm⟩
  · split_ifs at h with hdigit
    obtain rfl := Option.some.inj h
    exact Or.inr ⟨Or.inr hdigit, by simp⟩

/-- A statement with a target calls it, or else jumps to it. -/
theorem target?_cases {s : Statement} {number : UInt16} (h : s.target? = some number) :
    s.head = .gosub ∧ s.callTarget? = some number ∧ s.jumpTarget? = none ∨
      (s.head = .goto ∨ s.head.isDigit = true) ∧ s.callTarget? = none ∧
        s.jumpTarget? = some number := by
  obtain ⟨branch, hbranch, -⟩ := Option.bind_eq_some_iff.1 h
  rw [callTarget?, jumpTarget?, hbranch, h]
  refine (branch?_cases hbranch).imp ?_ ?_
  · rintro ⟨hhead, rfl⟩
    simp [hhead]
  · rintro ⟨hhead, hbranch⟩
    simp [hhead, hbranch]

theorem callTarget?_eq_some_iff {s : Statement} {number : UInt16} :
    s.callTarget? = some number ↔ s.head = .gosub ∧ s.target? = some number := by
  constructor
  · intro hcalls
    have htarget : s.target? = some number := by
      unfold callTarget? at hcalls
      split_ifs at hcalls
      exact hcalls
    rcases target?_cases htarget with ⟨hhead, -⟩ | ⟨-, hnone, -⟩
    · exact ⟨hhead, htarget⟩
    · simp [hnone] at hcalls
  · rintro ⟨hhead, htarget⟩
    rcases target?_cases htarget with ⟨-, hcalls, -⟩ | ⟨hother, -⟩
    · exact hcalls
    · simp [hhead, Token.isDigit] at hother

theorem jumpTarget?_eq_some_iff {s : Statement} {number : UInt16} :
    s.jumpTarget? = some number ↔
      (s.head = .goto ∨ s.head.isDigit = true) ∧ s.target? = some number := by
  constructor
  · intro hjumps
    have htarget : s.target? = some number := by
      unfold jumpTarget? at hjumps
      split_ifs at hjumps
      exact hjumps
    rcases target?_cases htarget with ⟨-, -, hnone⟩ | ⟨hhead, -⟩
    · simp [hnone] at hjumps
    · exact ⟨hhead, htarget⟩
  · rintro ⟨hhead, htarget⟩
    rcases target?_cases htarget with ⟨hother, -⟩ | ⟨-, -, hjumps⟩
    · simp [hother, Token.isDigit] at hhead
    · exact hjumps

end Statement

namespace Program

theorem isCalled_iff {p : Program} {number : UInt16} :
    p.targets.isCalled number = true ↔ p.IsCalled number := by
  rw [Targets.isCalled, List.contains_iff_mem]
  simp only [targets, List.mem_filterMap, Statement.callTarget?_eq_some_iff]
  rfl

theorem isJumpedTo_iff {p : Program} {number : UInt16} :
    p.targets.isJumpedTo number = true ↔ p.IsJumpedTo number := by
  rw [Targets.isJumpedTo, List.contains_iff_mem]
  simp only [targets, List.mem_filterMap, Statement.jumpTarget?_eq_some_iff]
  rfl

end Program

/-! ## Fields of a row -/

/-- The characters of a row in `size` columns from `start` on.  Behind its end a row is blank. -/
def Text.field (row : Text) (start size : Nat) : Text :=
  ((row ++ spaces (start + size)).drop start).take size

theorem Text.take_append_spaces (row : Text) {n k : Nat} (h : k ≤ row.length + n) :
    (row ++ spaces n).take k = row.take k ++ spaces (k - row.length) := by
  rw [List.take_append, spaces, List.take_replicate, spaces, Nat.min_eq_left (by omega)]

theorem Text.field_of_begins {t row : Text} {n start size : Nat} (h : t <+: row ++ spaces n)
    (hsize : start + size ≤ t.length) : row.field start size = (t.drop start).take size := by
  have hlength : start + size ≤ row.length + n := by
    have := h.length_le
    rw [List.length_append, spaces, List.length_replicate] at this
    omega
  have htake : (row ++ spaces (start + size)).take (start + size) = t.take (start + size) := by
    rw [take_append_spaces row (by omega), ← take_append_spaces row hlength]
    obtain ⟨rest, hrest⟩ := h
    rw [← hrest, List.take_append_of_le_length hsize]
  calc row.field start size
      = ((row ++ spaces (start + size)).take (start + size)).drop start := by
        rw [field, List.drop_take, Nat.add_sub_cancel_left]
    _ = (t.take (start + size)).drop start := by rw [htake]
    _ = (t.drop start).take size := by rw [List.drop_take, Nat.add_sub_cancel_left]

theorem Text.fields_of_begins {a b t row : Text} {n : Nat} (ha : a.length = 2) (hb : b.length = 2)
    (h : a ++ (b ++ ' ' :: t) <+: row ++ spaces n) :
    row.field 0 2 = a ∧ row.field 2 2 = b ∧ (5 ≤ t.length → row.field 5 5 = t.take 5) := by
  have hlength : (a ++ (b ++ ' ' :: t)).length = 5 + t.length := by
    simp only [List.length_append, ha, hb, List.length_cons]
    omega
  refine ⟨?_, ?_, fun ht => ?_⟩
  · rw [field_of_begins h (by omega), List.drop_zero, List.take_left' ha]
  · rw [field_of_begins h (by omega), List.drop_left' ha, List.take_left' hb]
  · have hfive : (a ++ b ++ [' ']).length = 5 := by simp [ha, hb]
    rw [field_of_begins h (by omega), ← List.append_assoc, List.append_cons,
      List.drop_left' hfive]

/-! ## Marks -/

/-- The row tells the truth about its line.  The first two columns say whether the line begins with
    a branch, the next two whether it is branched to, and behind them stands its number. -/
structure Program.GutterTells (settings : Settings) (p : Program) (line : Line) (row : Text) :
    Prop where
  calls : row.field 0 2 = "<<".toList ↔ line.head? = some .gosub
  jumps : row.field 0 2 = " <".toList ↔ line.head? = some .goto
  stays : ¬ line.Branches → (p.IsReached line.number → row.field 0 2 = "--".toList) ∧
    (¬ p.IsReached line.number → row.field 0 2 = "  ".toList)
  called : row.field 2 2 = ">>".toList ↔ p.IsCalled line.number
  jumpedTo : row.field 2 2 = "> ".toList ↔ ¬ p.IsCalled line.number ∧ p.IsJumpedTo line.number
  unreached : ¬ p.IsReached line.number → (line.Branches → row.field 2 2 = "--".toList) ∧
    (¬ line.Branches → row.field 2 2 = "  ".toList)
  numbered : row.field 5 5 = Text.padLeft 5 (decimal line.number.toNat) ↔
    (settings.onlyShowTargetLineNumbers = true → p.IsReached line.number)

section
variable {settings : Settings} {p : Program} {line : Line}

theorem sourceMark_cases (line : Line) :
    line.head? = some .gosub ∧ sourceMark line = some "<<" ∨
      line.head? = some .goto ∧ sourceMark line = some " <" ∨
      ¬ line.Branches ∧ sourceMark line = none := by
  unfold sourceMark
  split
  · rename_i hgosub
    exact Or.inl ⟨hgosub, rfl⟩
  · rename_i hgoto
    exact Or.inr (Or.inl ⟨hgoto, rfl⟩)
  · rename_i hgosub hgoto
    refine Or.inr (Or.inr ⟨?_, rfl⟩)
    rintro (h | h)
    · exact hgosub h
    · exact hgoto h

theorem targetMark_cases (p : Program) (line : Line) :
    p.IsCalled line.number ∧ targetMark p.targets line = some ">>" ∨
      (¬ p.IsCalled line.number ∧ p.IsJumpedTo line.number) ∧
        targetMark p.targets line = some "> " ∨
      ¬ p.IsReached line.number ∧ targetMark p.targets line = none := by
  unfold targetMark
  split_ifs with hcalled hjumped
  · exact Or.inl ⟨Program.isCalled_iff.1 hcalled, rfl⟩
  · rw [Program.isCalled_iff] at hcalled
    exact Or.inr (Or.inl ⟨⟨hcalled, Program.isJumpedTo_iff.1 hjumped⟩, rfl⟩)
  · rw [Program.isCalled_iff] at hcalled
    rw [Program.isJumpedTo_iff] at hjumped
    exact Or.inr (Or.inr ⟨not_or.2 ⟨hcalled, hjumped⟩, rfl⟩)

theorem isSome_sourceMark_iff : (sourceMark line).isSome = true ↔ line.Branches := by
  rcases sourceMark_cases line with ⟨h, hmark⟩ | ⟨h, hmark⟩ | ⟨h, hmark⟩
  · simp [hmark, Line.Branches, h]
  · simp [hmark, Line.Branches, h]
  · simp [hmark, h]

theorem isSome_targetMark_iff :
    (targetMark p.targets line).isSome = true ↔ p.IsReached line.number := by
  rcases targetMark_cases p line with ⟨h, hmark⟩ | ⟨h, hmark⟩ | ⟨h, hmark⟩
  · simp [hmark, Program.IsReached, h]
  · simp [hmark, Program.IsReached, h]
  · simp [hmark, h]

/-- A pair for which nothing applies depends on the other one only. -/
theorem pairText_of_not_isSome {mark other : Option String} (h : ¬ mark.isSome = true) :
    (other.isSome = true → pairText mark other = "--".toList) ∧
      (¬ other.isSome = true → pairText mark other = "  ".toList) := by
  rw [Option.not_isSome_iff_eq_none] at h
  subst h
  cases other with
  | none => simp [pairText]
  | some _ => simp [pairText]

theorem pairText_none_ne (other : Option String) {mark : Text} (hdashes : mark ≠ "--".toList)
    (hblank : mark ≠ "  ".toList) : pairText none other ≠ mark := by
  cases other with
  | none => exact hblank.symm
  | some _ => exact hdashes.symm

theorem pairText_sourceMark_iff (line : Line) (other : Option String) :
    (pairText (sourceMark line) other = "<<".toList ↔ line.head? = some .gosub) ∧
      (pairText (sourceMark line) other = " <".toList ↔ line.head? = some .goto) := by
  rcases sourceMark_cases line with ⟨hgosub, hmark⟩ | ⟨hgoto, hmark⟩ | ⟨hnone, hmark⟩
  · rw [hmark, hgosub]
    exact ⟨iff_of_true rfl rfl, iff_of_false (by simp [pairText]) (by simp)⟩
  · rw [hmark, hgoto]
    exact ⟨iff_of_false (by simp [pairText]) (by simp), iff_of_true rfl rfl⟩
  · obtain ⟨hgosub, hgoto⟩ := not_or.1 hnone
    rw [hmark]
    exact ⟨iff_of_false (pairText_none_ne other (by decide) (by decide)) hgosub,
      iff_of_false (pairText_none_ne other (by decide) (by decide)) hgoto⟩

theorem pairText_targetMark_iff (p : Program) (line : Line) (other : Option String) :
    (pairText (targetMark p.targets line) other = ">>".toList ↔ p.IsCalled line.number) ∧
      (pairText (targetMark p.targets line) other = "> ".toList ↔
        ¬ p.IsCalled line.number ∧ p.IsJumpedTo line.number) := by
  rcases targetMark_cases p line with ⟨hcalled, hmark⟩ | ⟨hjumped, hmark⟩ | ⟨hnone, hmark⟩
  · rw [hmark]
    exact ⟨iff_of_true rfl hcalled, iff_of_false (by simp [pairText]) fun h => h.1 hcalled⟩
  · rw [hmark]
    exact ⟨iff_of_false (by simp [pairText]) hjumped.1, iff_of_true rfl hjumped⟩
  · obtain ⟨hcalled, hjumped⟩ := not_or.1 hnone
    rw [hmark]
    exact ⟨iff_of_false (pairText_none_ne other (by decide) (by decide)) hcalled,
      iff_of_false (pairText_none_ne other (by decide) (by decide)) fun h => hjumped h.2⟩

theorem numberText_cases (htargets : settings.showBranchTargets = true) :
    (settings.onlyShowTargetLineNumbers = true → p.IsReached line.number) ∧
        numberText settings p.targets line = Text.padLeft 5 (decimal line.number.toNat) ∨
      ¬ (settings.onlyShowTargetLineNumbers = true → p.IsReached line.number) ∧
        numberText settings p.targets line = [] := by
  rw [← isSome_targetMark_iff, numberText, htargets]
  cases settings.onlyShowTargetLineNumbers <;> cases targetMark p.targets line <;> simp

/-- The number of a line takes five columns, the last of which has a digit. -/
theorem padLeft_decimal (number : UInt16) :
    (Text.padLeft 5 (decimal number.toNat)).length = 5 ∧
      ∀ c, (Text.padLeft 5 (decimal number.toNat))[4]? = some c → c.isDigit = true := by
  have hdigits : 0 < (decimal number.toNat).length := Nat.length_toDigits_pos
  have hfive : (decimal number.toNat).length ≤ 5 := by
    refine (Nat.length_toDigits_le_iff (by decide) (by decide)).2 ?_
    have := number.toNat_lt
    omega
  rw [Text.padLeft, (printable_decimal _).width_eq, Text.spaces]
  constructor
  · rw [List.length_append, List.length_replicate]
    omega
  · intro c hc
    rw [List.getElem?_append_right (by rw [List.length_replicate]; omega)] at hc
    exact isDigit_of_mem_decimal (List.mem_of_getElem? hc)

/-- **A row that begins with the start of its line tells the truth about it**, if nothing that
    looks like a number stands where the start does not show one. -/
theorem Program.gutterTells_of_begins (htargets : settings.showBranchTargets = true)
    {row behind : Text} {n : Nat}
    (hrow : rowStart settings p.targets line ++ behind <+: row ++ Text.spaces n)
    (hbehind : numberText settings p.targets line = [] →
      ∃ c, behind[2]? = some c ∧ c.isDigit = false) :
    p.GutterTells settings line row := by
  have hsource := (pairText_spec (targetMark p.targets line) (sourceMark_spec line)).2
  have htarget := (pairText_spec (sourceMark line) (targetMark_spec p.targets line)).2
  have hstart : rowStart settings p.targets line ++ behind =
      pairText (sourceMark line) (targetMark p.targets line) ++
        (pairText (targetMark p.targets line) (sourceMark line) ++
          ' ' :: (numberText settings p.targets line ++ ([' ', ' '] ++ behind))) := by
    simp only [rowStart, gutter, if_pos htargets, List.append_assoc]
    rfl
  obtain ⟨hfirst, hsecond, hnumber⟩ := Text.fields_of_begins hsource htarget (hstart ▸ hrow)
  have hnumbered : row.field 5 5 = Text.padLeft 5 (decimal line.number.toNat) ↔
      (settings.onlyShowTargetLineNumbers = true → p.IsReached line.number) := by
    obtain ⟨hfive, hdigit⟩ := padLeft_decimal line.number
    rcases numberText_cases htargets with ⟨hshows, htext⟩ | ⟨hhides, htext⟩
    · rw [htext, List.take_left' hfive] at hnumber
      exact iff_of_true (hnumber (by rw [List.length_append, hfive]; omega)) hshows
    · obtain ⟨c, hc, hplain⟩ := hbehind htext
      obtain ⟨hlong, -⟩ := List.getElem?_eq_some_iff.1 hc
      rw [htext] at hnumber
      refine iff_of_false (fun hsame => ?_) hhides
      -- In the last column of the number stands something that is not a digit.
      have hlast : (Text.padLeft 5 (decimal line.number.toNat))[4]? = some c := by
        rw [← hsame, hnumber (by simp; omega), List.getElem?_take_of_lt (by omega)]
        exact hc
      simp [hdigit c hlast] at hplain
  obtain ⟨hcalls, hjumps⟩ := pairText_sourceMark_iff line (targetMark p.targets line)
  obtain ⟨hcalled, hjumped⟩ := pairText_targetMark_iff p line (sourceMark line)
  rw [← hfirst] at hcalls hjumps
  rw [← hsecond] at hcalled hjumped
  refine ⟨hcalls, hjumps, ?_, hcalled, hjumped, ?_, hnumbered⟩
  · rw [← isSome_sourceMark_iff, ← isSome_targetMark_iff, hfirst]
    exact pairText_of_not_isSome
  · rw [← isSome_sourceMark_iff, ← isSome_targetMark_iff, hsecond]
    exact pairText_of_not_isSome

/-! ## First rows -/

variable {disassembler : Disassembler}

/-- The row of a statement begins with its lead, even if it is broken. -/
theorem Program.first_of_row {start : Text} (hstart : IsRowStart settings p start)
    {indent column : Nat} {s : Statement} {places : List Placement} {rows : List Text}
    (h : p.rowsOf? settings disassembler (.row start indent column s :: places) = some rows) :
    ∃ first below, rows = first :: below ∧
      Text.padTo (2 * indent + settings.textColumn) (start ++ branchMark settings s) <+: first := by
  set lead := Text.padTo (2 * indent + settings.textColumn) (start ++ branchMark settings s)
  have hrow : lead <+: p.rowText settings start indent column s := List.prefix_append _ _
  obtain ⟨first, rest, hwrite, hfirst⟩ : ∃ first rest,
      p.write? settings disassembler [] (.row start indent column s) =
        some (first :: rest).reverse ∧ lead <+: first := by
    by_cases hprint : s.isLedBy .print = true
    · have hwrite : p.write? settings disassembler [] (.row start indent column s) =
          (wrapRow? settings.printWidth (p.rowText settings start indent column s)).map
            (·.reverse) := by
        simp [Program.write?, hprint, List.reverseAux_eq]
      cases hbroken : wrapRow? settings.printWidth (p.rowText settings start indent column s) with
      | none =>
        rw [hbroken, Option.map_none] at hwrite
        simp [Program.rowsOf?, hwrite] at h
      | some broken =>
        obtain ⟨first, rest, rfl, hprefix, hfirst⟩ := first_of_wrapRow? hbroken
        refine ⟨first, rest, by rw [hwrite, hbroken, Option.map_some], ?_⟩
        rcases hfirst with rfl | hwidth
        · exact hrow
        · -- The row is broken behind the first quote, and there is none in the lead.
          refine Text.prefix_of_width_le hrow hprefix (Nat.le_trans ?_ hwidth)
          have hquote : ∀ c ∈ lead, (c != '"') = true := by
            intro c hc
            rw [bne_iff_ne]
            rintro rfl
            exact quote_notMem_lead hstart _ s hc
          rw [Program.rowText, List.takeWhile_append_of_pos hquote, Text.width_append]
          exact Nat.le_add_right _ _
    · exact ⟨_, [], by rw [Program.write?, if_neg hprint]; rfl, hrow⟩
  obtain ⟨more, below, rfl⟩ := Program.first_of_rowsOf? hwrite h
  exact ⟨first ++ more, below, rfl, hfirst.trans (List.prefix_append _ _)⟩

theorem branchMark_cases (settings : Settings) (s : Statement) :
    branchMark settings s = [] ∨ ∃ c d, branchMark settings s = [c, d, '-', '-'] := by
  unfold branchMark
  split_ifs
  · split
    · exact Or.inr ⟨'<', '<', rfl⟩
    · exact Or.inr ⟨' ', '<', rfl⟩
    · exact Or.inl rfl
  · exact Or.inl rfl

/-- **The first row of a line tells the truth about it.** -/
theorem OpensWith.gutterTells (htargets : settings.showBranchTargets = true)
    (hline : line ∈ p.lines) {places : List Placement}
    (hplaces : OpensWith (rowStart settings p.targets line) places) {rows : List Text}
    (h : p.rowsOf? settings disassembler places = some rows) :
    ∃ first below, rows = first :: below ∧ p.GutterTells settings line first := by
  cases hplaces with
  | bare =>
    obtain rfl : [(rowStart settings p.targets line).trimEnd] = rows := Option.some.inj h
    obtain ⟨n, hn⟩ := Text.exists_trimEnd_append (printable_rowStart settings p.targets line)
    have hrow : rowStart settings p.targets line ++ Text.spaces 3 =
        (rowStart settings p.targets line).trimEnd ++ Text.spaces (n + 3) := by
      conv_lhs => rw [hn]
      rw [Text.spaces, Text.spaces, Text.spaces, ← List.replicate_append_replicate,
        List.append_assoc]
    have hprefix : rowStart settings p.targets line ++ Text.spaces 3 <+:
        (rowStart settings p.targets line).trimEnd ++ Text.spaces (n + 3) := ⟨[], by simp [hrow]⟩
    exact ⟨_, [], rfl, p.gutterTells_of_begins htargets hprefix fun _ => ⟨' ', rfl, by decide⟩⟩
  | code s places =>
    have hwrite : p.write? settings disassembler [] (.code (rowStart settings p.targets line) s) =
        some (p.codeRows disassembler (rowStart settings p.targets line) s).reverse := by
      rw [Program.write?, List.reverseAux_eq, List.append_nil]
    rw [Program.codeRows_eq] at hwrite
    obtain ⟨more, below, rfl⟩ := Program.first_of_rowsOf? hwrite h
    have hprefix : rowStart settings p.targets line ++ p.codeHeading s <+:
        (rowStart settings p.targets line ++ p.codeHeading s ++ more) ++ Text.spaces 0 :=
      (List.prefix_append _ _).trans (List.prefix_append _ _)
    exact ⟨_, below, rfl, p.gutterTells_of_begins htargets hprefix fun _ => ⟨'M', rfl, by decide⟩⟩
  | row indent column s places =>
    obtain ⟨first, below, rfl, hfirst⟩ := Program.first_of_row (Or.inr ⟨line, hline, rfl⟩) h
    rw [Text.padTo, List.append_assoc] at hfirst
    refine ⟨first, below, rfl, p.gutterTells_of_begins htargets
      (hfirst.trans (List.prefix_append _ (Text.spaces 0))) fun hunnumbered => ?_⟩
    have hwidth := width_rowStart htargets p.targets line
    rw [hunnumbered, List.length_nil] at hwidth
    rcases branchMark_cases settings s with hmark | ⟨c, d, hmark⟩
    · -- Up to the column of the text there is room for five spaces.
      rw [hmark, List.append_nil, List.nil_append, hwidth, Settings.textColumn, if_pos htargets]
      refine ⟨' ', ?_, by decide⟩
      rw [Text.spaces, List.getElem?_replicate, if_pos (by omega)]
    · exact ⟨'-', by rw [hmark]; rfl, by decide⟩

/-! ## The rows of each line -/

/-- The rows of each line of a program. -/
def Program.rowsByLine? (p : Program) (settings : Settings) (disassembler : Disassembler) :
    Option (List (List Text)) :=
  (placementsFrom settings p {} (lineSites p.lines)).mapM fun line =>
    p.rowsOf? settings disassembler line.2

theorem opensWith_placementsFrom {group : Line × List Placement}
    (h : group ∈ placementsFrom settings p {} (lineSites p.lines)) :
    group.1 ∈ p.lines ∧ OpensWith (rowStart settings p.targets group.1) group.2 := by
  obtain ⟨before, sites, hmem, hplaces⟩ := mem_placementsFrom h
  rw [hplaces]
  exact ⟨(mem_lineSites hmem).1, opensWith_placementsOfLine sites rfl⟩

theorem mapM_eq_some_of_forall₂ {α β : Type} {f : α → Option β} {xs : List α} {ys : List β}
    (h : List.Forall₂ (fun x y => f x = some y) xs ys) : xs.mapM f = some ys := by
  induction h with
  | nil => rfl
  | cons hxy _ ih => rw [List.mapM_cons, hxy, ih]; rfl

/-- **The rows of a listing are those of its lines.** -/
theorem Program.rowsByLine?_of_rows? {rows : List Text}
    (h : p.rows? settings disassembler = some rows) :
    ∃ groups, p.rowsByLine? settings disassembler = some groups ∧ rows = groups.flatten ∧
      List.Forall₂ (fun line rows => p.rowsOf? settings disassembler line.2 = some rows)
        (placementsFrom settings p {} (lineSites p.lines)) groups := by
  change p.rowsOf? settings disassembler (p.layout settings) = some rows at h
  rw [layout_eq_flatMap, List.flatMap_def] at h
  obtain ⟨groups, hflatten, hgroups⟩ := rowsOf?_groups (List.forall_mem_map.2 fun group hgroup =>
    (opensWith_placementsFrom hgroup).2.startsRow) h
  rw [List.forall₂_map_left_iff] at hgroups
  exact ⟨groups, mapM_eq_some_of_forall₂ hgroups, hflatten, hgroups⟩

end

/-- **The gutter tells the truth about branches.**

    In a listing with branch targets, the first row of each line says whether the line begins with
    a branch and whether anything in the program branches to it, before or after the line.  If
    only those lines have a number, a row shows the number of its line exactly if something
    branches to it. -/
theorem Printer.gutter_tells_branches (printer : Printer)
    (htargets : printer.settings.showBranchTargets = true) (name : Text) (image : Image) :
    let p := printer.program image
    (printer.keywords.Ascii → (printer.listing? name image).isSome = true) ∧
    ∀ text, printer.listing? name image = some text →
      ∃ groups, p.rowsByLine? printer.settings printer.disassembler = some groups ∧
        text = Text.ofRows (printer.header name image ++ groups.flatten) ∧
        List.Forall₂ (fun line rows => ∃ first below, rows = first :: below ∧
          p.GutterTells printer.settings line first) p.lines groups := by
  intro p
  refine ⟨fun hascii => isSome_listing? hascii name image, ?_⟩
  intro text htext
  obtain ⟨rows, hrows, rfl⟩ := Option.map_eq_some_iff.1 htext
  obtain ⟨groups, hgroups, rfl, hwritten⟩ := Program.rowsByLine?_of_rows? hrows
  refine ⟨groups, hgroups, rfl, ?_⟩
  rw [← map_fst_placementsFrom printer.settings p {} p.lines, List.forall₂_map_left_iff]
  refine ((List.forall₂_and_left _ _).2 ⟨fun group => opensWith_placementsFrom, hwritten⟩).imp ?_
  rintro group rows ⟨⟨hline, hopens⟩, hrows⟩
  exact hopens.gutterTells htargets hline hrows

/-- A line that calls one further down, one of a separator only, one that jumps back to it, and one
    that nothing branches to. -/
def callAndJump : Image :=
  [0x09, 0x08, 10, 0, 0xB0, 0x33, 0x30, 0, 0x0F, 0x08, 20, 0, 0x3A, 0,
   0x17, 0x08, 30, 0, 0xAB, 0x32, 0x30, 0, 0x1D, 0x08, 40, 0, 0x80, 0, 0, 0]

theorem Printer.gutter_tells_branches_callAndJump :
    let settings : Settings := { showHeader := false, onlyShowTargetLineNumbers := true }
    let printer : Printer := { settings }
    let p := printer.program callAndJump
    let text := "<<--        GOSUB 30\n-->     20\n <>>    30  GOTO 20\n            END".toList
    settings.showBranchTargets = true ∧ printer.keywords.Ascii ∧
    printer.listing? [] callAndJump = some text ∧
    ∃ groups, p.rowsByLine? settings .standard = some groups ∧
      text = Text.ofRows groups.flatten ∧
      List.Forall₂ (fun line rows => ∃ first below, rows = first :: below ∧
        p.GutterTells settings line first) p.lines groups := by
  intro settings printer p text
  have htext : printer.listing? [] callAndJump = some text := by decide +kernel
  exact ⟨rfl, Keywords.ascii_standard, htext,
    (gutter_tells_branches printer rfl [] callAndJump).2 text htext⟩

end BasicListing
