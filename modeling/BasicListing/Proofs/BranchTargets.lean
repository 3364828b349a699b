/-
  The lines a program branches to.

  * `Statement.Names`: the bytes of a statement that name the line it branches
    to.
  * `Statement.target?_iff`: there is a target if and only if these bytes are
    the number of a line.  `isNumeral_trim_lossyText_iff` says what bytes those
    are, without reading them.
  * `Program.numbered`: the statements with the numbers of their lines.
  * `Program.CollectsTargets`: what a program knows about its branches.
  * `Program.ofImage_collects_targets`: every decoded program knows it.
-/
import BasicListing.Proofs.BranchMarks
import BasicListing.Proofs.LossyText
import BasicListing.Proofs.Numerals
import Mathlib.Data.List.Forall2

namespace BasicListing

/-! ## Names of lines -/

/-- The bytes of a statement that name the line it branches to, and how it does. -/
inductive Statement.Names (s : Statement) : Branch → List UInt8 → Prop
  | goto {bytes} (h : s.body = Code.goto :: bytes) : Names s .goto bytes
  | gosub {bytes} (h : s.body = Code.gosub :: bytes) : Names s .gosub bytes
  /-- A number alone is all of the statement. -/
  | implied {b rest} (h : s.body = b :: rest) (hlow : 0x30 ≤ b) (hhigh : b ≤ 0x39) :
    Names s .implied s.body

/-- The statement is led by `GOTO`, by `GOSUB` or by a digit. -/
def Statement.Branches (s : Statement) : Prop := ∃ branch bytes, s.Names branch bytes

theorem Token.exists_of_isDigit {t : Token} (h : t.isDigit = true) :
    ∃ b, t = .plain b ∧ 0x30 ≤ b ∧ b ≤ 0x39 := by
  cases t with
  | plain b => exact ⟨b, rfl, by simpa [isDigit] using h⟩
  | _ => simp [isDigit] at h

namespace Statement

variable {s : Statement} {branch : Branch} {bytes : List UInt8}

theorem Names.branch?_eq (h : s.Names branch bytes) : s.branch? = some branch := by
  cases h with
  | goto h => rw [branch?, head_of_body h]; rfl
  | gosub h => rw [branch?, head_of_body h]; rfl
  | implied h hlow hhigh =>
    rename_i b rest
    rw [branch?, head_of_body h, Token.ofByte_of_le (UInt8.le_trans hhigh (by decide))]
    simp [Token.isDigit, hlow, hhigh]

theorem Names.targetText_eq (h : s.Names branch bytes) : s.targetText branch = lossyText bytes := by
  cases h with
  | goto h => rw [targetText, operand, h, List.tail_cons]; simp
  | gosub h => rw [targetText, operand, h, List.tail_cons]; simp
  | implied => rfl

theorem exists_names_of_branch? (h : s.branch? = some branch) : ∃ bytes, s.Names branch bytes := by
  have hshown : s.isEmpty = false := by
    rw [← Bool.not_eq_true]
    intro hempty
    rcases head_of_isEmpty hempty with hhead | hhead <;>
      simp [branch?, hhead, Token.isDigit, Code.colon, Code.endOfLine] at h
  have hbody := body_eq hshown
  rw [branch?] at h
  split at h
  · rename_i hhead
    obtain rfl := Option.some.inj h
    exact ⟨_, .goto (hhead ▸ hbody)⟩
  · rename_i hhead
    obtain rfl := Option.some.inj h
    exact ⟨_, .gosub (hhead ▸ hbody)⟩
  · split_ifs at h with hdigit
    obtain rfl := Option.some.inj h
    obtain ⟨b, hhead, hlow, hhigh⟩ := Token.exists_of_isDigit hdigit
    rw [hhead] at hbody
    exact ⟨_, .implied hbody hlow hhigh⟩

theorem branch?_eq_some_iff : s.branch? = some branch ↔ ∃ bytes, s.Names branch bytes :=
  ⟨exists_names_of_branch?, fun ⟨_, h⟩ => h.branch?_eq⟩

theorem branches_iff : s.Branches ↔ s.branch?.isSome = true := by
  simp only [Option.isSome_iff_exists, branch?_eq_some_iff]
  rfl

instance (s : Statement) : Decidable s.Branches := decidable_of_iff _ branches_iff.symm

theorem head_eq_gosub_iff : s.head = .gosub ↔ ∃ bytes, s.Names .gosub bytes := by
  rw [← branch?_eq_some_iff]
  constructor
  · intro hhead
    rw [branch?, hhead]
  · intro h
    exact (branch?_cases h).elim And.left fun hother => absurd rfl hother.2

theorem head_jumps_iff : s.head = .goto ∨ s.head.isDigit = true ↔
    ∃ branch bytes, s.Names branch bytes ∧ branch ≠ .gosub := by
  simp only [exists_and_right, ← branch?_eq_some_iff]
  constructor
  · rintro (hhead | hdigit)
    · exact ⟨.goto, by rw [branch?, hhead], by simp⟩
    · obtain ⟨b, hhead, -⟩ := Token.exists_of_isDigit hdigit
      rw [hhead] at hdigit
      exact ⟨.implied, by rw [branch?, hhead]; exact if_pos hdigit, by simp⟩
  · rintro ⟨branch, h, hne⟩
    exact (branch?_cases h).elim (fun hcall => absurd hcall.2 hne) And.left

/-- **The target of a statement**: the number that its text is, with blanks at most around it. -/
theorem target?_iff {value : Nat} :
    s.target?.map UInt16.toNat = some value ↔ value ≤ 65535 ∧
      ∃ branch bytes, s.Names branch bytes ∧ (lossyText bytes).trim.IsNumeral value := by
  rw [Option.map_eq_some_iff]
  constructor
  · rintro ⟨number, htarget, rfl⟩
    obtain ⟨branch, hbranch, hread⟩ := Option.bind_eq_some_iff.1 htarget
    obtain ⟨bytes, hnames⟩ := exists_names_of_branch? hbranch
    rw [hnames.targetText_eq] at hread
    exact ⟨Nat.le_of_lt_succ number.toNat_lt, branch, bytes, hnames, readWord?_iff.1 hread⟩
  · rintro ⟨hle, branch, bytes, hnames, hnumeral⟩
    have hnumber : (UInt16.ofNat value).toNat = value :=
      UInt16.toNat_ofNat_of_lt' (Nat.lt_succ_of_le hle)
    refine ⟨UInt16.ofNat value, ?_, hnumber⟩
    rw [target?, hnames.branch?_eq, Option.bind_some, hnames.targetText_eq, readWord?_iff, hnumber]
    exact hnumeral

end Statement

/-! ## Numbers in UTF-8 -/

theorem replacement_notMem {before t after : Text} {value : Nat} (hbefore : before.Blank)
    (ht : t.IsNumeral value) (hafter : after.Blank) : Utf8.replacement ∉ before ++ t ++ after := by
  have hblank : isBlank Utf8.replacement = false := by decide
  have hdigit : Utf8.replacement.isDigit = false := by decide
  have hplus : Utf8.replacement ∉ ['+'] := by decide
  obtain ⟨sign, digits, rfl, hsign, -, hdigits, -⟩ := ht
  simp only [List.mem_append, not_or]
  refine ⟨⟨fun h => ?_, ?_, fun h => ?_⟩, fun h => ?_⟩
  · simpa [hblank] using hbefore _ h
  · rcases hsign with rfl | rfl <;> simp [hplus]
  · simpa [hdigit] using hdigits _ h
  · simpa [hblank] using hafter _ h

/-- **Bytes that are read as a number**: the UTF-8 form of a numeral, with blanks at most
    around it.  So no byte of them is replaced. -/
theorem isNumeral_trim_lossyText_iff {bytes : List UInt8} {value : Nat} :
    (lossyText bytes).trim.IsNumeral value ↔
      ∃ before t after, bytes = Text.bytes (before ++ t ++ after) ∧ before.Blank ∧
        t.IsNumeral value ∧ after.Blank := by
  constructor
  · intro h
    obtain ⟨before, after, htext, hbefore, hafter⟩ := (Text.trim_eq_iff h.solid h.ne_nil).1 rfl
    refine ⟨before, _, after, ?_, hbefore, h, hafter⟩
    rw [← htext, bytes_lossyText]
    rw [htext]
    exact replacement_notMem hbefore h hafter
  · rintro ⟨before, t, after, rfl, hbefore, ht, hafter⟩
    have htrim := (Text.trim_eq_iff ht.solid ht.ne_nil).2 ⟨before, after, rfl, hbefore, hafter⟩
    rwa [lossyText_bytes, htrim]

/-! ## Programs -/

/-- The statements of a program, each with the number of its line. -/
def Program.numbered (p : Program) : List (UInt16 × Statement) :=
  p.lines.flatMap fun line => line.statements.map fun s => (line.number, s)

/-- The statement branches, but to no line. -/
def Statement.Astray (s : Statement) : Prop := s.Branches ∧ s.target? = none

instance (s : Statement) : Decidable s.Astray := inferInstanceAs (Decidable (_ ∧ _))

/-- A report tells of a statement, how it branches, by what text, and in which line it stands. -/
def UnreadTarget.TellsOf (report : UnreadTarget) (number : UInt16) (s : Statement) : Prop :=
  report.line = number ∧
    ∃ bytes, s.Names report.branch bytes ∧ report.text = lossyText bytes

/-- What a program knows about its branches. -/
structure Program.CollectsTargets (p : Program) : Prop where
  /-- A statement has a target if and only if it names the number of a line. -/
  target : ∀ s ∈ p.statements, ∀ value,
    s.target?.map UInt16.toNat = some value ↔ value ≤ 65535 ∧
      ∃ branch bytes, s.Names branch bytes ∧ (lossyText bytes).trim.IsNumeral value
  /-- The same, in the bytes of the statement. -/
  spelled : ∀ s ∈ p.statements, ∀ value,
    s.target?.map UInt16.toNat = some value ↔ value ≤ 65535 ∧
      ∃ branch before numeral after, s.Names branch (Text.bytes (before ++ numeral ++ after)) ∧
        before.Blank ∧ numeral.IsNumeral value ∧ after.Blank
  /-- The lines that are jumped to. -/
  jumped : ∀ number, p.targets.isJumpedTo number = true ↔
    ∃ s ∈ p.statements, (∃ branch bytes, s.Names branch bytes ∧ branch ≠ .gosub) ∧
      s.target? = some number
  /-- The lines that are called. -/
  called : ∀ number, p.targets.isCalled number = true ↔
    ∃ s ∈ p.statements, (∃ bytes, s.Names .gosub bytes) ∧ s.target? = some number
  /-- One report for each branch to no line, in order, and no other. -/
  reported : List.Forall₂ (fun x report => report.TellsOf x.1 x.2)
    (p.numbered.filter fun x => x.2.Astray) p.unreadTargets

theorem forall₂_filterMap {α β : Type} {P : α → Prop} [DecidablePred P] {f : α → Option β}
    {R : α → β → Prop} {xs : List α} (hsome : ∀ x ∈ xs, P x → ∃ y, f x = some y ∧ R x y)
    (hnone : ∀ x ∈ xs, ¬ P x → f x = none) :
    List.Forall₂ R (xs.filter fun x => P x) (xs.filterMap f) := by
  induction xs with
  | nil => exact .nil
  | cons x xs ih =>
    have ih := ih (fun y hy => hsome y (.tail _ hy)) (fun y hy => hnone y (.tail _ hy))
    by_cases hx : P x
    · obtain ⟨y, hy, hR⟩ := hsome x (.head _) hx
      rw [List.filter_cons_of_pos (by simpa using hx), List.filterMap_cons_some hy]
      exact .cons hR ih
    · rw [List.filter_cons_of_neg (by simpa using hx),
        List.filterMap_cons_none (hnone x (.head _) hx)]
      exact ih

theorem Program.unreadTargets_eq (p : Program) :
    p.unreadTargets = p.numbered.filterMap fun x => x.2.unreadTarget? x.1 := by
  rw [unreadTargets, numbered, List.filterMap_flatMap]
  simp only [List.filterMap_map]
  rfl

theorem Statement.unreadTarget?_of_astray {s : Statement} (h : s.Astray) (number : UInt16) :
    ∃ report, s.unreadTarget? number = some report ∧ report.TellsOf number s := by
  obtain ⟨⟨branch, bytes, hnames⟩, htarget⟩ := h
  refine ⟨⟨branch, lossyText bytes, number⟩, ?_, rfl, bytes, hnames, rfl⟩
  rw [unreadTarget?, hnames.branch?_eq, htarget, ← hnames.targetText_eq]

theorem Statement.unreadTarget?_eq_none {s : Statement} (h : ¬ s.Astray) (number : UInt16) :
    s.unreadTarget? number = none := by
  rw [unreadTarget?]
  split
  · rename_i branch hbranch htarget
    exact absurd ⟨⟨branch, exists_names_of_branch? hbranch⟩, htarget⟩ h
  · rfl

/-- **Branches are collected exactly.**  Every program that is decoded knows the targets of its
    statements, the lines that are branched to, and the branches to no line. -/
theorem Program.ofImage_collects_targets (keywords : Keywords) (findAssignments : Bool)
    (image : Image) : (Program.ofImage keywords findAssignments image).CollectsTargets := by
  generalize ofImage keywords findAssignments image = p
  refine ⟨fun s _ value => Statement.target?_iff, fun s _ value => ?_, fun number => ?_,
    fun number => ?_, ?_⟩
  · rw [Statement.target?_iff]
    simp only [isNumeral_trim_lossyText_iff]
    constructor
    · rintro ⟨hle, branch, _, hnames, before, numeral, after, rfl, hnumeral⟩
      exact ⟨hle, branch, before, numeral, after, hnames, hnumeral⟩
    · rintro ⟨hle, branch, before, numeral, after, hnames, hnumeral⟩
      exact ⟨hle, branch, _, hnames, before, numeral, after, rfl, hnumeral⟩
  · simp only [isJumpedTo_iff, IsJumpedTo, Statement.head_jumps_iff]
  · simp only [isCalled_iff, IsCalled, Statement.head_eq_gosub_iff]
  · rw [unreadTargets_eq]
    exact forall₂_filterMap (fun x _ hx => x.2.unreadTarget?_of_astray hx x.1)
      (fun x _ hx => x.2.unreadTarget?_eq_none hx x.1)

end BasicListing
