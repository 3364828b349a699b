/-
  Texts of printable characters.

  With the standard keywords, all that a listing shows is printable ASCII,
  whatever bytes the program holds: control characters are shown as a caret
  and a letter.  So each character takes one column, and no text holds a line
  feed of its own.

  * `Text.Printable`: only printable characters.
  * `Keywords.expand_forall`: what holds of plain characters and of all
    keywords of a table holds of every text the table expands to.
  * `Keywords.Ascii`: a table whose keywords are all in ASCII.
  * `Keywords.printable_expand`, `CodeRow.printable_text`,
    `printable_rowStart`: the texts that rows are made of.
-/
import BasicListing.Printer
import Mathlib

namespace BasicListing

namespace Text

/-- The text is in ASCII and holds no character below the space. -/
def Printable (t : Text) : Prop := ∀ c ∈ t, 32 ≤ c.toNat ∧ c.toNat ≤ 127

instance (t : Text) : Decidable t.Printable := List.decidableBAll _ t

@[simp] theorem printable_nil : Printable [] := by simp [Printable]

@[simp] theorem printable_cons {c : Char} {t : Text} :
    Printable (c :: t) ↔ (32 ≤ c.toNat ∧ c.toNat ≤ 127) ∧ t.Printable := by
  simp [Printable]

@[simp] theorem printable_append {t u : Text} :
    Printable (t ++ u) ↔ t.Printable ∧ u.Printable := by
  simp only [Printable, List.forall_mem_append]

@[simp] theorem printable_spaces (n : Nat) : (spaces n).Printable := by
  intro c hc
  rw [List.eq_of_mem_replicate hc]
  decide

theorem Printable.padTo {t : Text} (h : t.Printable) (column : Nat) :
    (t.padTo column).Printable := by
  simp [Text.padTo, h]

theorem Printable.padLeft {t : Text} (h : t.Printable) (columns : Nat) :
    (t.padLeft columns).Printable := by
  simp [Text.padLeft, h]

theorem Printable.mono {t u : Text} (h : u.Printable) (hsub : t ⊆ u) : t.Printable :=
  fun c hc => h c (hsub hc)

theorem Printable.trimEnd {t : Text} (h : t.Printable) : t.trimEnd.Printable := by
  refine h.mono fun c hc => ?_
  rw [Text.trimEnd, List.mem_reverse] at hc
  exact List.mem_reverse.1 ((List.dropWhile_suffix _).subset hc)

theorem printable_flatMap {α : Type} {xs : List α} {f : α → Text}
    (h : ∀ x ∈ xs, (f x).Printable) : Printable (xs.flatMap f) := by
  intro c hc
  obtain ⟨x, hx, hcx⟩ := List.mem_flatMap.1 hc
  exact h x hx c hcx

/-- The text is in ASCII. -/
def Ascii (t : Text) : Prop := ∀ c ∈ t, c.toNat ≤ 127

theorem Printable.ascii {t : Text} (h : t.Printable) : t.Ascii := fun c hc => (h c hc).2

theorem utf8Size_of_le {c : Char} (h : c.toNat ≤ 127) : c.utf8Size = 1 :=
  Char.utf8Size_eq_one_iff.2 (UInt32.le_iff_toNat_le.2 h)

theorem ascii_append {t u : Text} : Ascii (t ++ u) ↔ t.Ascii ∧ u.Ascii := List.forall_mem_append

theorem Ascii.width_eq {t : Text} (h : t.Ascii) : t.width = t.length := by
  induction t with
  | nil => rfl
  | cons c t ih =>
    obtain ⟨hc, ht⟩ := List.forall_mem_cons.1 h
    rw [width_cons, utf8Size_of_le hc, ih ht, List.length_cons, Nat.add_comm]

theorem Printable.width_eq {t : Text} (h : t.Printable) : t.width = t.length := h.ascii.width_eq

theorem Printable.newline_notMem {t : Text} (h : t.Printable) : '\n' ∉ t :=
  fun hc => absurd (h _ hc).1 (by decide)

end Text

/-! ## Numbers -/

theorem printable_hexDigit (n : Nat) : Text.Printable [hexDigit n] := by
  by_cases hn : n < 16
  · revert n; decide
  · have : hexDigit n = '0' := List.getD_eq_default _ _ (by simpa using hn)
    rw [this]; decide

theorem printable_hexByte (b : UInt8) : (hexByte b).Printable := by
  have hhigh := printable_hexDigit (b.toNat / 16)
  have hlow := printable_hexDigit (b.toNat % 16)
  simp only [Text.printable_cons, Text.printable_nil, and_true] at hhigh hlow
  simp [hexByte, hhigh, hlow]

theorem printable_hexWord (w : UInt16) : (hexWord w).Printable := by
  have hdigit := printable_hexDigit
  simp only [Text.printable_cons, Text.printable_nil, and_true] at hdigit
  simp [hexWord, hdigit]

theorem isDigit_of_mem_decimal {n : Nat} {c : Char} (h : c ∈ decimal n) : c.isDigit :=
  Nat.isDigit_of_mem_toDigits (by decide) (by decide) h

theorem printable_decimal (n : Nat) : (decimal n).Printable := by
  intro c hc
  have hdigit : 48 ≤ c.toNat ∧ c.toNat ≤ 57 :=
    Char.isDigit_iff_toNat.1 (isDigit_of_mem_decimal hc)
  omega

/-! ## Texts of statements -/

namespace Keywords

variable {table : Keywords} {P : Char → Prop}

/-- What holds of plain characters and of all keywords holds of all that is written. -/
theorem extend_forall (hplain : ∀ n, 32 ≤ n → n ≤ 127 → P (Char.ofNat n))
    (htable : ∀ b keyword, table b = some keyword → ∀ c ∈ keyword, P c)
    {written : Text} (hwritten : ∀ c ∈ written, P c) (b : UInt8) :
    ∀ c ∈ table.extend written b, P c := by
  have hgap : ∀ c ∈ openGap written, P c := by
    unfold openGap
    split
    · simp
    · exact hwritten
    · rintro c (_ | ⟨_, hc⟩)
      · exact hplain 32 (by decide) (by decide)
      · exact hwritten c hc
  have hb := b.toNat_lt
  unfold extend
  split_ifs with htoken hcontrol
  · intro c hc
    rw [List.reverseAux_eq, List.mem_append, List.mem_reverse] at hc
    rcases hc with hc | hc
    · cases hkeyword : table b with
      | none => simp [hkeyword] at hc
      | some keyword => exact htable b keyword hkeyword c (by simpa [hkeyword] using hc)
    · exact hgap c hc
  · rw [UInt8.lt_iff_toNat_lt] at hcontrol
    change b.toNat < 32 at hcontrol
    rintro c (_ | ⟨_, _ | ⟨_, hc⟩⟩)
    · exact hplain _ (by omega) (by omega)
    · exact hplain 94 (by decide) (by decide)
    · exact hwritten c hc
  · rw [UInt8.lt_iff_toNat_lt] at hcontrol
    rw [gt_iff_lt, UInt8.lt_iff_toNat_lt] at htoken
    change ¬ b.toNat < 32 at hcontrol
    change ¬ 127 < b.toNat at htoken
    rintro c (_ | ⟨_, hc⟩)
    · exact hplain _ (by omega) (by omega)
    · exact hwritten c hc

theorem expand_forall (hplain : ∀ n, 32 ≤ n → n ≤ 127 → P (Char.ofNat n))
    (htable : ∀ b keyword, table b = some keyword → ∀ c ∈ keyword, P c) (bytes : List UInt8) :
    ∀ c ∈ table.expand bytes, P c := by
  suffices h : ∀ written : Text, (∀ c ∈ written, P c) →
      ∀ c ∈ bytes.foldl table.extend written, P c by
    intro c hc
    exact h [] (by simp) c (List.mem_reverse.1 hc)
  induction bytes with
  | nil => exact fun _ hwritten => hwritten
  | cons b bytes ih =>
    intro written hwritten
    exact ih _ (extend_forall hplain htable hwritten b)

theorem exists_of_ofEntries {entries : List (UInt8 × String)} {b : UInt8} {keyword : Text}
    (h : ofEntries entries b = some keyword) : ∃ entry ∈ entries, entry.2.toList = keyword := by
  have hfold : ∀ (es : List (UInt8 × String)) (found : Option Text),
      es.foldl (fun found entry => if entry.1 = b then some entry.2.toList else found) found =
        some keyword → found = some keyword ∨ ∃ entry ∈ es, entry.2.toList = keyword := by
    intro es
    induction es with
    | nil => exact fun _ hfound => Or.inl hfound
    | cons entry es ih =>
      intro found hfound
      rcases ih _ hfound with hif | ⟨e, he, hk⟩
      · by_cases hb : entry.1 = b
        · simp only [hb, ↓reduceIte, Option.some.injEq] at hif
          exact Or.inr ⟨entry, by simp, hif⟩
        · simp only [hb, ↓reduceIte] at hif
          exact Or.inl hif
      · exact Or.inr ⟨e, by simp [he], hk⟩
  rcases hfold entries none h with hnone | hentry
  · simp at hnone
  · exact hentry

theorem printable_standard {b : UInt8} {keyword : Text} (h : standard b = some keyword) :
    keyword.Printable := by
  obtain ⟨entry, hentry, rfl⟩ := exists_of_ofEntries h
  have hall : ∀ entry ∈ standardEntries, Text.Printable entry.2.toList := by
    decide +kernel
  exact hall entry hentry

/-- **Expanded text is printable**, whatever bytes it stands for. -/
theorem printable_expand (bytes : List UInt8) : (standard.expand bytes).Printable := by
  refine expand_forall (fun n hlow hhigh => ?_) (fun b keyword h => printable_standard h) bytes
  rw [Char.toNat_ofNat, if_pos (Or.inl (by omega))]
  exact ⟨hlow, hhigh⟩

/-- All keywords are in ASCII. -/
def Ascii (table : Keywords) : Prop := ∀ b keyword, table b = some keyword → keyword.Ascii

theorem ascii_standard : standard.Ascii := fun _ _ h => (printable_standard h).ascii

theorem Ascii.expand (h : table.Ascii) (bytes : List UInt8) : (table.expand bytes).Ascii := by
  refine expand_forall (fun n _ hhigh => ?_) h bytes
  rwa [Char.toNat_ofNat, if_pos (Or.inl (by omega))]

end Keywords

/-! ## Rows of code -/

theorem printable_mnemonic (m : Mnemonic) : m.text.Printable := by
  cases m <;> decide

theorem printable_operandText (mode : AddressingMode) (address : UInt16) (low high : UInt8) :
    (mode.operandText address low high).Printable := by
  have hbyte := printable_hexByte low
  have hword := printable_hexWord
  cases mode <;> simp [AddressingMode.operandText, hbyte, hword]

namespace CodeRow

theorem printable_instruction (row : CodeRow) : row.instruction.Printable := by
  unfold instruction
  split
  · exact printable_mnemonic _
  · decide
  · decide

theorem printable_operand (row : CodeRow) : row.operand.Printable := by
  have hbytes : Text.Printable (row.bytes.flatMap hexByte) :=
    Text.printable_flatMap fun b _ => printable_hexByte b
  unfold operand
  split
  · exact printable_operandText _ _ _ _
  · exact Text.printable_append.2 ⟨by decide, hbytes⟩
  · exact hbytes

theorem printable_hexBytes (bytes : List UInt8) :
    Text.Printable ([' '].intercalate (bytes.map hexByte)) := by
  induction bytes with
  | nil => simp
  | cons b bytes ih =>
    cases bytes with
    | nil => simpa using printable_hexByte b
    | cons b' bytes =>
      rw [List.map_cons, List.map_cons, List.intercalate_cons_cons, ← List.map_cons]
      simpa [printable_hexByte] using ih

theorem printable_text (row : CodeRow) : row.text.Printable := by
  refine Text.Printable.trimEnd ?_
  simp [printable_hexWord, (printable_hexBytes row.bytes).padTo, row.printable_instruction.padTo,
    row.printable_operand]

end CodeRow

/-! ## The gutter -/

/-- A pair of marks is a pair of printable characters, if each mark is one. -/
theorem pairText_spec {mark : Option String} (other : Option String)
    (hmark : ∀ m ∈ mark, Text.Printable m.toList ∧ m.toList.length = 2) :
    (pairText mark other).Printable ∧ (pairText mark other).length = 2 := by
  cases mark with
  | some m => exact hmark m rfl
  | none => cases other with
    | none => decide
    | some _ => change Text.Printable "--".toList ∧ "--".toList.length = 2
                decide

theorem sourceMark_spec (line : Line) :
    ∀ m ∈ sourceMark line, Text.Printable m.toList ∧ m.toList.length = 2 := by
  unfold sourceMark
  split
  · decide
  · decide
  · simp

theorem targetMark_spec (targets : Targets) (line : Line) :
    ∀ m ∈ targetMark targets line, Text.Printable m.toList ∧ m.toList.length = 2 := by
  unfold targetMark
  split_ifs
  · decide
  · decide
  · simp

theorem printable_numberText (settings : Settings) (targets : Targets) (line : Line) :
    (numberText settings targets line).Printable := by
  unfold numberText
  split_ifs
  · exact Text.printable_nil
  · exact (printable_decimal _).padLeft 5

theorem length_numberText_le (settings : Settings) (targets : Targets) (line : Line) :
    (numberText settings targets line).length ≤ 5 := by
  unfold numberText
  split_ifs
  · exact Nat.zero_le _
  · have hlength : (decimal line.number.toNat).length ≤ 5 := by
      refine (Nat.length_toDigits_le_iff (by decide) (by decide)).2 ?_
      have := line.number.toNat_lt
      omega
    rw [Text.padLeft, (printable_decimal _).width_eq, List.length_append, Text.spaces,
      List.length_replicate]
    omega

theorem printable_rowStart (settings : Settings) (targets : Targets) (line : Line) :
    (rowStart settings targets line).Printable := by
  have hnumber := printable_numberText settings targets line
  have hsource := (pairText_spec (targetMark targets line) (sourceMark_spec line)).1
  have htarget := (pairText_spec (sourceMark line) (targetMark_spec targets line)).1
  unfold rowStart gutter
  split_ifs <;> simp [hnumber, hsource, htarget]

/-- The gutter leaves room for the text that is not indented. -/
theorem width_rowStart_le (settings : Settings) (targets : Targets) (line : Line) :
    (rowStart settings targets line).width ≤ settings.textColumn := by
  have hnumber := length_numberText_le settings targets line
  have hsource := (pairText_spec (targetMark targets line) (sourceMark_spec line)).2
  have htarget := (pairText_spec (sourceMark line) (targetMark_spec targets line)).2
  rw [(printable_rowStart settings targets line).width_eq]
  unfold rowStart gutter Settings.textColumn
  split_ifs <;> simp [Text.spaces, hsource, htarget] <;> omega

end BasicListing
