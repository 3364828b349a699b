/-
  The columns of assignments.

  * `Statement.MayAssign`: the statements that are looked at for an `=`.
  * `Statement.FirstEquals`: where the token `=` stands among their bytes.
  * `Statement.exists_text_of_firstEquals`: the text up to the `=` of that token
    is the text of the bytes before it, and a space where they do not end in one.
  * `Program.assignmentColumn_of_equals`: so the column of an assignment is that
    of its token, and spaces put before the `=` move it where it should stand.
-/
import BasicListing.Proofs.Expansion
import BasicListing.Proofs.Leading
import BasicListing.Proofs.LineUp

namespace BasicListing

/-! ## Statements that may be assignments -/

/-- A statement that is an assignment if it has an `=`: it is led by `LET` or, if `all` is set, by a
    character that is not a digit. -/
inductive Statement.MayAssign (all : Bool) (s : Statement) : Prop
  | withLet {rest : List UInt8} (h : s.body = Code.letAssign :: rest)
  | plain {b : UInt8} {rest : List UInt8} (hall : all = true) (h : s.body = b :: rest)
    (hplain : b < 128) (hdigit : ¬ (0x30 ≤ b ∧ b ≤ 0x39))

namespace Program

variable {p : Program} {s : Statement}

theorem assignmentColumn_of_mayAssign (h : s.MayAssign p.findAssignments) :
    p.assignmentColumn s = s.equalsColumn p.keywords := by
  rw [assignmentColumn, Statement.assignmentColumn]
  cases h with
  | withLet h =>
    rw [Statement.head_of_body h]
    rfl
  | plain hall h hplain hdigit =>
    rw [Statement.head_of_body h, Token.ofByte_of_le (by grind)]
    simp [hall, Token.isDigit, hdigit]

/-- Only a statement that may be an assignment and has an `=` is one. -/
theorem mayAssign_of_assignment (h : 0 < p.assignmentColumn s) :
    s.MayAssign p.findAssignments ∧ Code.equals ∈ s.operand := by
  have hbody := Statement.body_eq (equals_of_assignment h).2.2
  obtain ⟨hcolumn, hhead⟩ := assignment_cases h
  constructor
  · rcases hhead with hlet | ⟨hall, b, hplain, hdigit⟩
    · rw [hlet] at hbody
      exact .withLet hbody
    · rw [hplain] at hbody
      exact .plain hall hbody (Token.lt_of_ofByte_eq_plain hplain)
        (by simpa [Token.isDigit, Token.byte] using hdigit)
  · rw [hcolumn, Statement.equalsColumn] at h
    split_ifs at h with hcontains
    · exact List.contains_iff_mem.1 (Bool.and_eq_true_iff.1 hcontains).1
    · omega

end Program

/-! ## The token `=` -/

/-- The first token `=` behind the first byte of a statement has the index `k` in its body. -/
def Statement.FirstEquals (s : Statement) (k : Nat) : Prop :=
  0 < k ∧ s.body[k]? = some Code.equals ∧ ∀ i, 0 < i → i < k → s.body[i]? ≠ some Code.equals

namespace Statement

variable {s : Statement} {k : Nat}

theorem FirstEquals.body_eq (h : s.FirstEquals k) :
    s.body = s.body.take k ++ [Code.equals] ++ s.body.drop (k + 1) := by
  obtain ⟨hk, hequals⟩ := List.getElem?_eq_some_iff.1 h.2.1
  rw [List.append_assoc, List.singleton_append, ← hequals, ← List.drop_eq_getElem_cons,
    List.take_append_drop]

theorem FirstEquals.mem_operand (h : s.FirstEquals k) : Code.equals ∈ s.operand := by
  obtain ⟨hpos, hequals, -⟩ := h
  refine List.mem_of_getElem? (i := k - 1) ?_
  rw [operand, List.getElem?_tail, Nat.sub_add_cancel hpos, hequals]

/-- The text of a statement before the `=` of its first token `=`. -/
theorem exists_text_of_firstEquals (h : s.FirstEquals k) :
    ∃ value, s.text .standard =
      (Keywords.standard.expand (s.body.take k) ++
        Keywords.gapBehind (Keywords.standard.expand (s.body.take k))) ++ '=' :: value := by
  have hkeyword : Keywords.standard Code.equals = some ['=', ' '] := by decide +kernel
  have htoken := Keywords.standard.expand_concat_token (s.body.take k)
    (by decide : Code.equals > 127)
  obtain ⟨more, hmore⟩ := Keywords.standard.expand_prefix_append (s.body.take k ++ [Code.equals])
    (s.body.drop (k + 1))
  rw [← h.body_eq, htoken, hkeyword] at hmore
  refine ⟨' ' :: more, ?_⟩
  rw [text, ← hmore, List.append_assoc]
  rfl

/-- The bytes before the token `=` of an assignment have a text. -/
theorem expand_take_ne_nil {all : Bool} (hassigns : s.MayAssign all) (h : s.FirstEquals k) :
    Keywords.standard.expand (s.body.take k) ≠ [] := by
  obtain ⟨b, rest, hbody, hfirst⟩ : ∃ b rest, s.body = b :: rest ∧
      Keywords.standard.expand [b] ≠ [] := by
    cases hassigns with
    | withLet hbody => exact ⟨_, _, hbody, by decide +kernel⟩
    | plain hall hbody hplain hdigit =>
      refine ⟨_, _, hbody, ?_⟩
      rw [Keywords.expand, List.foldl_cons, List.foldl_nil, Keywords.extend, if_neg (by grind)]
      split_ifs <;> simp
  obtain ⟨n, rfl⟩ := Nat.exists_eq_add_of_lt h.1
  rw [hbody, Nat.zero_add, List.take_succ_cons]
  intro hnil
  have hprefix := Keywords.standard.expand_prefix_append [b] (rest.take n)
  rw [List.singleton_append, hnil, List.prefix_nil] at hprefix
  exact hfirst hprefix

/-- The `=` that is looked for in the text is the one of the token. -/
theorem equalsColumn_of_firstEquals {all : Bool} (hassigns : s.MayAssign all)
    (h : s.FirstEquals k) (hfront : '=' ∉ Keywords.standard.expand (s.body.take k)) :
    s.equalsColumn .standard = (Keywords.standard.expand (s.body.take k)).width +
      if (Keywords.standard.expand (s.body.take k)).getLast? = some ' ' then 0 else 1 := by
  obtain ⟨value, htext⟩ := exists_text_of_firstEquals h
  have hne := expand_take_ne_nil hassigns h
  generalize Keywords.standard.expand (s.body.take k) = front at *
  have hgap : '=' ∉ front ++ Keywords.gapBehind front := by
    rw [List.mem_append, not_or, Keywords.gapBehind]
    exact ⟨hfront, by split_ifs <;> simp⟩
  rw [equalsColumn, if_pos, htext, takeWhile_bne_append hgap, Text.width_append,
    Keywords.gapBehind]
  · simp only [hne, false_or, apply_ite Text.width]
    rfl
  · simp [h.mem_operand, htext]

end Statement

/-! ## Columns -/

/-- **The column of an assignment is that of its token `=`**, and the `=` can be moved from there.

    * With the standard keywords, a statement that may be an assignment has the column at which the
      text of the bytes before its token `=` ends, or the next one if that text does not end in a
      space, provided that there is no other `=` in that text.
    * A statement that may not be an assignment has no column, and so has one without the token.
    * With any keywords, the text of a statement is left alone by a column that is not to the right
      of its own.  A column further to the right takes spaces before the first `=`, which stands in
      that column then. -/
theorem Program.assignmentColumn_of_equals (p : Program) (s : Statement) :
    (p.keywords = .standard → s.MayAssign p.findAssignments → ∀ k, s.FirstEquals k →
      let front := p.keywords.expand (s.body.take k)
      '=' ∉ front → p.assignmentColumn s =
        front.width + if front.getLast? = some ' ' then 0 else 1) ∧
    (¬ s.MayAssign p.findAssignments ∨ Code.equals ∉ s.operand → p.assignmentColumn s = 0) ∧
    ∀ column,
      (p.assignmentColumn s = 0 ∨ column ≤ p.assignmentColumn s → p.textAt s column = p.text s) ∧
      (p.assignmentColumn s ≠ 0 → p.assignmentColumn s < column →
        ∃ left right, p.text s = left ++ '=' :: right ∧ '=' ∉ left ∧
          p.textAt s column =
            left ++ Text.spaces (column - p.assignmentColumn s) ++ '=' :: right ∧
          (left ++ Text.spaces (column - p.assignmentColumn s)).width = column) := by
  refine ⟨?_, ?_, fun column => ⟨?_, ?_⟩⟩
  · intro hkeywords hassigns k hk
    rw [assignmentColumn_of_mayAssign hassigns, hkeywords]
    exact Statement.equalsColumn_of_firstEquals hassigns hk
  · intro h
    by_contra hne
    obtain ⟨hassigns, hequals⟩ := mayAssign_of_assignment (Nat.pos_of_ne_zero hne)
    exact h.elim (fun hnot => hnot hassigns) fun hnot => hnot hequals
  · intro h
    rw [textAt, Statement.textAt, if_neg, text]
    change ¬ (0 < p.assignmentColumn s ∧ p.assignmentColumn s < column)
    omega
  · intro hne hlt
    obtain ⟨left, right, htext, hleft, hwidth, htextAt⟩ :=
      textAt_of_assignment (Nat.pos_of_ne_zero hne) hlt.le
    refine ⟨left, right, htext, hleft, htextAt, ?_⟩
    rw [Text.width_append, Text.width_spaces, hwidth]
    omega

/-- `10 LET A$="X=Y": PRINT A$=B$` -/
def letAndCompare : Image :=
  [0x16, 0x08, 10, 0, 0xAA, 0x41, 0x24, 0xD0, 0x22, 0x58, 0x3D, 0x59, 0x22, 0x3A,
   0xBA, 0x41, 0x24, 0xD0, 0x42, 0x24, 0, 0, 0]

theorem Program.assignmentColumn_of_equals_letAndCompare :
    let p := Program.ofImage .standard true letAndCompare
    ∃ s t, p.statements = [s, t] ∧ p.assignmentColumn s = 7 ∧ p.textAt s 7 = p.text s ∧
      (∃ left right, p.text s = left ++ '=' :: right ∧ '=' ∉ left ∧
        p.textAt s 10 = left ++ [' ', ' ', ' '] ++ '=' :: right ∧
        (left ++ [' ', ' ', ' ']).width = 10) ∧
      Code.equals ∈ t.operand ∧ p.assignmentColumn t = 0 := by
  intro p
  let s : Statement := ⟨4, [0xAA, 0x41, 0x24, 0xD0, 0x22, 0x58, 0x3D, 0x59, 0x22], .colon, true⟩
  let t : Statement := ⟨14, [0xBA, 0x41, 0x24, 0xD0, 0x42, 0x24], .zero, false⟩
  have hfirst : s.FirstEquals 3 := by
    refine ⟨by decide, by decide, fun i hi hik => ?_⟩
    obtain rfl | rfl : i = 1 ∨ i = 2 := by omega
    all_goals decide
  have hcolumn : p.assignmentColumn s = 7 :=
    (assignmentColumn_of_equals p s).1 rfl (.withLet rfl) 3 hfirst (by decide +kernel)
  have hnot : ¬ t.MayAssign p.findAssignments := by
    rintro (hlet | ⟨-, hbody, hplain, -⟩)
    · cases hlet
    · cases hbody
      exact absurd hplain (by decide)
  have hmoved := (assignmentColumn_of_equals p s).2.2
  rw [hcolumn] at hmoved
  exact ⟨s, t, by decide +kernel, hcolumn, (hmoved 7).1 (.inr le_rfl),
    (hmoved 10).2 (by decide) (by decide), by decide,
    (assignmentColumn_of_equals p t).2.1 (.inl hnot)⟩

end BasicListing
