/-
  What the statements of a line can be led by.

  * `Splitter.Leads`: what the reader of a body knows about heads.  A remark
    is never ended before the line is, and all loops and clauses that have
    been opened took two bytes each, but for an `IF` with a `GOTO` right behind.
  * `splitBody_remark`: only the last statement of a line can be a remark.
  * `Program.blocks_le`: there are at most half as many loops and clauses in a
    program as it has bytes.
-/
import BasicListing.Proofs.Decoding
import BasicListing.Proofs.Pass

namespace BasicListing

/-! ## Heads and first bytes -/

/-- The byte of a token. -/
def Token.byte : Token → UInt8
  | .forLoop => Code.forLoop
  | .nextLoop => Code.nextLoop
  | .letAssign => Code.letAssign
  | .goto => Code.goto
  | .gosub => Code.gosub
  | .ifCondition => Code.ifCondition
  | .thenClause => Code.thenClause
  | .remark => Code.remark
  | .print => Code.print
  | .equals => Code.equals
  | .other b => b
  | .plain b => b

theorem Token.byte_ofByte (b : UInt8) : (ofByte b).byte = b := by
  by_cases hfor : b = Code.forLoop
  · rw [hfor]; rfl
  by_cases hnext : b = Code.nextLoop
  · rw [hnext]; rfl
  grind [ofByte, byte]

theorem Token.eq_byte {b : UInt8} {t : Token} (h : ofByte b = t) : b = t.byte := by
  rw [← h, byte_ofByte]

/-- A byte of ASCII is no token. -/
theorem Token.ofByte_of_le {b : UInt8} (h : b ≤ 0x7F) : ofByte b = .plain b := by
  have hne (code : UInt8) (hcode : 0x7F < code := by decide) : b ≠ code := by
    rintro rfl
    exact UInt8.not_le.2 hcode h
  simp only [ofByte, hne Code.forLoop, hne Code.nextLoop, hne Code.letAssign, hne Code.goto,
    hne Code.gosub, hne Code.ifCondition, hne Code.thenClause, hne Code.remark, hne Code.print,
    hne Code.equals, if_false]
  exact if_neg (UInt8.not_lt.2 h)

/-- A byte beyond ASCII is a token. -/
theorem Token.isToken_ofByte {b : UInt8} (h : b > 127) : (ofByte b).isToken = true := by
  simp only [ofByte, if_pos h, apply_ite isToken]
  simp only [isToken, ite_self]

theorem Token.lt_of_ofByte_eq_plain {b c : UInt8} (h : ofByte b = .plain c) : c < 128 := by
  obtain rfl : b = c := eq_byte h
  by_contra hle
  have htoken := isToken_ofByte (UInt8.lt_of_lt_of_le (by decide : 127 < 128) (UInt8.not_lt.1 hle))
  rw [h] at htoken
  exact Bool.false_ne_true htoken

namespace Statement

theorem head_of_body {s : Statement} {b : UInt8} {rest : List UInt8} (h : s.body = b :: rest) :
    s.head = Token.ofByte b := by
  rw [head, bytes, h, List.cons_append, List.headD_cons]

theorem body_eq {s : Statement} (h : s.isEmpty = false) : s.body = s.head.byte :: s.operand := by
  rw [isEmpty, List.isEmpty_eq_false_iff] at h
  obtain ⟨b, rest, hbody⟩ := List.exists_cons_of_ne_nil h
  rw [operand, head_of_body hbody, hbody, Token.byte_ofByte]
  rfl

/-- A statement that opens a loop or a clause, and so indents what follows. -/
def opensBlock (s : Statement) : Bool := s.isLedBy .forLoop || s.isLedBy .ifCondition

theorem opensBlock_iff {s : Statement} :
    s.opensBlock = true ↔ s.head = .forLoop ∨ s.head = .ifCondition := by
  rw [opensBlock, Bool.or_eq_true, isLedBy_iff, isLedBy_iff]

theorem opensBlock_of_isEmpty {s : Statement} (h : s.isEmpty = true) : s.opensBlock = false := by
  rw [← Bool.not_eq_true, opensBlock_iff]
  rcases head_of_isEmpty h with h | h <;> simp [h]

end Statement

/-- The number of loops and clauses that some statements open. -/
def blockCount (ss : List Statement) : Nat := ss.countP Statement.opensBlock

theorem blockCount_cons (s : Statement) (ss : List Statement) :
    blockCount (s :: ss) = blockCount ss + if s.opensBlock then 1 else 0 :=
  List.countP_cons

theorem blockCount_append (ss ss' : List Statement) :
    blockCount (ss ++ ss') = blockCount ss + blockCount ss' :=
  List.countP_append

/-! ## Reading a body -/

namespace Splitter

/-- What holds of heads while a body is read.  The first byte of the current statement is the last
    in `current`. -/
structure Leads (s : Splitter) : Prop where
  atStart : s.current = [] → s.context = .plain
  inRemark : s.current.getLast? = some Code.remark → s.context = .remark
  remark : ∀ t ∈ s.done, t.head ≠ .remark
  blocks : 2 * blockCount s.done ≤ total (s.done.map Statement.size) +
    if s.current.getLast? = some Code.goto then 1 else 0

variable {s : Splitter}

/-- The statement that is being read, if it ends here. -/
def last (s : Splitter) (ending : Ending) : Statement :=
  ⟨s.start, s.current.reverse, ending, s.done.isEmpty⟩

theorem done_close_eq (s : Splitter) (ending : Ending) :
    (s.close ending).done = s.last ending :: s.done := rfl

theorem size_last (s : Splitter) (ending : Ending) :
    (s.last ending).size = s.current.length + ending.size := by
  simp [last, Statement.size]

theorem isEmpty_last (h : s.current = []) (ending : Ending) : (s.last ending).isEmpty = true := by
  simp [last, Statement.isEmpty, h]

theorem head_last {b : UInt8} (h : s.current.getLast? = some b) (ending : Ending) :
    (s.last ending).head = Token.ofByte b := by
  have hhead : s.current.reverse.head? = some b := by rw [List.head?_reverse, h]
  rcases hrev : s.current.reverse with _ | ⟨c, rest⟩
  · simp [hrev] at hhead
  · rw [hrev] at hhead
    obtain rfl : c = b := Option.some.inj hhead
    simp [Statement.head, Statement.bytes, last, hrev]

theorem exists_getLast? (h : s.current ≠ []) : ∃ b, s.current.getLast? = some b :=
  ⟨_, List.getLast?_eq_some_getLast h⟩

theorem Leads.start (offset : Nat) : Leads { start := offset } :=
  ⟨fun _ => rfl, by simp, by simp, by simp [blockCount]⟩

theorem Leads.take (h : s.Leads) {b : UInt8} {context : Context}
    (hfirst : b = Code.remark → s.current = [] → context = .remark)
    (hkeep : s.context = .remark → context = .remark) : (s.take b context).Leads := by
  by_cases hcurrent : s.current = []
  · have hlast : (s.take b context).current.getLast? = some b := by simp [Splitter.take, hcurrent]
    have hblocks := h.blocks
    simp only [hcurrent, List.getLast?_nil, reduceCtorEq, if_false] at hblocks
    refine ⟨by simp [Splitter.take], fun hb => ?_, h.remark, hblocks.trans (Nat.le_add_right _ _)⟩
    rw [hlast] at hb
    exact hfirst (Option.some.inj hb) hcurrent
  · obtain ⟨c, hc⟩ := exists_getLast? hcurrent
    have hlast : (s.take b context).current.getLast? = s.current.getLast? := by
      rw [Splitter.take, List.getLast?_cons, hc]; rfl
    refine ⟨by simp [Splitter.take], fun hb => hkeep (h.inRemark (hlast ▸ hb)), h.remark, ?_⟩
    rw [hlast]; exact h.blocks

theorem Leads.remark_close (h : s.Leads) (hcontext : s.context ≠ .remark) (ending : Ending) :
    ∀ t ∈ (s.close ending).done, t.head ≠ .remark := by
  rw [done_close_eq, List.forall_mem_cons]
  refine ⟨fun hhead => ?_, h.remark⟩
  by_cases hcurrent : s.current = []
  · rcases Statement.head_of_isEmpty (isEmpty_last hcurrent ending) with he | he <;>
      simp [he] at hhead
  · obtain ⟨b, hb⟩ := exists_getLast? hcurrent
    rw [head_last hb] at hhead
    rw [Token.eq_byte hhead] at hb
    exact hcontext (h.inRemark hb)

/-- Ending a statement of two bytes pays for it; one that is shorter leaves a debt. -/
theorem Leads.blocks_close (h : s.Leads) {ending : Ending} {debt : Nat}
    (hdebt : s.current ≠ [] → 2 ≤ s.current.length + ending.size + debt) :
    2 * blockCount (s.close ending).done ≤
      total ((s.close ending).done.map Statement.size) + debt := by
  have hblocks := h.blocks
  rw [done_close_eq, blockCount_cons, List.map_cons, total_cons, size_last]
  by_cases hcurrent : s.current = []
  · rw [Statement.opensBlock_of_isEmpty (isEmpty_last hcurrent ending)]
    simp only [hcurrent, List.getLast?_nil, reduceCtorEq, if_false] at hblocks
    simp only [Bool.false_eq_true, if_false]
    omega
  · obtain ⟨b, hb⟩ := exists_getLast? hcurrent
    have hpos := List.length_pos_iff.2 hcurrent
    have hdebt := hdebt hcurrent
    rw [hb] at hblocks
    by_cases hgoto : b = Code.goto
    · -- A statement that `GOTO` leads opens nothing, and has a byte to spare.
      have hopens : (s.last ending).opensBlock = false := by
        rw [← Bool.not_eq_true, Statement.opensBlock_iff, head_last hb, hgoto]; decide
      rw [hopens]
      simp only [hgoto, if_true] at hblocks
      simp only [Bool.false_eq_true, if_false]
      omega
    · rw [if_neg fun heq => hgoto (Option.some.inj heq)] at hblocks
      split_ifs <;> omega

theorem Leads.close (h : s.Leads) (hcontext : s.context ≠ .remark) {ending : Ending}
    (hsize : s.current ≠ [] → 2 ≤ s.current.length + ending.size) : (s.close ending).Leads :=
  ⟨fun _ => rfl, by simp [Splitter.close], h.remark_close hcontext ending,
    h.blocks_close fun hne => by have := hsize hne; omega⟩

theorem Leads.step (h : s.Leads) (b : UInt8) : (s.step b).Leads := by
  unfold Splitter.step
  cases hcontext : s.context with
  | plain =>
    simp only
    split_ifs with hcolon hquote hremark hif
    · refine h.close (by rw [hcontext]; decide) fun hne => ?_
      have := List.length_pos_iff.2 hne
      change 2 ≤ s.current.length + 1
      omega
    · exact h.take (fun hr => by rw [hquote] at hr; cases hr) (by simp [hcontext])
    · exact h.take (fun _ _ => rfl) fun _ => rfl
    · exact h.take (fun hr => absurd hr hremark) (by simp [hcontext])
    · exact h.take (fun hr => absurd hr hremark) (by simp [hcontext])
  | string =>
    refine h.take (fun _ hnil => ?_) (by simp [hcontext])
    have := h.atStart hnil
    rw [hcontext] at this; cases this
  | remark => exact h.take (fun _ _ => rfl) fun _ => rfl
  | condition =>
    have hne : s.current ≠ [] := fun hnil => by
      have := h.atStart hnil
      rw [hcontext] at this; cases this
    have hpos := List.length_pos_iff.2 hne
    simp only
    split_ifs with hthen hgoto
    · have htake : (s.take b .plain).Leads :=
        h.take (fun _ hnil => absurd hnil hne) (by simp [hcontext])
      refine htake.close (by simp [Splitter.take]) fun _ => ?_
      simp only [Splitter.take, List.length_cons]
      omega
    · -- The condition may be the `IF` alone, but then `GOTO` leads what follows.
      refine ⟨by simp [Splitter.take], fun hr => ?_,
        h.remark_close (by rw [hcontext]; decide) .absent, ?_⟩
      · rw [hgoto] at hr; cases hr
      · have hlast : ((s.close .absent).take b .plain).current.getLast? = some Code.goto := by
          rw [hgoto]; rfl
        rw [hlast, if_pos rfl]
        exact h.blocks_close fun _ => by omega
    · exact h.take (fun _ hnil => absurd hnil hne) (by simp [hcontext])

theorem Leads.foldl (h : s.Leads) (bytes : List UInt8) : (bytes.foldl Splitter.step s).Leads := by
  induction bytes generalizing s with
  | nil => exact h
  | cons b bytes ih => exact ih (h.step b)

end Splitter

/-! ## Statements of a body -/

/-- **Only the last statement of a line can be a remark.** -/
theorem splitBody_remark (offset : Nat) (body : List UInt8) (ending : Ending) :
    ∃ init last, splitBody offset body ending = init ++ [last] ∧
      ∀ s ∈ init, s.head ≠ .remark := by
  have h := (Splitter.Leads.start offset).foldl body
  set s := body.foldl Splitter.step { start := offset } with hs
  rw [splitBody, ← hs, Splitter.finish]
  simp only [Splitter.done_close]
  refine ⟨_, _, rfl, fun t ht => ?_⟩
  rw [List.mem_reverse] at ht
  split_ifs at ht with hcondition
  · exact h.remark_close (by rw [hcondition]; decide) .absent t ht
  · exact h.remark t ht

/-- Each loop and each clause of a line takes two bytes, but for one that the line ends with. -/
theorem splitBody_blocks (offset : Nat) (body : List UInt8) (ending : Ending) :
    2 * blockCount (splitBody offset body ending) ≤
      total ((splitBody offset body ending).map Statement.size) + 1 := by
  have h := (Splitter.Leads.start offset).foldl body
  set s := body.foldl Splitter.step { start := offset } with hs
  have hcount : ∀ ss : List Statement, blockCount ss.reverse = blockCount ss :=
    fun ss => List.countP_reverse
  have htotal : ∀ sizes : List Nat, total sizes.reverse = total sizes := List.sum_reverse_nat
  have hdebt : ∀ ending : Ending, s.current ≠ [] → 2 ≤ s.current.length + ending.size + 1 := by
    intro ending hne
    have := List.length_pos_iff.2 hne
    omega
  rw [splitBody, ← hs, Splitter.finish]
  simp only [hcount, List.map_reverse, htotal]
  split_ifs
  · have hclose := h.blocks_close (hdebt .absent)
    rw [Splitter.done_close_eq, blockCount_cons,
      Statement.opensBlock_of_isEmpty (Splitter.isEmpty_last rfl ending), List.map_cons, total_cons]
    simp only [Bool.false_eq_true, if_false]
    omega
  · exact h.blocks_close (hdebt ending)

/-! ## Lines and programs -/

/-- What holds of every line that can be read holds of all lines of an image. -/
theorem scanLines_forall {P : Line → Prop}
    (h : ∀ number offset rest, P (Line.ofRest number offset rest)) (previous : UInt16)
    (offset : Nat) (bytes : List UInt8) : ∀ line ∈ scanLines previous offset bytes, P line := by
  fun_induction scanLines previous offset bytes with
  | case1 => simp
  | case2 previous offset linkLow linkHigh low high rest _ line ih =>
    rw [List.forall_mem_cons]
    exact ⟨h _ _ _, ih⟩
  | case3 => simp

namespace Program

variable (keywords : Keywords) (findAssignments : Bool) (image : Image)

theorem remark_ofImage : ∀ line ∈ (ofImage keywords findAssignments image).lines,
    ∃ init last, line.statements = init ++ [last] ∧ ∀ s ∈ init, s.head ≠ .remark :=
  scanLines_forall (fun _ _ _ => splitBody_remark _ _ _) 0 0 image

/-- **Each loop and each clause of a program takes two bytes of its image.** -/
theorem blocks_le :
    2 * blockCount (ofImage keywords findAssignments image).statements ≤ image.length := by
  have hlines : ∀ line ∈ (ofImage keywords findAssignments image).lines,
      2 * blockCount line.statements ≤ line.length := by
    refine scanLines_forall (fun number offset rest => ?_) 0 0 image
    have := splitBody_blocks (offset + headerSize) (rest.takeWhile (· != Code.endOfLine))
      (if rest.contains Code.endOfLine then .zero else .absent)
    rw [Line.length, Line.bodySize, headerSize]
    change 2 * blockCount (Line.ofRest number offset rest).statements ≤
      total ((Line.ofRest number offset rest).statements.map Statement.size) + 1 at this
    omega
  have hsum : ∀ lines : List Line, (∀ line ∈ lines, 2 * blockCount line.statements ≤ line.length) →
      2 * blockCount (lines.flatMap Line.statements) ≤ total (lines.map Line.length) := by
    intro lines
    induction lines with
    | nil => simp [blockCount]
    | cons line lines ih =>
      intro h
      rw [List.forall_mem_cons] at h
      rw [List.flatMap_cons, blockCount_append, List.map_cons, total_cons]
      have := ih h.2
      omega
  have hfits := (scanLines_decodes image 0 0).fits (Nat.zero_le _)
  rw [Nat.zero_add] at hfits
  exact (hsum _ hlines).trans hfits

end Program

end BasicListing
