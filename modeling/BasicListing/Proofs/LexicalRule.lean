/-
  The lexical rule: where the statements of a line begin and end.

  * `Image.divides`: a colon, an `IF` or a `REM` behind an even number of
    quotes.  The first of these in a statement decides where it ends.
  * `Image.extents`: the rule, statement by statement.  It counts the quotes of
    one statement only, and knows nothing of those before it.
  * `Outside`: a place of a body outside strings, remarks and conditions.
  * `Splitter.foldl_undivided`, `foldl_remark`, `foldl_condition`: what the reader of
    a body does with bytes at which no statement ends.
  * `finish_foldl`: the reader is at such a place whenever it begins a
    statement, and so ends it where the rule says.
  * `Line.ofImage?_lexical_rule`: what this means for a line of an image.
-/
import BasicListing.Proofs.Leading

namespace BasicListing

/-! ## The rule -/

/-- The first place from `start` on and before `stop` that has the property. -/
def firstIn (start stop : Nat) (P : Nat → Bool) : Option Nat :=
  (List.range' start (stop - start)).find? P

/-- Where a statement stands: its body begins at `start` and ends before `stop`.  Behind it stand
    `delimiter` bytes that end it. -/
structure Extent where
  start : Nat
  stop : Nat
  delimiter : Nat
  deriving DecidableEq, Repr

/-- Where a statement stands. -/
def Statement.extent (s : Statement) : Extent :=
  ⟨s.offset, s.offset + s.body.length, s.ending.size⟩

theorem firstIn_eq_some {start stop k : Nat} {P : Nat → Bool} (h : firstIn start stop P = some k) :
    P k = true ∧ start ≤ k ∧ k < stop ∧ ∀ i, start ≤ i → i < k → P i = false := by
  obtain ⟨hk, hmem, hbefore⟩ := List.find?_range'_eq_some.1 h
  rw [List.mem_range'_1] at hmem
  exact ⟨hk, by omega, by omega, fun i hstart hi => by simpa using hbefore i hstart hi⟩

theorem firstIn_eq_none {start stop : Nat} {P : Nat → Bool} (h : firstIn start stop P = none)
    {i : Nat} (hstart : start ≤ i) (hstop : i < stop) : P i = false := by
  simpa using List.find?_range'_eq_none.1 h i hstart (by omega)

namespace Image

/-- The image holds the byte at the given place. -/
def holds (image : Image) (k : Nat) (b : UInt8) : Bool := image[k]? == some b

/-- A byte at which the statement that begins at `start` is divided: a colon, an `IF` or a `REM`
    with an even number of quotes between `start` and it. -/
def divides (image : Image) (start k : Nat) : Bool :=
  (image.slice start (k - start)).count Code.quote % 2 == 0 &&
    (image.holds k Code.colon || image.holds k Code.ifCondition || image.holds k Code.remark)

/-- A byte at which a condition ends. -/
def endsCondition (image : Image) (t : Nat) : Bool :=
  image.holds t Code.thenClause || image.holds t Code.goto

/-- The first zero byte from `start` on. -/
def zeroFrom? (image : Image) (start : Nat) : Option Nat :=
  firstIn start image.length (image.holds · Code.endOfLine)

/-- Where the statements from `start` on stand, if the line ends at `stop` and `delimiter` bytes
    end it there. -/
def extents (image : Image) (stop delimiter start : Nat) : List Extent :=
  match _h : firstIn start stop (image.divides start) with
  | none => [⟨start, stop, delimiter⟩]
  | some k =>
    if image.holds k Code.remark then [⟨start, stop, delimiter⟩]
    else if image.holds k Code.colon then ⟨start, k, 1⟩ :: image.extents stop delimiter (k + 1)
    else
      match _h' : firstIn (k + 1) stop image.endsCondition with
      | none => ⟨start, stop, 0⟩ :: image.extents stop delimiter stop
      | some t =>
        if image.holds t Code.thenClause then
          ⟨start, t + 1, 0⟩ :: image.extents stop delimiter (t + 1)
        else ⟨start, t, 0⟩ :: image.extents stop delimiter t
termination_by stop - start
decreasing_by
  all_goals have := firstIn_eq_some _h
  · omega
  · omega
  all_goals have := firstIn_eq_some _h'
  · omega
  · omega

end Image

/-- The place between the bytes `before` and `after` of a body is outside strings, remarks and
    conditions. -/
inductive Outside : List UInt8 → List UInt8 → Prop
  | start (body : List UInt8) : Outside [] body
  /-- Behind a byte that begins none of them. -/
  | byte {before after : List UInt8} {b : UInt8} : Outside before (b :: after) →
      b ≠ Code.quote → b ≠ Code.remark → b ≠ Code.ifCondition → Outside (before ++ [b]) after
  /-- Behind a string. -/
  | string {before inside after : List UInt8} :
      Outside before (Code.quote :: inside ++ Code.quote :: after) → Code.quote ∉ inside →
      Outside (before ++ Code.quote :: inside ++ [Code.quote]) after
  /-- Behind a condition and its `THEN`. -/
  | thenClause {before condition after : List UInt8} :
      Outside before (Code.ifCondition :: condition ++ Code.thenClause :: after) →
      Code.thenClause ∉ condition → Code.goto ∉ condition →
      Outside (before ++ Code.ifCondition :: condition ++ [Code.thenClause]) after
  /-- Behind a condition and before its `GOTO`. -/
  | goto {before condition after : List UInt8} :
      Outside before (Code.ifCondition :: condition ++ Code.goto :: after) →
      Code.thenClause ∉ condition → Code.goto ∉ condition →
      Outside (before ++ Code.ifCondition :: condition) (Code.goto :: after)
  /-- Behind a condition that goes on up to the end of the line. -/
  | lineEnd {before condition : List UInt8} : Outside before (Code.ifCondition :: condition) →
      Code.thenClause ∉ condition → Code.goto ∉ condition →
      Outside (before ++ Code.ifCondition :: condition) []

/-- The statement begins outside strings, remarks and conditions of a body at `offset`. -/
def Statement.BeginsOutside (offset : Nat) (body : List UInt8) (s : Statement) : Prop :=
  ∃ before after, body = before ++ after ∧ s.offset = offset + before.length ∧
    Outside before after

/-! ## Bytes at which no statement ends -/

/-- No byte of the beginning of a statement divides it. -/
def Undivided (front : List UInt8) : Prop :=
  ∀ a b c, front = a ++ b :: c → a.count Code.quote % 2 = 0 →
    b ≠ Code.colon ∧ b ≠ Code.ifCondition ∧ b ≠ Code.remark

section
variable {front : List UInt8} {b : UInt8}

theorem Undivided.of_append {back : List UInt8} (h : Undivided (front ++ back)) :
    Undivided front := by
  rintro a x c rfl
  exact h a x (c ++ back) (by simp)

theorem Undivided.last (h : Undivided (front ++ [b])) (heven : front.count Code.quote % 2 = 0) :
    b ≠ Code.colon ∧ b ≠ Code.ifCondition ∧ b ≠ Code.remark :=
  h front b [] rfl heven

theorem count_concat_quote :
    (front ++ [Code.quote]).count Code.quote = front.count Code.quote + 1 := by
  rw [List.count_append, List.count_singleton_self]

theorem count_concat_of_ne (h : b ≠ Code.quote) :
    (front ++ [b]).count Code.quote = front.count Code.quote := by
  rw [List.count_append, List.count_singleton, if_neg (by simpa using h), Nat.add_zero]

/-- Behind an odd number of quotes a string is open: it began at the last of them. -/
theorem exists_open_string (hodd : front.count Code.quote % 2 ≠ 0) :
    ∃ outside inside, front = outside ++ Code.quote :: inside ∧ Code.quote ∉ inside ∧
      outside.count Code.quote % 2 = 0 := by
  have hmem : Code.quote ∈ front.reverse := by
    rw [List.mem_reverse, ← List.count_pos_iff]
    omega
  obtain ⟨inside, outside, hfront, hinside⟩ := List.eq_append_cons_of_mem hmem
  have hfront' : front = outside.reverse ++ Code.quote :: inside.reverse := by
    rw [← List.reverse_reverse front, hfront]
    simp
  refine ⟨outside.reverse, inside.reverse, hfront', by simpa using hinside, ?_⟩
  rw [hfront', List.count_append, List.count_cons_self, List.count_reverse (l := inside),
    List.count_eq_zero_of_not_mem hinside] at hodd
  omega

/-- Bytes that do not divide a statement lead out of all strings, if their quotes come in pairs. -/
theorem Outside.undivided {before rest : List UInt8} (hfront : Undivided front)
    (heven : front.count Code.quote % 2 = 0) (h : Outside before (front ++ rest)) :
    Outside (before ++ front) rest := by
  induction hlength : front.length using Nat.strongRecOn generalizing front rest with
  | ind n ih =>
    subst hlength
    rcases List.eq_nil_or_concat front with rfl | ⟨init, b, rfl⟩
    · simpa using h
    rw [List.concat_eq_append] at *
    by_cases hquote : b = Code.quote
    · -- The string that ends here began at the quote before this one.
      subst hquote
      rw [count_concat_quote] at heven
      have hodd : init.count Code.quote % 2 ≠ 0 := by omega
      obtain ⟨outside, inside, rfl, hinside, hcount⟩ := exists_open_string hodd
      rw [List.append_assoc] at hfront h
      have hbegin : Outside (before ++ outside) (Code.quote :: inside ++ Code.quote :: rest) :=
        ih outside.length (by simp) hfront.of_append hcount (by simpa using h) rfl
      simpa using hbegin.string hinside
    · rw [count_concat_of_ne hquote] at heven
      obtain ⟨-, hif, hremark⟩ := hfront.last heven
      have hinit : Outside (before ++ init) (b :: rest) :=
        ih init.length (by simp) hfront.of_append heven (by simpa using h) rfl
      simpa using hinit.byte hquote hremark hif

end

namespace Splitter

section steps
variable {s : Splitter} {b : UInt8}

theorem step_quote (hs : s.context = .plain) : s.step Code.quote = s.take Code.quote .string := by
  rw [step, hs]
  rfl

theorem step_plain (hs : s.context = .plain) (hcolon : b ≠ Code.colon) (hquote : b ≠ Code.quote)
    (hremark : b ≠ Code.remark) (hif : b ≠ Code.ifCondition) : s.step b = s.take b .plain := by
  rw [step, hs]
  simp only [if_neg hcolon, if_neg hquote, if_neg hremark, if_neg hif]

theorem step_string (hs : s.context = .string) :
    s.step b = s.take b (if b = Code.quote then .plain else .string) := by
  rw [step, hs]

end steps

/-- Bytes that do not divide a statement are taken into it. -/
theorem foldl_undivided {front : List UInt8} (hfront : Undivided front) {s : Splitter}
    (hs : s.context = .plain) :
    front.foldl step s =
      { s with
        context := if front.count Code.quote % 2 = 0 then .plain else .string
        current := front.reverse ++ s.current } := by
  induction front using List.reverseRecOn with
  | nil => simp [← hs]
  | append_singleton front b ih =>
    rw [List.foldl_append, ih hfront.of_append, List.foldl_cons, List.foldl_nil]
    by_cases heven : front.count Code.quote % 2 = 0
    · obtain ⟨hcolon, hif, hremark⟩ := hfront.last heven
      by_cases hquote : b = Code.quote
      · subst hquote
        rw [count_concat_quote, if_pos heven, if_neg (by omega), step_quote rfl]
        simp [take]
      · rw [count_concat_of_ne hquote, if_pos heven, step_plain rfl hcolon hquote hremark hif]
        simp [take]
    · rw [if_neg heven, step_string rfl]
      by_cases hquote : b = Code.quote
      · subst hquote
        rw [count_concat_quote, if_pos rfl, if_pos (by omega)]
        simp [take]
      · rw [count_concat_of_ne hquote, if_neg hquote, if_neg heven]
        simp [take]

theorem foldl_remark (bytes : List UInt8) {s : Splitter} (hs : s.context = .remark) :
    bytes.foldl step s = { s with current := bytes.reverse ++ s.current } := by
  induction bytes generalizing s with
  | nil => rfl
  | cons b bytes ih =>
    have hstep : s.step b = s.take b .remark := by rw [step, hs]
    rw [List.foldl_cons, hstep, ih rfl]
    simp [take, hs]

theorem foldl_condition {bytes : List UInt8} (hthen : Code.thenClause ∉ bytes)
    (hgoto : Code.goto ∉ bytes) {s : Splitter} (hs : s.context = .condition) :
    bytes.foldl step s = { s with current := bytes.reverse ++ s.current } := by
  induction bytes generalizing s with
  | nil => rfl
  | cons b bytes ih =>
    rw [List.mem_cons, not_or] at hthen hgoto
    have hstep : s.step b = s.take b .condition := by
      rw [step, hs]
      simp only [if_neg (Ne.symm hthen.1), if_neg (Ne.symm hgoto.1)]
    rw [List.foldl_cons, hstep, ih hthen.2 hgoto.2 rfl]
    simp [take, hs]

/-! ### Statements from their beginning to their end -/

theorem close_absent (context : Context) (start : Nat) (read : List UInt8)
    (done : List Statement) :
    close ⟨context, start, read.reverse, done⟩ .absent =
      { start := start + read.length, done := ⟨start, read, .absent, done.isEmpty⟩ :: done } := by
  simp [close, Ending.size, Ending.bytes]

section
variable {front condition : List UInt8} (hfront : Undivided front)
  (heven : front.count Code.quote % 2 = 0) (start : Nat) (done : List Statement)
include hfront

theorem finish_undivided (ending : Ending) :
    (front.foldl step { start, done }).finish ending =
      done.reverse ++ [⟨start, front, ending, done.isEmpty⟩] := by
  rw [foldl_undivided hfront rfl, finish]
  split_ifs <;> simp_all [close]

include heven

theorem finish_remark (tail : List UInt8) (ending : Ending) :
    ((front ++ Code.remark :: tail).foldl step { start, done }).finish ending =
      done.reverse ++ [⟨start, front ++ Code.remark :: tail, ending, done.isEmpty⟩] := by
  rw [List.foldl_append, foldl_undivided hfront rfl, if_pos heven, List.foldl_cons,
    foldl_remark tail rfl, finish]
  simp [step, take, close, Code.remark, Code.colon, Code.quote]

theorem foldl_colon (tail : List UInt8) :
    (front ++ Code.colon :: tail).foldl step { start, done } = tail.foldl step
      { start := start + front.length + 1,
        done := ⟨start, front, .colon, done.isEmpty⟩ :: done } := by
  rw [List.foldl_append, foldl_undivided hfront rfl, if_pos heven, List.foldl_cons]
  simp [step, close, Ending.size, Ending.bytes]

theorem foldl_if (hthen : Code.thenClause ∉ condition) (hgoto : Code.goto ∉ condition) :
    (front ++ Code.ifCondition :: condition).foldl step { start, done } =
      ⟨.condition, start, (front ++ Code.ifCondition :: condition).reverse, done⟩ := by
  rw [List.foldl_append, foldl_undivided hfront rfl, if_pos heven, List.foldl_cons,
    foldl_condition hthen hgoto rfl]
  simp [step, take, Code.ifCondition, Code.remark, Code.colon, Code.quote]

theorem finish_if (hthen : Code.thenClause ∉ condition) (hgoto : Code.goto ∉ condition)
    (ending : Ending) :
    ((front ++ Code.ifCondition :: condition).foldl step { start, done }).finish ending =
      finish { start := start + (front ++ Code.ifCondition :: condition).length,
               done := ⟨start, front ++ Code.ifCondition :: condition, .absent, done.isEmpty⟩ ::
                 done } ending := by
  rw [foldl_if hfront heven start done hthen hgoto, finish, if_pos rfl, close_absent]
  rfl

theorem foldl_then (hthen : Code.thenClause ∉ condition) (hgoto : Code.goto ∉ condition)
    (tail : List UInt8) :
    (front ++ Code.ifCondition :: condition ++ Code.thenClause :: tail).foldl step
        { start, done } =
      tail.foldl step
        { start := start + (front ++ Code.ifCondition :: condition ++ [Code.thenClause]).length,
          done := ⟨start, front ++ Code.ifCondition :: condition ++ [Code.thenClause], .absent,
            done.isEmpty⟩ :: done } := by
  rw [List.foldl_append, foldl_if hfront heven start done hthen hgoto, List.foldl_cons,
    ← close_absent .plain, List.reverse_concat]
  rfl

/-- The `GOTO` that ends a condition is read as the first byte of the next statement. -/
theorem foldl_goto (hthen : Code.thenClause ∉ condition) (hgoto : Code.goto ∉ condition)
    (tail : List UInt8) :
    (front ++ Code.ifCondition :: condition ++ Code.goto :: tail).foldl step { start, done } =
      (Code.goto :: tail).foldl step
        { start := start + (front ++ Code.ifCondition :: condition).length,
          done := ⟨start, front ++ Code.ifCondition :: condition, .absent, done.isEmpty⟩ ::
            done } := by
  rw [List.foldl_append, foldl_if hfront heven start done hthen hgoto, List.foldl_cons,
    List.foldl_cons, ← close_absent .condition]
  rfl

end

end Splitter

/-! ## Reading by the rule -/

section
variable {image : Image} {start : Nat} {body behind front tail : List UInt8} {b : UInt8}

theorem Image.holds_of_drop (h : image.drop start = front ++ b :: tail) (c : UInt8) :
    image.holds (start + front.length) c = (b == c) := by
  have hget : image[start + front.length]? = some b := by
    rw [← List.getElem?_drop, h]
    simp
  simp [holds, hget]

theorem Image.divides_of_drop (h : image.drop start = front ++ b :: tail) :
    image.divides start (start + front.length) = (front.count Code.quote % 2 == 0 &&
      (b == Code.colon || b == Code.ifCondition || b == Code.remark)) := by
  rw [divides, holds_of_drop h, holds_of_drop h, holds_of_drop h, Nat.add_sub_cancel_left, slice, h,
    List.take_left]

/-- The first place with a property, as a place in the bytes that are left. -/
theorem exists_of_firstIn {P : Nat → Bool} {k : Nat}
    (h : firstIn start (start + body.length) P = some k) :
    ∃ front b tail, body = front ++ b :: tail ∧ k = start + front.length ∧ P k = true ∧
      ∀ a c d, front = a ++ c :: d → P (start + a.length) = false := by
  obtain ⟨hk, hstart, hstop, hbefore⟩ := firstIn_eq_some h
  obtain ⟨n, rfl⟩ := Nat.exists_eq_add_of_le hstart
  have hn : n < body.length := by omega
  have hlength : (body.take n).length = n := by
    rw [List.length_take]
    omega
  refine ⟨body.take n, body[n], body.drop (n + 1), by simp, by rw [hlength], hk, ?_⟩
  intro a c d hfront
  have := congrArg List.length hfront
  rw [hlength, List.length_append, List.length_cons] at this
  exact hbefore _ (by omega) (by omega)

theorem of_firstIn_eq_none {P : Nat → Bool} (h : firstIn start (start + body.length) P = none) :
    ∀ a c d, body = a ++ c :: d → P (start + a.length) = false := by
  rintro a c d rfl
  refine firstIn_eq_none h (by omega) ?_
  rw [List.length_append, List.length_cons]
  omega

theorem undivided_of_divides (hdrop : image.drop start = front ++ tail)
    (h : ∀ a c d, front = a ++ c :: d → image.divides start (start + a.length) = false) :
    Undivided front := by
  rintro a c d rfl heven
  have hdivides := h a c d rfl
  rw [Image.divides_of_drop (by rw [hdrop, List.append_assoc]; rfl), heven] at hdivides
  simp only [BEq.rfl, Bool.true_and, Bool.or_eq_false_iff, beq_eq_false_iff_ne] at hdivides
  exact ⟨hdivides.1.1, hdivides.1.2, hdivides.2⟩

theorem notMem_of_endsCondition (hdrop : image.drop start = front ++ tail)
    (h : ∀ a c d, front = a ++ c :: d → image.endsCondition (start + a.length) = false) :
    Code.thenClause ∉ front ∧ Code.goto ∉ front := by
  have hall : ∀ c ∈ front, c ≠ Code.thenClause ∧ c ≠ Code.goto := by
    intro c hc
    obtain ⟨a, d, rfl⟩ := List.append_of_mem hc
    have hends := h a c d rfl
    have hdrop' : image.drop start = a ++ c :: (d ++ tail) := by rw [hdrop, List.append_assoc]; rfl
    rw [Image.endsCondition, Image.holds_of_drop hdrop', Image.holds_of_drop hdrop'] at hends
    simpa using hends
  exact ⟨fun hc => (hall _ hc).1 rfl, fun hc => (hall _ hc).2 rfl⟩

theorem exists_divider {k : Nat} (hdrop : image.drop start = body ++ behind)
    (hk : firstIn start (start + body.length) (image.divides start) = some k) :
    ∃ front b tail, body = front ++ b :: tail ∧ k = start + front.length ∧ Undivided front ∧
      front.count Code.quote % 2 = 0 ∧
      (b = Code.colon ∨ b = Code.ifCondition ∨ b = Code.remark) := by
  obtain ⟨front, b, tail, rfl, rfl, hdivides, hbefore⟩ := exists_of_firstIn hk
  rw [List.append_assoc] at hdrop
  rw [Image.divides_of_drop hdrop] at hdivides
  refine ⟨front, b, tail, rfl, rfl, undivided_of_divides hdrop hbefore, ?_⟩
  simpa [or_assoc] using hdivides

theorem exists_endOfCondition {t : Nat} (hdrop : image.drop start = body ++ behind)
    (ht : firstIn start (start + body.length) image.endsCondition = some t) :
    ∃ condition c tail, body = condition ++ c :: tail ∧ t = start + condition.length ∧
      (Code.thenClause ∉ condition ∧ Code.goto ∉ condition) ∧
      (c = Code.thenClause ∨ c = Code.goto) := by
  obtain ⟨condition, c, tail, rfl, rfl, hends, hbefore⟩ := exists_of_firstIn ht
  rw [List.append_assoc] at hdrop
  rw [Image.endsCondition, Image.holds_of_drop hdrop, Image.holds_of_drop hdrop] at hends
  refine ⟨condition, c, tail, rfl, rfl, notMem_of_endsCondition hdrop hbefore, ?_⟩
  simpa using hends

end

/-- The body at `offset`, which is followed by `behind` and ends at `stop`, has been read up to
    `start`, where a statement begins.  It consists of the bytes read, `before`, and the rest. -/
structure ReadUpTo (image : Image) (offset stop : Nat) (whole behind : List UInt8) (start : Nat)
    (before rest : List UInt8) : Prop where
  whole_eq : whole = before ++ rest
  start_eq : start = offset + before.length
  stop_eq : stop = start + rest.length
  drop_eq : image.drop start = rest ++ behind
  outside : Outside before rest

section
variable {image : Image} {offset stop start : Nat} {whole behind before : List UInt8}

theorem ReadUpTo.begins {rest : List UInt8}
    (h : ReadUpTo image offset stop whole behind start before rest) {s : Statement}
    (hs : s.offset = start) : s.BeginsOutside offset whole :=
  ⟨before, rest, h.whole_eq, hs.trans h.start_eq, h.outside⟩

theorem ReadUpTo.advance {read rest : List UInt8}
    (h : ReadUpTo image offset stop whole behind start before (read ++ rest))
    (hout : Outside (before ++ read) rest) {next : Nat} (hnext : next = start + read.length) :
    ReadUpTo image offset stop whole behind next (before ++ read) rest where
  whole_eq := by rw [h.whole_eq, List.append_assoc]
  start_eq := by rw [hnext, h.start_eq, List.length_append, Nat.add_assoc]
  stop_eq := by rw [hnext, h.stop_eq, List.length_append, Nat.add_assoc]
  drop_eq := by rw [hnext, ← List.drop_drop, h.drop_eq, List.append_assoc, List.drop_left]
  outside := hout

/-- What is left to be read, if its first divider is an `IF`. -/
theorem ReadUpTo.exists_if {rest : List UInt8} {k : Nat}
    (h : ReadUpTo image offset stop whole behind start before rest)
    (hk : firstIn start stop (image.divides start) = some k)
    (hremark : ¬ image.holds k Code.remark = true) (hcolon : ¬ image.holds k Code.colon = true) :
    ∃ front tail, rest = front ++ Code.ifCondition :: tail ∧ k = start + front.length ∧
      Undivided front ∧ front.count Code.quote % 2 = 0 ∧
      Outside (before ++ front) (Code.ifCondition :: tail) ∧
      image.drop (k + 1) = tail ++ behind ∧ stop = k + 1 + tail.length := by
  have hdrop := h.drop_eq
  rw [h.stop_eq] at hk
  obtain ⟨front, b, tail, rfl, rfl, hfront, heven, hb⟩ := exists_divider hdrop hk
  rw [List.append_assoc, List.cons_append] at hdrop
  rw [Image.holds_of_drop hdrop, beq_iff_eq] at hcolon hremark
  obtain rfl := (hb.resolve_left hcolon).resolve_right hremark
  refine ⟨front, tail, rfl, rfl, hfront, heven, h.outside.undivided hfront heven, ?_, ?_⟩
  · rw [Nat.add_assoc, ← List.drop_drop, hdrop, List.append_cons, List.drop_left' (by simp)]
  · rw [h.stop_eq, List.length_append, List.length_cons]
    omega

/-- Statements that the reader has made of what was left, with the one before them. -/
theorem exists_statements_cons {read done : List Statement} {first : Statement} {extent : Extent}
    {extents : List Extent} (hextent : first.extent = extent)
    (hfirst : first.BeginsOutside offset whole)
    (h : ∃ ss, read = (first :: done).reverse ++ ss ∧ ss.map Statement.extent = extents ∧
      ∀ s ∈ ss, s.BeginsOutside offset whole) :
    ∃ ss, read = done.reverse ++ ss ∧ ss.map Statement.extent = extent :: extents ∧
      ∀ s ∈ ss, s.BeginsOutside offset whole := by
  obtain ⟨ss, rfl, hextents, hbegins⟩ := h
  refine ⟨first :: ss, by simp, ?_, List.forall_mem_cons.2 ⟨hfirst, hbegins⟩⟩
  rw [List.map_cons, hextents, hextent]

/-- **The reader ends statements where the rule says**, and begins them outside strings, remarks
    and conditions.  The induction follows the rule; `done` are the statements that have been
    read. -/
theorem finish_foldl {ending : Ending} {delimiter : Nat} (hending : ending.size = delimiter)
    {rest : List UInt8} (h : ReadUpTo image offset stop whole behind start before rest)
    (done : List Statement) :
    ∃ ss, (rest.foldl Splitter.step { start, done }).finish ending = done.reverse ++ ss ∧
      ss.map Statement.extent = image.extents stop delimiter start ∧
      ∀ s ∈ ss, s.BeginsOutside offset whole := by
  fun_induction Image.extents image stop delimiter start generalizing before rest done with
  | case1 start hnone =>
    rw [h.stop_eq] at hnone ⊢
    have hrest := undivided_of_divides h.drop_eq (of_firstIn_eq_none hnone)
    refine ⟨_, Splitter.finish_undivided hrest start done ending, ?_, by simpa using h.begins rfl⟩
    simp [Statement.extent, hending]
  | case2 start k hk hremark =>
    rw [h.stop_eq] at hk ⊢
    obtain ⟨front, b, tail, rfl, rfl, hfront, heven, -⟩ := exists_divider h.drop_eq hk
    rw [Image.holds_of_drop (by rw [h.drop_eq, List.append_assoc]; rfl), beq_iff_eq] at hremark
    subst hremark
    refine ⟨_, Splitter.finish_remark hfront heven start done tail ending, ?_,
      by simpa using h.begins rfl⟩
    simp [Statement.extent, hending]
  | case3 start k hk hremark hcolon ih =>
    rw [h.stop_eq] at hk
    obtain ⟨front, b, tail, rfl, rfl, hfront, heven, -⟩ := exists_divider h.drop_eq hk
    rw [Image.holds_of_drop (by rw [h.drop_eq, List.append_assoc]; rfl), beq_iff_eq] at hcolon
    subst hcolon
    have hout := (h.outside.undivided hfront heven).byte (by decide) (by decide) (by decide)
    rw [List.append_assoc] at hout
    rw [Splitter.foldl_colon hfront heven]
    rw [List.append_cons] at h
    exact exists_statements_cons rfl (h.begins rfl)
      (ih (h.advance hout (by simp [Nat.add_assoc])) _)
  | case4 start k hk hremark hcolon hnone ih =>
    obtain ⟨front, condition, rfl, rfl, hfront, heven, hout, hdrop, hstop⟩ :=
      h.exists_if hk hremark hcolon
    rw [hstop] at hnone
    obtain ⟨hthen, hgoto⟩ := notMem_of_endsCondition hdrop (of_firstIn_eq_none hnone)
    have hlength : stop = start + (front ++ Code.ifCondition :: condition).length := h.stop_eq
    have hend := hout.lineEnd hthen hgoto
    rw [List.append_assoc] at hend
    rw [Splitter.finish_if hfront heven start done hthen hgoto, ← hlength]
    rw [← List.append_nil (front ++ Code.ifCondition :: condition)] at h
    exact exists_statements_cons (by rw [hlength]; rfl) (h.begins rfl)
      (ih (h.advance hend hlength) _)
  | case5 start k hk hremark hcolon t ht hends ih =>
    obtain ⟨front, rest, rfl, rfl, hfront, heven, hout, hdrop, hstop⟩ :=
      h.exists_if hk hremark hcolon
    rw [hstop] at ht
    obtain ⟨condition, c, tail, rfl, rfl, ⟨hthen, hgoto⟩, -⟩ := exists_endOfCondition hdrop ht
    rw [Image.holds_of_drop (by rw [hdrop, List.append_assoc]; rfl), beq_iff_eq] at hends
    subst hends
    have hnext : start + front.length + 1 + condition.length + 1 =
        start + (front ++ Code.ifCondition :: condition ++ [Code.thenClause]).length := by
      simp only [List.length_append, List.length_cons, List.length_nil]
      omega
    have hend := hout.thenClause hthen hgoto
    rw [List.append_assoc, List.append_assoc, ← List.append_assoc front] at hend
    rw [← List.cons_append, ← List.append_assoc] at h ⊢
    rw [Splitter.foldl_then hfront heven start done hthen hgoto, ← hnext]
    rw [List.append_cons] at h
    exact exists_statements_cons (by rw [hnext]; rfl) (h.begins rfl)
      (ih (h.advance hend hnext) _)
  | case6 start k hk hremark hcolon t ht hends ih =>
    obtain ⟨front, rest, rfl, rfl, hfront, heven, hout, hdrop, hstop⟩ :=
      h.exists_if hk hremark hcolon
    rw [hstop] at ht
    obtain ⟨condition, c, tail, rfl, rfl, ⟨hthen, hgoto⟩, hc⟩ := exists_endOfCondition hdrop ht
    rw [Image.holds_of_drop (by rw [hdrop, List.append_assoc]; rfl), beq_iff_eq] at hends
    obtain rfl := hc.resolve_left hends
    have hnext : start + front.length + 1 + condition.length =
        start + (front ++ Code.ifCondition :: condition).length := by
      simp only [List.length_append, List.length_cons]
      omega
    have hend := hout.goto hthen hgoto
    rw [List.append_assoc] at hend
    rw [← List.cons_append, ← List.append_assoc] at h ⊢
    rw [Splitter.foldl_goto hfront heven start done hthen hgoto, ← hnext]
    exact exists_statements_cons (by rw [hnext]; rfl) (h.begins rfl)
      (ih (h.advance hend hnext) _)

end

/-! ## Lines -/

/-- The body of a line ends at the first zero byte behind its header, or else with the image. -/
theorem zeroFrom?_eq {image : Image} {start : Nat} {rest : List UInt8}
    (hrest : image.drop start = rest) (hstart : start ≤ image.length) :
    (image.zeroFrom? start).getD image.length =
        start + (rest.takeWhile (· != Code.endOfLine)).length ∧
      (image.zeroFrom? start).isSome = rest.contains Code.endOfLine := by
  have hlength : image.length = start + rest.length := by
    rw [← hrest, List.length_drop]
    omega
  rw [Image.zeroFrom?, hlength]
  cases hzero : firstIn start (start + rest.length) (image.holds · Code.endOfLine) with
  | none =>
    have hall : Code.endOfLine ∉ rest := by
      intro hmem
      obtain ⟨a, d, rfl⟩ := List.append_of_mem hmem
      have hholds := of_firstIn_eq_none hzero a _ d rfl
      simp [Image.holds_of_drop hrest] at hholds
    rw [List.takeWhile_eq_self_iff.2 fun b hb => by
      simpa using fun heq : b = Code.endOfLine => hall (heq ▸ hb)]
    simpa using hall
  | some k =>
    obtain ⟨body, b, tail, rfl, rfl, hholds, hbefore⟩ := exists_of_firstIn hzero
    rw [Image.holds_of_drop hrest, beq_iff_eq] at hholds
    subst hholds
    have hbody : Code.endOfLine ∉ body := by
      intro hmem
      obtain ⟨a, d, rfl⟩ := List.append_of_mem hmem
      have hholds := hbefore a _ d rfl
      rw [Image.holds_of_drop (by rw [hrest, List.append_assoc]; rfl)] at hholds
      simp at hholds
    rw [takeWhile_bne_append hbody]
    simp

theorem exists_header {image : Image} {offset : Nat} (h : offset + 4 ≤ image.length) :
    ∃ linkLow linkHigh low high rest,
      image.drop offset = linkLow :: linkHigh :: low :: high :: rest := by
  have hlength : 4 ≤ (image.drop offset).length := by
    rw [List.length_drop]
    omega
  rcases hdrop : image.drop offset with _ | ⟨a, _ | ⟨b, _ | ⟨c, _ | ⟨d, rest⟩⟩⟩⟩
  case cons.cons.cons.cons => exact ⟨a, b, c, d, rest, rfl⟩
  all_goals simp [hdrop] at hlength

/-- A remark is the last statement of its line. -/
theorem after_remark_eq_nil {offset : Nat} {body : List UInt8} {ending : Ending}
    {before after : List Statement} {s : Statement}
    (h : splitBody offset body ending = before ++ s :: after) (hs : s.head = .remark) :
    after = [] := by
  obtain ⟨init, last, hsplit, hinit⟩ := splitBody_remark offset body ending
  rcases List.eq_nil_or_concat after with rfl | ⟨front, t, rfl⟩
  · rfl
  · rw [h, List.concat_eq_append, ← List.cons_append, ← List.append_assoc] at hsplit
    have hs' := hinit s (by rw [← (List.append_inj' hsplit rfl).1]; simp)
    exact absurd hs hs'

/-- The body of a statement is what stands in the image where the statement begins. -/
theorem slice_of_splitBody {image : Image} {offset : Nat} {body tail : List UInt8}
    {ending : Ending} (hdrop : image.drop offset = body ++ (ending.bytes ++ tail)) :
    ∀ s ∈ splitBody offset body ending, image.slice s.offset s.body.length = s.body := by
  have hmake := splitBody_makeUp offset body ending
  rw [← List.append_assoc, ← hmake.bytes] at hdrop
  intro s hs
  exact Statement.slice_body (hmake.tiles.slice_eq Statement.length_bytes hdrop s hs)

/-- **The statements of a line are those that the lexical rule gives.**

    They begin behind the header, and the line ends at the first zero byte behind it.  So a remark
    is the last statement of its line, and each statement begins outside strings, remarks and
    conditions. -/
theorem Line.ofImage?_lexical_rule (image : Image) (offset : Nat)
    (h : offset + 4 ≤ image.length) :
    let zero? := image.zeroFrom? (offset + 4)
    let stop := zero?.getD image.length
    let delimiter := if zero?.isSome then 1 else 0
    ∃ line, Line.ofImage? image offset = some line ∧
      line.statements.map Statement.extent = image.extents stop delimiter (offset + 4) ∧
      (∀ s ∈ line.statements, image.slice s.offset s.body.length = s.body) ∧
      (∀ before s after, line.statements = before ++ s :: after → s.head = .remark → after = []) ∧
      ∀ s ∈ line.statements,
        s.BeginsOutside (offset + 4) (image.slice (offset + 4) (stop - (offset + 4))) := by
  intro zero? stop delimiter
  obtain ⟨linkLow, linkHigh, low, high, rest, himage⟩ := exists_header h
  have hrest : image.drop (offset + 4) = rest := by
    rw [← List.drop_drop, himage]
    rfl
  obtain ⟨hstop, hzero⟩ := zeroFrom?_eq hrest h
  obtain ⟨ending, tail, hending, hsplit, -⟩ := exists_behind_body rest
  set body := rest.takeWhile (· != Code.endOfLine) with hbody
  have hline : Line.ofImage? image offset = some (Line.ofRest (word low high) offset rest) := by
    rw [Line.ofImage?, himage]
  have hstatements : (Line.ofRest (word low high) offset rest).statements =
      splitBody (offset + 4) body ending := by
    rw [Line.ofRest, hending]
    rfl
  have hdelimiter : ending.size = delimiter := by
    change _ = if zero?.isSome then 1 else 0
    rw [hzero, ← hending]
    cases rest.contains Code.endOfLine <;> rfl
  have hdrop : image.drop (offset + 4) = body ++ (ending.bytes ++ tail) := by
    rw [hrest, ← List.append_assoc]
    exact hsplit
  have hwhole : image.slice (offset + 4) (stop - (offset + 4)) = body := by
    change image.slice (offset + 4) (zero?.getD image.length - (offset + 4)) = body
    rw [hstop, Nat.add_sub_cancel_left, Image.slice, hdrop, List.take_left]
  obtain ⟨ss, hss, hextents, hbegins⟩ := finish_foldl hdelimiter
    ⟨rfl, rfl, hstop, hdrop, Outside.start body⟩ []
  have hss' : splitBody (offset + 4) body ending = ss := hss
  refine ⟨_, hline, ?_⟩
  rw [hstatements, hwhole]
  exact ⟨hss' ▸ hextents, slice_of_splitBody hdrop, fun before s after => after_remark_eq_nil,
    hss' ▸ hbegins⟩

/-- Colons and an `IF` in strings and conditions, a quote in a condition, and a remark with a quote
    and a colon. -/
def quotedColons : Image :=
  [0x1A, 0x08, 10, 0, 0xBA, 0x22, 0x41, 0x3A, 0xAD, 0x22, 0x3A, 0xAD, 0x22, 0x3A, 0xC4, 0x41, 0x3A,
   0xAD, 0x42, 0xAB, 0x31, 0x3A, 0xB2, 0x22, 0x3A, 0, 0, 0]

theorem Line.ofImage?_lexical_rule_quotedColons :
    0 + 4 ≤ quotedColons.length ∧ quotedColons.zeroFrom? 4 = some 25 ∧
    ∃ line, Line.ofImage? quotedColons 0 = some line ∧
      line.statements.map Statement.extent =
        [⟨4, 10, 1⟩, ⟨11, 15, 0⟩, ⟨15, 16, 1⟩, ⟨17, 19, 0⟩, ⟨19, 21, 1⟩, ⟨22, 25, 1⟩] ∧
      line.statements.map Statement.extent = quotedColons.extents 25 1 4 ∧
      (∀ s ∈ line.statements, quotedColons.slice s.offset s.body.length = s.body) ∧
      (∀ before s after, line.statements = before ++ s :: after → s.head = .remark → after = []) ∧
      ∀ s ∈ line.statements, s.BeginsOutside 4 (quotedColons.slice 4 21) := by
  have hzero : quotedColons.zeroFrom? 4 = some 25 := by decide +kernel
  have hextents : (Line.ofImage? quotedColons 0).map (·.statements.map Statement.extent) =
      some [⟨4, 10, 1⟩, ⟨11, 15, 0⟩, ⟨15, 16, 1⟩, ⟨17, 19, 0⟩, ⟨19, 21, 1⟩, ⟨22, 25, 1⟩] := by
    decide +kernel
  obtain ⟨line, hline, hrule⟩ := Line.ofImage?_lexical_rule quotedColons 0 (by decide)
  rw [hline] at hextents
  simp only [Nat.zero_add, hzero] at hrule
  exact ⟨by decide, hzero, line, hline, Option.some.inj hextents, hrule⟩

end BasicListing
