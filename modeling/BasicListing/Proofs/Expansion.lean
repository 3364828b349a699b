/-
  How the text of some bytes goes on with more bytes.

  * `Keywords.foldl_extend`: bytes add the same text wherever they stand, but
    for a gap before a token.  The text is written last character first there.
  * `Keywords.gapBehind`, `Keywords.gapBefore`: the gap, in the order of reading.
  * `Keywords.expand_prefix_append`: bytes behind others do not change their text.
  * `Keywords.expand_concat_token`: what a token adds to the text before it.
  * `Keywords.expand_append`: the text of bytes in two parts.
-/
import BasicListing.Keyword
import Mathlib.Data.List.Basic
import Mathlib.Tactic.Common

namespace BasicListing

namespace Keywords

/-! ## Gaps -/

theorem openGap_openGap (t : Text) : openGap (openGap t) = openGap t := by
  unfold openGap
  grind

theorem openGap_append {t : Text} (ht : t ≠ []) (u : Text) : openGap (t ++ u) = openGap t ++ u := by
  obtain ⟨c, t, rfl⟩ := List.exists_cons_of_ne_nil ht
  by_cases hc : c = ' '
  · subst hc
    rfl
  · simp [openGap, hc]

/-- The text written so far, with a gap behind it if a token comes next. -/
def openFor (bytes : List UInt8) (written : Text) : Text :=
  if bytes.head?.any (· > 127) then openGap written else written

theorem openFor_cons (b : UInt8) (bytes : List UInt8) (written : Text) :
    openFor (b :: bytes) written = if b > 127 then openGap written else written := by
  simp [openFor]

/-- Whether a gap is needed can be seen from what was written last. -/
theorem openFor_append (bytes : List UInt8) {t u : Text} (h : t = [] → openGap u = u) :
    openFor bytes (t ++ u) = openFor bytes t ++ u := by
  unfold openFor
  split_ifs
  · rcases eq_or_ne t [] with rfl | ht
    · exact h rfl
    · exact openGap_append ht u
  · rfl

/-- What stands between a text and a token behind it: a space, unless the text is empty or ends in
    one. -/
def gapBehind (t : Text) : Text := if t = [] ∨ t.getLast? = some ' ' then [] else [' ']

/-- What stands between a text and that of the bytes that follow. -/
def gapBefore (bytes : List UInt8) (t : Text) : Text :=
  if bytes.head?.any (· > 127) then gapBehind t else []

theorem reverse_openGap (t : Text) : (openGap t.reverse).reverse = t ++ gapBehind t := by
  rcases List.eq_nil_or_concat' t with rfl | ⟨init, c, rfl⟩
  · rfl
  · rw [gapBehind, List.reverse_concat, List.getLast?_concat]
    by_cases hc : c = ' '
    · subst hc
      rw [if_pos (Or.inr rfl), List.append_nil]
      simp [openGap]
    · rw [if_neg (by simp [hc])]
      simp [openGap, hc]

theorem reverse_openFor (bytes : List UInt8) (t : Text) :
    (openFor bytes t.reverse).reverse = t ++ gapBefore bytes t := by
  unfold openFor gapBefore
  split_ifs
  · exact reverse_openGap t
  · rw [List.reverse_reverse, List.append_nil]

/-! ## More bytes -/

variable (table : Keywords)

theorem extend_eq_append (written : Text) (b : UInt8) :
    table.extend written b = table.extend [] b ++ openFor [b] written := by
  rw [openFor_cons]
  unfold extend
  split_ifs
  · rw [List.reverseAux_eq, List.reverseAux_eq, openGap, List.append_nil]
  · rfl
  · rfl

/-- Only a token can add no text, and even that leaves a gap. -/
theorem openGap_of_extend_eq_nil {b : UInt8} (h : table.extend [] b = []) (written : Text) :
    openGap (openFor [b] written) = openFor [b] written := by
  have htoken : b > 127 := by
    by_contra hb
    unfold extend at h
    split_ifs at h
  rw [openFor_cons, if_pos htoken, openGap_openGap]

/-- **Bytes add the same text wherever they stand**, but for a gap before the first of them. -/
theorem foldl_extend (bytes : List UInt8) (written : Text) :
    bytes.foldl table.extend written = bytes.foldl table.extend [] ++ openFor bytes written := by
  induction bytes generalizing written with
  | nil => rfl
  | cons b bytes ih =>
    -- As long as `bytes` have added nothing, the gap before `b` is the one they would open.
    have hgap : openFor bytes (table.extend written b) =
        openFor bytes (table.extend [] b) ++ openFor [b] written := by
      rw [extend_eq_append]
      exact openFor_append bytes fun hnil => table.openGap_of_extend_eq_nil hnil written
    rw [List.foldl_cons, List.foldl_cons, ih, ih (table.extend [] b), hgap, List.append_assoc,
      openFor_cons, openFor_cons]

theorem expand_eq_append_gap (bytes more : List UInt8) :
    table.expand (bytes ++ more) =
      table.expand bytes ++ gapBefore more (table.expand bytes) ++ table.expand more := by
  have hwritten : bytes.foldl table.extend [] = (table.expand bytes).reverse := by
    rw [expand, List.reverse_reverse]
  rw [expand, List.foldl_append, hwritten, foldl_extend, List.reverse_append, reverse_openFor]
  rfl

theorem expand_cons (b : UInt8) (bytes : List UInt8) :
    table.expand (b :: bytes) =
      table.expand [b] ++ (gapBefore bytes (table.expand [b]) ++ table.expand bytes) :=
  (table.expand_eq_append_gap [b] bytes).trans (List.append_assoc _ _ _)

/-- **The text of some bytes is where the text of more bytes begins.** -/
theorem expand_prefix_append (bytes more : List UInt8) :
    table.expand bytes <+: table.expand (bytes ++ more) := by
  rw [expand_eq_append_gap, List.append_assoc]
  exact List.prefix_append _ _

theorem expand_singleton (b : UInt8) :
    table.expand [b] =
      if b > 127 then (table b).getD []
      else if b < 32 then ['^', Char.ofNat (b.toNat + 64)]
      else [Char.ofNat b.toNat] := by
  rw [expand, List.foldl_cons, List.foldl_nil, extend]
  split_ifs
  · rw [List.reverseAux_eq, openGap, List.append_nil, List.reverse_reverse]
  · rfl
  · rfl

/-- A token puts its keyword behind the text before it, with a space in between where there is
    none. -/
theorem expand_concat_token (bytes : List UInt8) {b : UInt8} (hb : b > 127) :
    table.expand (bytes ++ [b]) =
      table.expand bytes ++ gapBehind (table.expand bytes) ++ (table b).getD [] := by
  rw [expand_eq_append_gap, expand_singleton, if_pos hb, gapBefore, List.head?_cons,
    Option.any_some, if_pos (decide_eq_true hb)]

/-- **Expansion is compositional**, for any table.  The text of bytes in two parts is that of the
    first part, then that of the second, which does not depend on the first.  Between them stands
    a space if the second part begins with a token, also with one that has no keyword or an empty
    one, and the first has text that does not end in a space.

    With the texts of single bytes this tells the text of any bytes. -/
theorem expand_append (bytes more : List UInt8) :
    let text := table.expand bytes
    let gap : Text :=
      if more.head?.any (· > 127) ∧ text ≠ [] ∧ text.getLast? ≠ some ' ' then [' '] else []
    table.expand (bytes ++ more) = text ++ gap ++ table.expand more ∧
      text <+: table.expand (bytes ++ more) ∧
      ∀ b, table.expand [b] =
        if b > 127 then (table b).getD []
        else if b < 32 then ['^', Char.ofNat (b.toNat + 64)]
        else [Char.ofNat b.toNat] := by
  intro text gap
  have hgap : gapBefore more text = gap := by
    have hends : (text = [] ∨ text.getLast? = some ' ') ↔
        ¬ (text ≠ [] ∧ text.getLast? ≠ some ' ') := by
      rw [not_and_or, not_not, not_not]
    simp only [gapBefore, gapBehind, hends, ite_not, gap, ite_and]
  refine ⟨?_, table.expand_prefix_append bytes more, table.expand_singleton⟩
  rw [expand_eq_append_gap, ← hgap]

-- A token without a keyword leaves its gap, and only one.
example : expand (fun _ => none) ([0x41, 0x80] ++ [0x81, 0x42]) = "A B".toList := by decide

end Keywords

end BasicListing
