/-
  Whole numbers that are read from JSON text are in range.

  * `Json.Value.InRange`: no whole number in a value is greater than 2^64 - 1.
  * `Json.Reader.InRange`: what holds while a text is read.  Each character keeps
    it (`Json.Reader.InRange.step`).
  * `Json.inRange_of_read`: so it holds of the value of any text.
-/
import BasicListing.Json.Reader
import Mathlib.Tactic.Common

namespace BasicListing.Json

/-- The whole numbers in the value are from 0 to 2^64 - 1. -/
inductive Value.InRange : Value → Prop
  | null : InRange .null
  | bool (b : Bool) : InRange (.bool b)
  | whole {n : Nat} : n ≤ greatestWhole → InRange (.whole n)
  | otherNumber : InRange .otherNumber
  | string (s : Text) : InRange (.string s)
  | array {items : List Value} : (∀ v ∈ items, v.InRange) → InRange (.array items)
  | object {members : List (Text × Value)} : (∀ entry ∈ members, entry.2.InRange) →
      InRange (.object members)

/-- Steps one after the other succeed if each of them does. -/
theorem exists_of_bind_eq_ok {α β : Type} {first : Except Fault α} {next : α → Except Fault β}
    {b : β} (h : (first >>= next) = .ok b) : ∃ a, first = .ok a ∧ next a = .ok b := by
  cases first with
  | error fault => cases h
  | ok a => exact ⟨a, rfl, h⟩

/-! ## States of the reader -/

/-- The values in what is open are in range. -/
def Frame.InRange : Frame → Prop
  | .array items => ∀ v ∈ items, v.InRange
  | .object members | .entry members _ => ∀ entry ∈ members, entry.2.InRange

/-- What is being read is in range as far as it has been read. -/
def Expect.InRange : Expect → Prop
  | .word _ v => v.InRange
  | .number n => n.significand ≤ greatestWhole
  | _ => True

namespace Reader

/-- All values that have been read are in range. -/
structure InRange (r : Reader) : Prop where
  frames : ∀ frame ∈ r.frames, frame.InRange
  expect : r.expect.InRange
  result : ∀ v, r.result = some v → v.InRange

variable {r r' : Reader}

theorem InRange.start : InRange {} := ⟨by simp, trivial, by simp⟩

/-- Going on with something else changes nothing that has been read. -/
theorem InRange.expecting (h : r.InRange) {expect : Expect} (hexpect : expect.InRange) :
    InRange { r with expect } :=
  ⟨h.frames, hexpect, h.result⟩

/-! ## Values -/

theorem InRange.complete (hframes : ∀ frame ∈ r.frames, frame.InRange) {v : Value}
    (hv : v.InRange) : (r.complete v).InRange := by
  unfold Reader.complete
  split
  · refine ⟨by simp, trivial, ?_⟩
    rintro _ ⟨⟩
    exact hv
  · rename_i items frames hr
    rw [hr, List.forall_mem_cons] at hframes
    refine ⟨List.forall_mem_cons.2 ⟨?_, hframes.2⟩, trivial, by simp⟩
    exact List.forall_mem_cons.2 ⟨hv, hframes.1⟩
  · rename_i members key frames hr
    rw [hr, List.forall_mem_cons] at hframes
    refine ⟨List.forall_mem_cons.2 ⟨?_, hframes.2⟩, trivial, by simp⟩
    exact List.forall_mem_cons.2 ⟨hv, hframes.1⟩
  · exact ⟨hframes, trivial, by simp⟩

theorem InRange.completeString (h : r.InRange) (s : Text) : (r.completeString s).InRange := by
  unfold Reader.completeString
  split
  · rename_i members frames hr
    have hframes := h.frames
    rw [hr, List.forall_mem_cons] at hframes
    exact ⟨List.forall_mem_cons.2 hframes, trivial, by simp⟩
  · exact .complete h.frames (.string s)

theorem InRange.openFrame (h : r.InRange) {frame : Frame} {expect : Expect}
    (hr : r.openFrame frame expect = .ok r') (hframe : frame.InRange) (hexpect : expect.InRange) :
    r'.InRange := by
  unfold Reader.openFrame at hr
  split_ifs at hr
  obtain rfl := Except.ok.inj hr
  exact ⟨List.forall_mem_cons.2 ⟨hframe, h.frames⟩, hexpect, by simp⟩

theorem InRange.closeFrame (h : r.InRange) {bracket : Char} (hr : r.closeFrame bracket = .ok r') :
    r'.InRange := by
  have hframes := h.frames
  unfold Reader.closeFrame at hr
  split at hr
  · rename_i items frames hopen
    rw [hopen, List.forall_mem_cons] at hframes
    obtain rfl := Except.ok.inj hr
    exact .complete hframes.2 (.array fun v hv => hframes.1 v (List.mem_reverse.1 hv))
  · rename_i members frames hopen
    rw [hopen, List.forall_mem_cons] at hframes
    obtain rfl := Except.ok.inj hr
    exact .complete hframes.2 (.object fun entry he => hframes.1 entry (List.mem_reverse.1 he))
  · cases hr

/-! ## Numbers -/

theorem significand_takeWhole {n : Numeral} (h : n.significand ≤ greatestWhole) (digit : Nat) :
    (n.takeWhole digit).significand ≤ greatestWhole := by
  unfold Numeral.takeWhole
  grind

theorem significand_takeFraction {n : Numeral} (h : n.significand ≤ greatestWhole) (digit : Nat) :
    (n.takeFraction digit).significand ≤ greatestWhole := by
  unfold Numeral.takeFraction
  grind

theorem significand_stepNumeral? {n n' : Numeral} (h : n.significand ≤ greatestWhole) {c : Char}
    (hn : stepNumeral? n c = some n') : n'.significand ≤ greatestWhole := by
  unfold stepNumeral? at hn
  split at hn
  -- a digit of the whole part
  case h_2 | h_3 => exact Option.some.inj hn ▸ significand_takeWhole h _
  -- a digit of the fraction
  case h_4 | h_5 => exact Option.some.inj hn ▸ significand_takeFraction h _
  -- a leading zero, or a digit of the exponent
  case h_1 | h_6 | h_7 | h_8 => exact Option.some.inj hn ▸ h
  -- no digit: a point, an exponent or its sign
  case h_9 | h_10 | h_11 | h_12 =>
    split_ifs at hn
    all_goals exact Option.some.inj hn ▸ h
  case h_13 => cases hn

theorem inRange_numberValue {n : Numeral} (h : n.significand ≤ greatestWhole) :
    (numberValue n).InRange := by
  unfold numberValue
  split
  · rename_i k hk
    refine .whole ?_
    unfold Numeral.whole? at hk
    grind
  · exact .otherNumber

theorem InRange.endNumber (h : r.InRange) {n : Numeral} (hn : n.significand ≤ greatestWhole)
    (hr : r.endNumber n = .ok r') : r'.InRange := by
  unfold Reader.endNumber at hr
  split_ifs at hr
  obtain rfl := Except.ok.inj hr
  exact .complete h.frames (inRange_numberValue hn)

/-! ## Strings -/

theorem exists_string_of_endCode {chars : Text} {unit : Nat} {lead : Option Nat} {expect : Expect}
    (h : endCode chars unit lead = .ok expect) : ∃ chars part, expect = .string chars part := by
  unfold endCode at h
  split at h
  all_goals
    split_ifs at h
    all_goals exact ⟨_, _, (Except.ok.inj h).symm⟩

theorem exists_string_of_stepString {chars : Text} {part : StringPart} {c : Char} {expect : Expect}
    (h : stepString chars part c = .ok expect) : ∃ chars part, expect = .string chars part := by
  unfold stepString at h
  split at h
  case h_1 => split_ifs at h <;> exact ⟨_, _, (Except.ok.inj h).symm⟩
  case h_2 =>
    split_ifs at h
    · exact ⟨_, _, (Except.ok.inj h).symm⟩
    · split at h
      · exact ⟨_, _, (Except.ok.inj h).symm⟩
      · cases h
  case h_3 =>
    simp only at h
    split_ifs at h
    · exact ⟨_, _, (Except.ok.inj h).symm⟩
    · split at h
      · exact exists_string_of_endCode h
      · cases h
  case h_4 | h_5 =>
    split_ifs at h
    exact ⟨_, _, (Except.ok.inj h).symm⟩

theorem InRange.stepString (h : r.InRange) {chars : Text} {part : StringPart} {c : Char}
    (hr : ((stepString chars part c).map fun expect => { r with expect }) = .ok r') :
    r'.InRange := by
  cases hstep : Reader.stepString chars part c with
  | error fault => rw [hstep] at hr; cases hr
  | ok expect =>
    obtain ⟨chars, part, rfl⟩ := exists_string_of_stepString hstep
    rw [hstep] at hr
    exact Except.ok.inj hr ▸ h.expecting trivial

/-! ## Characters -/

theorem InRange.stepValue (h : r.InRange) {c : Char} (hr : r.stepValue c = .ok r') :
    r'.InRange := by
  unfold Reader.stepValue at hr
  split_ifs at hr
  · exact Except.ok.inj hr ▸ h.expecting .null
  · exact Except.ok.inj hr ▸ h.expecting (.bool true)
  · exact Except.ok.inj hr ▸ h.expecting (.bool false)
  · exact Except.ok.inj hr ▸ h.expecting trivial
  · exact h.openFrame hr (fun v hv => absurd hv List.not_mem_nil) trivial
  · exact h.openFrame hr (fun entry he => absurd he List.not_mem_nil) trivial
  · exact Except.ok.inj hr ▸ h.expecting (Nat.zero_le _)
  · split at hr
    · exact Except.ok.inj hr ▸ h.expecting (Nat.zero_le _)
    · exact Except.ok.inj hr ▸ h.expecting (significand_takeWhole (Nat.zero_le _) _)
    · cases hr

theorem InRange.stepKey (h : r.InRange) {c : Char} (hr : r.stepKey c = .ok r') : r'.InRange := by
  unfold Reader.stepKey at hr
  split_ifs at hr
  exact Except.ok.inj hr ▸ h.expecting trivial

theorem InRange.stepAfterValue (h : r.InRange) {c : Char} (hr : r.stepAfterValue c = .ok r') :
    r'.InRange := by
  unfold Reader.stepAfterValue at hr
  split_ifs at hr
  · exact Except.ok.inj hr ▸ h
  · split at hr
    · exact Except.ok.inj hr ▸ h.expecting trivial
    · exact Except.ok.inj hr ▸ h.expecting trivial
    · cases hr
  · exact h.closeFrame hr

/-- **Each character keeps what has been read in range.** -/
theorem InRange.step (h : r.InRange) {c : Char} (hr : r.step c = .ok r') : r'.InRange := by
  have hexpect := h.expect
  unfold Reader.step at hr
  cases hat : r.expect with
  | value =>
    simp only [hat] at hr
    split_ifs at hr
    · exact Except.ok.inj hr ▸ h
    · exact h.stepValue hr
  | item =>
    simp only [hat] at hr
    split_ifs at hr
    · exact Except.ok.inj hr ▸ h
    · exact h.closeFrame hr
    · exact h.stepValue hr
  | key =>
    simp only [hat] at hr
    split_ifs at hr
    · exact Except.ok.inj hr ▸ h
    · exact h.stepKey hr
  | member =>
    simp only [hat] at hr
    split_ifs at hr
    · exact Except.ok.inj hr ▸ h
    · exact h.closeFrame hr
    · exact h.stepKey hr
  | colon =>
    simp only [hat] at hr
    split_ifs at hr
    · exact Except.ok.inj hr ▸ h
    · exact Except.ok.inj hr ▸ h.expecting trivial
  | afterValue =>
    simp only [hat] at hr
    exact h.stepAfterValue hr
  | word rest v =>
    simp only [hat] at hr
    rw [hat] at hexpect
    split at hr
    · split_ifs at hr
      · exact Except.ok.inj hr ▸ .complete h.frames hexpect
      · exact Except.ok.inj hr ▸ h.expecting hexpect
    · cases hr
  | number n =>
    simp only [hat] at hr
    rw [hat] at hexpect
    split at hr
    · rename_i n' hn
      exact Except.ok.inj hr ▸ h.expecting (significand_stepNumeral? hexpect hn)
    · -- the character stands behind the number
      obtain ⟨ended, hend, hr⟩ := exists_of_bind_eq_ok hr
      exact (h.endNumber hexpect hend).stepAfterValue hr
  | string chars part =>
    simp only [hat] at hr
    split at hr
    · split_ifs at hr
      · exact Except.ok.inj hr ▸ h.completeString _
      · exact h.stepString hr
    · exact h.stepString hr

theorem InRange.foldlM (h : r.InRange) {text : Text} (hr : text.foldlM Reader.step r = .ok r') :
    r'.InRange := by
  induction text generalizing r with
  | nil => exact Except.ok.inj hr ▸ h
  | cons c text ih =>
    rw [List.foldlM_cons] at hr
    obtain ⟨next, hstep, hr⟩ := exists_of_bind_eq_ok hr
    exact ih (h.step hstep) hr

theorem InRange.finish (h : r.InRange) {v : Value} (hv : r.finish = .ok v) : v.InRange := by
  have hexpect := h.expect
  unfold Reader.finish at hv
  obtain ⟨ended, hended, hresult⟩ : ∃ ended : Reader, ended.InRange ∧ ended.result = some v := by
    split at hv
    · rename_i n hat
      rw [hat] at hexpect
      split_ifs at hv
      · obtain ⟨ended, hend, hv⟩ := exists_of_bind_eq_ok hv
        refine ⟨ended, h.endNumber hexpect hend, ?_⟩
        dsimp only at hv
        split at hv <;> cases hv
        assumption
      · cases hv
    · obtain ⟨_, ⟨⟩, hv⟩ := exists_of_bind_eq_ok hv
      refine ⟨r, h, ?_⟩
      dsimp only at hv
      split at hv <;> cases hv
      assumption
  exact hended.result v hresult

end Reader

/-- **Whole numbers that are read are in range.** -/
theorem inRange_of_read {text : Text} {v : Value} (h : read text = .ok v) : v.InRange := by
  obtain ⟨r, hread, hfinish⟩ := exists_of_bind_eq_ok h
  exact (Reader.InRange.start.foldlM hread).finish hfinish

end BasicListing.Json
