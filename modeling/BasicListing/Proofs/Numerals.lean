/-
  Numerals, and the blanks around them.

  * `Text.IsNumeral`, `Text.IsHexNumeral`: a text is the decimal or the
    hexadecimal numeral of a value.
  * `readWord?_iff`, `readWord?_hex_iff`: the reader accepts these numerals, up
    to the greatest number of sixteen bits, and nothing else.
  * `Text.trim_eq_iff`: a text without blanks in it is what is left of another
    one when the blanks at its ends are taken away.
-/
import BasicListing.Text.Blank
import BasicListing.Text.Numeral
import Mathlib.Data.List.TakeWhile
import Mathlib.Tactic.Common

namespace BasicListing

/-! ## Blanks -/

/-- The visible characters of ASCII are not blank. -/
theorem isBlank_of_visible {c : Char} (hlow : 33 ≤ c.toNat) (hhigh : c.toNat ≤ 126) :
    isBlank c = false := by
  rw [← Bool.not_eq_true]
  intro hblank
  simp only [isBlank, blankRanges, List.any_cons, List.any_nil, Bool.or_eq_true,
    Bool.and_eq_true, decide_eq_true_eq, Bool.false_eq_true, or_false] at hblank
  omega

namespace Text

/-- A text of blank characters. -/
def Blank (t : Text) : Prop := ∀ c ∈ t, isBlank c = true

/-- A text without a blank character in it. -/
def Solid (t : Text) : Prop := ∀ c ∈ t, isBlank c = false

instance (t : Text) : Decidable t.Blank := List.decidableBAll _ t

instance (t : Text) : Decidable t.Solid := List.decidableBAll _ t

theorem blank_spaces (n : Nat) : (spaces n).Blank := by
  intro c hc
  rw [List.eq_of_mem_replicate hc]
  decide

theorem solid_append {t u : Text} : Solid (t ++ u) ↔ t.Solid ∧ u.Solid :=
  List.forall_mem_append

variable {before t u after : Text}

theorem trimEnd_append (hu : u.Solid) (hne : u ≠ []) (hafter : after.Blank) :
    trimEnd (t ++ u ++ after) = t ++ u := by
  obtain ⟨init, c, rfl⟩ := (List.eq_nil_or_concat u).resolve_left hne
  have hc : isBlank c = false := hu c (by simp)
  have hblank : ∀ c ∈ after.reverse, isBlank c = true := fun c hc =>
    hafter c (List.mem_reverse.1 hc)
  rw [trimEnd, List.reverse_append, List.dropWhile_append_of_pos hblank]
  simp [hc]

theorem exists_trimEnd (t : Text) : ∃ after, t = t.trimEnd ++ after ∧ after.Blank := by
  refine ⟨(t.reverse.takeWhile isBlank).reverse, ?_, ?_⟩
  · rw [trimEnd, ← List.reverse_append, List.takeWhile_append_dropWhile, List.reverse_reverse]
  · intro c hc
    exact List.mem_takeWhile_imp (List.mem_reverse.1 hc)

/-- **What is left without the blanks at the two ends.** -/
theorem trim_eq_iff (ht : t.Solid) (hne : t ≠ []) :
    trim u = t ↔ ∃ before after, u = before ++ t ++ after ∧ before.Blank ∧ after.Blank := by
  constructor
  · rintro rfl
    obtain ⟨after, hafter, hblank⟩ := exists_trimEnd (u.dropWhile isBlank)
    refine ⟨u.takeWhile isBlank, after, ?_, fun c hc => List.mem_takeWhile_imp hc, hblank⟩
    rw [List.append_assoc, trim, ← hafter, List.takeWhile_append_dropWhile]
  · rintro ⟨before, after, rfl, hbefore, hafter⟩
    obtain ⟨c, rest, rfl⟩ := List.exists_cons_of_ne_nil hne
    have hc : isBlank c = false := ht c (by simp)
    rw [trim, List.append_assoc, List.dropWhile_append_of_pos hbefore, List.cons_append,
      List.dropWhile_cons_of_neg (by simp [hc]), ← List.cons_append]
    simpa using trimEnd_append (t := []) ht hne hafter

end Text

/-! ## Numerals -/

/-- The text is a decimal numeral: at most one plus sign, then one or more digits with the given
    value. -/
def Text.IsNumeral (t : Text) (value : Nat) : Prop :=
  ∃ sign digits, t = sign ++ digits ∧ (sign = [] ∨ sign = ['+']) ∧ digits ≠ [] ∧
    (∀ c ∈ digits, c.isDigit = true) ∧ Nat.ofDigitChars 10 digits 0 = value

theorem isBlank_of_isDigit {c : Char} (h : c.isDigit = true) : isBlank c = false := by
  have hbounds : 48 ≤ c.toNat ∧ c.toNat ≤ 57 := Char.isDigit_iff_toNat.1 h
  exact isBlank_of_visible (by omega) (by omega)

namespace Text.IsNumeral

variable {t : Text} {value : Nat}

theorem solid (h : t.IsNumeral value) : t.Solid := by
  obtain ⟨sign, digits, rfl, hsign, -, hdigits, -⟩ := h
  refine solid_append.2 ⟨?_, fun c hc => isBlank_of_isDigit (hdigits c hc)⟩
  rcases hsign with rfl | rfl <;> decide

theorem ne_nil (h : t.IsNumeral value) : t ≠ [] := by
  obtain ⟨sign, digits, rfl, -, hne, -⟩ := h
  exact List.append_ne_nil_of_right_ne_nil _ hne

end Text.IsNumeral

/-! ### Reading digits -/

section
variable {radix : Nat} {isDigit : Char → Bool} {digit : Char → Nat}

theorem foldlM_appendDigit?_iff
    (hdigit : ∀ c, digitValue? radix c = if isDigit c then some (digit c) else none)
    {digits : Text} {value result : Nat} :
    digits.foldlM (appendDigit? radix) value = some result ↔
      (∀ c ∈ digits, isDigit c = true) ∧
        digits.foldl (fun value c => radix * value + digit c) value = result := by
  induction digits generalizing value with
  | nil => simp
  | cons c digits ih =>
    rw [List.foldlM_cons, appendDigit?, hdigit, List.foldl_cons]
    by_cases hc : isDigit c = true
    · simp [hc, ih]
    · simp [hc]

theorem readDigits?_iff
    (hdigit : ∀ c, digitValue? radix c = if isDigit c then some (digit c) else none)
    {t : Text} {value : Nat} :
    readDigits? radix t = some value ↔
      t ≠ [] ∧ (∀ c ∈ t, isDigit c = true) ∧
        t.foldl (fun value c => radix * value + digit c) 0 = value := by
  cases t with
  | nil => simp [readDigits?]
  | cons c t =>
    rw [readDigits?, foldlM_appendDigit?_iff hdigit]
    · simp
    · simp

/-- A plus sign is no digit, so there is only one way to leave it away. -/
theorem readNumeral?_eq_some_iff {greatest value : Nat} {t : Text} :
    readNumeral? radix greatest t = some value ↔
      (∃ sign digits, t = sign ++ digits ∧ (sign = [] ∨ sign = ['+']) ∧
        readDigits? radix digits = some value) ∧ value ≤ greatest := by
  have hplus : ∀ u, readDigits? radix ('+' :: u) = none := fun u => rfl
  unfold readNumeral?
  split
  · rename_i u
    rw [Option.filter_eq_some_iff, decide_eq_true_iff]
    refine and_congr_left fun _ => ⟨fun h => ⟨['+'], u, rfl, .inr rfl, h⟩, ?_⟩
    rintro ⟨sign, digits, ht, rfl | rfl, h⟩
    · obtain rfl : '+' :: u = digits := ht
      rw [hplus] at h
      cases h
    · obtain rfl : u = digits := by simpa using ht
      exact h
  · rename_i ht
    rw [Option.filter_eq_some_iff, decide_eq_true_iff]
    refine and_congr_left fun _ => ⟨fun h => ⟨[], t, rfl, .inl rfl, h⟩, ?_⟩
    rintro ⟨sign, digits, rfl, rfl | rfl, h⟩
    · exact h
    · exact absurd rfl (ht digits)

theorem readWord?_eq_some_iff {t : Text} {number : UInt16} :
    readWord? radix t = some number ↔
      ∃ sign digits, t = sign ++ digits ∧ (sign = [] ∨ sign = ['+']) ∧
        readDigits? radix digits = some number.toNat := by
  have hle : number.toNat ≤ 0xFFFF := Nat.le_of_lt_succ number.toNat_lt
  rw [readWord?, Option.map_eq_some_iff]
  constructor
  · rintro ⟨value, hvalue, rfl⟩
    obtain ⟨h, hle⟩ := readNumeral?_eq_some_iff.1 hvalue
    rwa [UInt16.toNat_ofNat_of_lt' (Nat.lt_succ_of_le hle)]
  · intro h
    exact ⟨number.toNat, readNumeral?_eq_some_iff.2 ⟨h, hle⟩, UInt16.ofNat_toNat⟩

end

/-! ### Decimal numerals -/

theorem digitValue?_decimal (c : Char) :
    digitValue? 10 c = if c.isDigit then some (c.toNat - '0'.toNat) else none := by
  rw [digitValue?]
  by_cases hc : '0' ≤ c ∧ c ≤ '9'
  · have hbounds : 48 ≤ c.toNat ∧ c.toNat ≤ 57 := hc
    have hlt : c.toNat - 48 < 10 := by omega
    rw [if_pos hc, if_pos (Char.isDigit_iff_toNat.2 hc)]
    simp [hlt]
  · rw [if_neg hc, if_neg (mt Char.isDigit_iff_toNat.1 hc)]
    split_ifs <;> simp

theorem Text.isNumeral_iff {t : Text} {value : Nat} :
    t.IsNumeral value ↔ ∃ sign digits, t = sign ++ digits ∧ (sign = [] ∨ sign = ['+']) ∧
      readDigits? 10 digits = some value := by
  simp only [readDigits?_iff digitValue?_decimal]
  rfl

/-- **What the reader accepts**: the numeral of a number of sixteen bits. -/
theorem readWord?_iff {t : Text} {number : UInt16} :
    readWord? 10 t = some number ↔ t.IsNumeral number.toNat := by
  rw [readWord?_eq_some_iff, Text.isNumeral_iff]

/-! ### Hexadecimal numerals -/

/-- The hexadecimal digits, in the order of their values. -/
def hexDigits : Text := "0123456789abcdef".toList

/-- The text is a hexadecimal numeral: at most one plus sign, then one or more digits in either
    case, with the given value. -/
def Text.IsHexNumeral (t : Text) (value : Nat) : Prop :=
  ∃ sign digits, t = sign ++ digits ∧ (sign = [] ∨ sign = ['+']) ∧ digits ≠ [] ∧
    (∀ c ∈ digits, c.toLower ∈ hexDigits) ∧
    digits.foldl (fun value c => 16 * value + hexDigits.idxOf c.toLower) 0 = value

theorem digitValue?_hex (c : Char) :
    digitValue? 16 c =
      if decide (c.toLower ∈ hexDigits) then some (hexDigits.idxOf c.toLower) else none := by
  have hascii : ∀ n < 128, digitValue? 16 (Char.ofNat n) =
      if decide ((Char.ofNat n).toLower ∈ hexDigits) then
        some (hexDigits.idxOf (Char.ofNat n).toLower) else none := by
    decide +kernel
  rcases Nat.lt_or_ge c.toNat 128 with hc | hc
  · have := hascii c.toNat hc
    rwa [Char.ofNat_toNat] at this
  · have hnone : ∀ d : Char, d.toNat < 128 → ¬ c ≤ d := by
      intro d hd (hle : c.toNat ≤ d.toNat)
      omega
    have hlower : c.toLower = c := dif_neg fun h => hnone 'Z' (by decide) h.2
    have hnotMem : c ∉ hexDigits := by
      intro hmem
      have hdigits : hexDigits.all (fun d => d.toNat < 128) = true := by decide
      have hlt : c.toNat < 128 := by simpa using List.all_eq_true.1 hdigits c hmem
      omega
    simp [digitValue?, hlower, hnotMem, hnone '9' (by decide), hnone 'f' (by decide),
      hnone 'F' (by decide)]

/-- The hexadecimal numeral of a number of sixteen bits. -/
theorem readWord?_hex_iff {t : Text} {number : UInt16} :
    readWord? 16 t = some number ↔ t.IsHexNumeral number.toNat := by
  rw [readWord?_eq_some_iff, Text.IsHexNumeral]
  simp only [readDigits?_iff digitValue?_hex, decide_eq_true_eq]

end BasicListing
