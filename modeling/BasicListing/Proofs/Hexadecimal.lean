/-
  Hexadecimal digits are read back.

  * `readDigits?_hexByte`, `readDigits?_hexWord`: the digits of a number tell
    the number.
  * `readColumns?`: the bytes in columns of three characters each, as they
    stand in rows of bytes.  `readColumns?_bytes` says that it reads what has
    been written.
-/
import BasicListing.Text.Numeral
import Mathlib.Tactic.Common

namespace BasicListing

/-! ## Numbers -/

theorem digitValue?_hexDigit {n : Nat} (h : n < 16) : digitValue? 16 (hexDigit n) = some n := by
  revert n
  decide

theorem readDigits?_hexByte (b : UInt8) : readDigits? 16 (hexByte b) = some b.toNat := by
  have hb := b.toNat_lt
  have hhigh := digitValue?_hexDigit (by omega : b.toNat / 16 < 16)
  have hlow := digitValue?_hexDigit (by omega : b.toNat % 16 < 16)
  simp only [readDigits?, hexByte, List.foldlM_cons, List.foldlM_nil, appendDigit?, hhigh, hlow,
    Option.map_some, Option.bind_eq_bind, Option.bind_some, Option.pure_def, Option.some.injEq]
  omega

theorem readDigits?_hexWord (w : UInt16) : readDigits? 16 (hexWord w) = some w.toNat := by
  have hw := w.toNat_lt
  have h₃ := digitValue?_hexDigit (by omega : w.toNat / 4096 < 16)
  have h₂ := digitValue?_hexDigit (by omega : w.toNat / 256 % 16 < 16)
  have h₁ := digitValue?_hexDigit (by omega : w.toNat / 16 % 16 < 16)
  have h₀ := digitValue?_hexDigit (by omega : w.toNat % 16 < 16)
  simp only [readDigits?, hexWord, List.foldlM_cons, List.foldlM_nil, appendDigit?, h₃, h₂, h₁, h₀,
    Option.map_some, Option.bind_eq_bind, Option.bind_some, Option.pure_def, Option.some.injEq]
  omega

@[simp] theorem length_hexByte (b : UInt8) : (hexByte b).length = 2 := rfl

@[simp] theorem length_hexWord (w : UInt16) : (hexWord w).length = 4 := rfl

/-- A digit in a radix of sixteen. -/
def isHexDigit (c : Char) : Bool := (digitValue? 16 c).isSome

theorem isHexDigit_hexDigit {n : Nat} (h : n < 16) : isHexDigit (hexDigit n) = true := by
  rw [isHexDigit, digitValue?_hexDigit h, Option.isSome_some]

theorem isHexDigit_of_mem_hexByte {b : UInt8} {c : Char} (h : c ∈ hexByte b) :
    isHexDigit c = true := by
  have hb := b.toNat_lt
  simp only [hexByte, List.mem_cons, List.not_mem_nil, or_false] at h
  rcases h with rfl | rfl
  all_goals exact isHexDigit_hexDigit (by omega)

theorem isHexDigit_of_mem_hexWord {w : UInt16} {c : Char} (h : c ∈ hexWord w) :
    isHexDigit c = true := by
  have hw := w.toNat_lt
  simp only [hexWord, List.mem_cons, List.not_mem_nil, or_false] at h
  rcases h with rfl | rfl | rfl | rfl
  all_goals exact isHexDigit_hexDigit (by omega)

/-! ## Columns of bytes -/

/-- The byte in two digits. -/
def readHexByte? (t : Text) : Option UInt8 := (readDigits? 16 t).map UInt8.ofNat

theorem readHexByte?_hexByte (b : UInt8) : readHexByte? (hexByte b) = some b := by
  rw [readHexByte?, readDigits?_hexByte, Option.map_some, UInt8.ofNat_toNat]

theorem mapM_readHexByte? (bytes : List UInt8) :
    (bytes.map hexByte).mapM readHexByte? = some bytes := by
  induction bytes with
  | nil => rfl
  | cons b bytes ih => simp [readHexByte?_hexByte, ih]

/-- The first two characters of each of the first `n` columns of a text, where a column has three
    characters. -/
def hexColumns : Nat → Text → List Text
  | 0, _ => []
  | n + 1, t => t.take 2 :: hexColumns n (t.drop 3)

/-- The bytes in the first `n` columns of a text; there is none in a blank column. -/
def readColumns? (n : Nat) (t : Text) : Option (List UInt8) :=
  ((hexColumns n t).filter (· != [' ', ' '])).mapM readHexByte?

theorem hexColumns_bytes (bytes : List UInt8) (n : Nat) (t : Text) :
    hexColumns (bytes.length + n) (bytes.flatMap (fun b => hexByte b ++ [' ']) ++ t) =
      bytes.map hexByte ++ hexColumns n t := by
  induction bytes with
  | nil => simp
  | cons b bytes ih =>
    rw [List.length_cons, Nat.add_right_comm, hexColumns, List.map_cons, List.cons_append, ← ih]
    rfl

theorem hexColumns_spaces (n : Nat) (t : Text) :
    hexColumns n (Text.spaces (3 * n) ++ t) = List.replicate n [' ', ' '] := by
  induction n with
  | zero => rfl
  | succ n ih =>
    have hspaces : Text.spaces (3 * (n + 1)) = ' ' :: ' ' :: ' ' :: Text.spaces (3 * n) := rfl
    rw [hspaces, hexColumns, List.replicate_succ, ← ih]
    rfl

theorem hexByte_ne_blank (b : UInt8) : hexByte b ≠ [' ', ' '] := by
  intro h
  have hblank : ' ' ∈ hexByte b := by simp [h]
  exact absurd (isHexDigit_of_mem_hexByte hblank) (by decide)

/-- **Columns of bytes are read back**, with blank columns and any text behind them. -/
theorem readColumns?_bytes (bytes : List UInt8) (missing : Nat) (t : Text) :
    readColumns? (bytes.length + missing)
      (bytes.flatMap (fun b => hexByte b ++ [' ']) ++ (Text.spaces (3 * missing) ++ t)) =
        some bytes := by
  have hbytes : (bytes.map hexByte).filter (· != [' ', ' ']) = bytes.map hexByte := by
    rw [List.filter_eq_self]
    intro column hcolumn
    obtain ⟨b, -, rfl⟩ := List.mem_map.1 hcolumn
    simpa using hexByte_ne_blank b
  have hblank : (List.replicate missing [' ', ' ']).filter (· != [' ', ' ']) = [] := by
    simp
  rw [readColumns?, hexColumns_bytes, hexColumns_spaces, List.filter_append, hbytes, hblank,
    List.append_nil, mapM_readHexByte?]

end BasicListing
