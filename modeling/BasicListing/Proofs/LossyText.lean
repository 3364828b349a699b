/-
  Bytes read as UTF-8 and written again.

  * `Utf8.Sequence.Completes`: the bytes that a sequence still lacks.
  * `Utf8.Sequence.exists_begin?` and `Utf8.Sequence.spells_of_begin?`: every
    character beyond ASCII is written as a sequence, and every complete
    sequence is the writing of the character with its value.
  * `lossyText_bytes`: what was written from a text is read as that text.
  * `bytes_lossyText`: bytes that are read without a replacement character
    are the bytes of the text read.
-/
import BasicListing.Text.Utf8
import Mathlib

namespace BasicListing

namespace Utf8

/-! ## Sequences -/

namespace Sequence

/-- The bytes a sequence still lacks: one in the range of its next byte, then as many
    continuation bytes as are to follow. -/
def Completes (s : Sequence) : List UInt8 → Prop
  | [] => False
  | b :: rest =>
    (s.low ≤ b ∧ b ≤ s.high) ∧ rest.length = s.more ∧ ∀ c ∈ rest, 0x80 ≤ c ∧ c ≤ 0xBF

/-- The value of a sequence after more bytes. -/
def valueAfter (s : Sequence) (bytes : List UInt8) : Nat :=
  bytes.foldl (fun value b => value * 64 + (b.toNat - 0x80)) s.value

/-- Some bytes are all that has been read of a sequence: with the bytes it lacks they are the
    UTF-8 form of the character with its value. -/
def Spells (s : Sequence) (read : List UInt8) : Prop :=
  ∀ rest, s.Completes rest → String.utf8EncodeChar (Char.ofNat (s.valueAfter rest)) = read ++ rest

theorem valueAfter_cons (s : Sequence) (b : UInt8) (rest : List UInt8) (more : Nat) :
    s.valueAfter (b :: rest) = valueAfter ⟨0x80, 0xBF, more, s.extend b⟩ rest :=
  List.foldl_cons

theorem valueAfter_singleton (s : Sequence) (b : UInt8) : s.valueAfter [b] = s.extend b :=
  (s.valueAfter_cons b [] 0).trans List.foldl_nil

/-- What a sequence lacks after its next byte. -/
theorem completes_cons_iff {s : Sequence} {b : UInt8} {rest : List UInt8} {more : Nat}
    (h : s.more = more + 1) :
    s.Completes (b :: rest) ↔
      (s.low ≤ b ∧ b ≤ s.high) ∧ Completes ⟨0x80, 0xBF, more, s.extend b⟩ rest := by
  cases rest with
  | nil => simp [Completes, h]
  | cons c rest => simp [Completes, h, and_assoc, and_left_comm]

theorem begin?_two {b : UInt8} (hb : 0xC2 ≤ b.toNat ∧ b.toNat ≤ 0xDF) :
    begin? b = some ⟨0x80, 0xBF, 0, b.toNat - 0xC0⟩ := by
  rw [begin?, if_pos ⟨UInt8.le_iff_toNat_le.2 hb.1, UInt8.le_iff_toNat_le.2 hb.2⟩]

theorem not_two_of_le {b : UInt8} (hb : 0xE0 ≤ b.toNat) : ¬ (0xC2 ≤ b ∧ b ≤ 0xDF) := fun h =>
  absurd (UInt8.le_iff_toNat_le.1 h.2) (Nat.not_le.2 hb)

/-- Behind `E0` the low continuation bytes are ruled out, since they make overlong forms, and
    behind `ED` the high ones, which make surrogates. -/
theorem begin?_three {b : UInt8} (hb : 0xE0 ≤ b.toNat ∧ b.toNat ≤ 0xEF) :
    ∃ low high, begin? b = some ⟨low, high, 1, b.toNat - 0xE0⟩ ∧
      ∀ c : UInt8, low ≤ c ∧ c ≤ high ↔ (0x80 ≤ c.toNat ∧ c.toNat ≤ 0xBF) ∧
        (b.toNat = 0xE0 → 0xA0 ≤ c.toNat) ∧ (b.toNat = 0xED → c.toNat ≤ 0x9F) := by
  simp only [UInt8.le_iff_toNat_le]
  by_cases hfirst : b = 0xE0
  · have hvalue : b.toNat = 0xE0 := by rw [hfirst]; rfl
    refine ⟨0xA0, 0xBF, by rw [hfirst]; rfl, fun c => ?_⟩
    simp only [UInt8.reduceToNat]
    omega
  by_cases hsurrogate : b = 0xED
  · have hvalue : b.toNat = 0xED := by rw [hsurrogate]; rfl
    refine ⟨0x80, 0x9F, by rw [hsurrogate]; rfl, fun c => ?_⟩
    simp only [UInt8.reduceToNat]
    omega
  have hne : b.toNat ≠ 0xE0 ∧ b.toNat ≠ 0xED :=
    ⟨fun h => hfirst (UInt8.toNat_inj.1 h), fun h => hsurrogate (UInt8.toNat_inj.1 h)⟩
  refine ⟨0x80, 0xBF, ?_, fun c => ?_⟩
  · rw [begin?, if_neg (not_two_of_le hb.1), if_neg hfirst, if_neg hsurrogate, if_pos]
    simp only [UInt8.le_iff_toNat_le, UInt8.reduceToNat]
    omega
  · simp only [UInt8.reduceToNat]
    omega

/-- Behind `F0` the low continuation bytes are ruled out, since they make overlong forms, and
    behind `F4` the high ones, which go beyond the last character. -/
theorem begin?_four {b : UInt8} (hb : 0xF0 ≤ b.toNat ∧ b.toNat ≤ 0xF4) :
    ∃ low high, begin? b = some ⟨low, high, 2, b.toNat - 0xF0⟩ ∧
      ∀ c : UInt8, low ≤ c ∧ c ≤ high ↔ (0x80 ≤ c.toNat ∧ c.toNat ≤ 0xBF) ∧
        (b.toNat = 0xF0 → 0x90 ≤ c.toNat) ∧ (b.toNat = 0xF4 → c.toNat ≤ 0x8F) := by
  simp only [UInt8.le_iff_toNat_le]
  by_cases hfirst : b = 0xF0
  · have hvalue : b.toNat = 0xF0 := by rw [hfirst]; rfl
    refine ⟨0x90, 0xBF, by rw [hfirst]; rfl, fun c => ?_⟩
    simp only [UInt8.reduceToNat]
    omega
  by_cases hlast : b = 0xF4
  · have hvalue : b.toNat = 0xF4 := by rw [hlast]; rfl
    refine ⟨0x80, 0x8F, by rw [hlast]; rfl, fun c => ?_⟩
    simp only [UInt8.reduceToNat]
    omega
  have hne : b.toNat ≠ 0xF0 ∧ b.toNat ≠ 0xF4 :=
    ⟨fun h => hfirst (UInt8.toNat_inj.1 h), fun h => hlast (UInt8.toNat_inj.1 h)⟩
  have hthree : ¬ (0xE1 ≤ b ∧ b ≤ 0xEF) ∧ b ≠ 0xE0 ∧ b ≠ 0xED := by
    simp only [UInt8.le_iff_toNat_le, ne_eq, ← UInt8.toNat_inj, UInt8.reduceToNat]
    omega
  refine ⟨0x80, 0xBF, ?_, fun c => ?_⟩
  · rw [begin?, if_neg (not_two_of_le (by omega)), if_neg hthree.2.1, if_neg hthree.2.2,
      if_neg hthree.1, if_neg hfirst, if_pos]
    simp only [UInt8.le_iff_toNat_le, UInt8.reduceToNat]
    omega
  · simp only [UInt8.reduceToNat]
    omega

/-- The bytes that begin a sequence. -/
theorem range_of_begin? {b : UInt8} {s : Sequence} (h : begin? b = some s) :
    0xC2 ≤ b.toNat ∧ b.toNat ≤ 0xF4 := by
  simp only [begin?, UInt8.le_iff_toNat_le, ← UInt8.toNat_inj, UInt8.reduceToNat] at h
  split_ifs at h <;> omega

theorem continues_iff {c : UInt8} : 0x80 ≤ c ∧ c ≤ 0xBF ↔ 0x80 ≤ c.toNat ∧ c.toNat ≤ 0xBF := by
  simp only [UInt8.le_iff_toNat_le, UInt8.reduceToNat]

end Sequence

/-! ## Characters and their bytes -/

theorem ofNat_of_eq_toNat {n : Nat} {b : UInt8} (h : n = b.toNat) : UInt8.ofNat n = b := by
  rw [h, UInt8.ofNat_toNat]

theorem encode_one {b : UInt8} (hb : b.toNat ≤ 0x7F) :
    String.utf8EncodeChar (Char.ofNat b.toNat) = [b] := by
  rw [String.utf8EncodeChar, Char.toNat_val, Char.toNat_ofNat, if_pos (Or.inl (by omega)),
    if_pos hb, UInt8.ofNat_toNat]

theorem encode_two {b c : UInt8} (hb : 0xC2 ≤ b.toNat ∧ b.toNat ≤ 0xDF)
    (hc : 0x80 ≤ c.toNat ∧ c.toNat ≤ 0xBF) :
    String.utf8EncodeChar (Char.ofNat ((b.toNat - 0xC0) * 64 + (c.toNat - 0x80))) = [b, c] := by
  rw [String.utf8EncodeChar, Char.toNat_val, Char.toNat_ofNat, if_pos (Or.inl (by omega)),
    if_neg (by omega), if_pos (by omega), ofNat_of_eq_toNat (b := b) (by omega),
    ofNat_of_eq_toNat (b := c) (by omega)]

theorem encode_three {b c d : UInt8} (hb : 0xE0 ≤ b.toNat ∧ b.toNat ≤ 0xEF)
    (hc : (0x80 ≤ c.toNat ∧ c.toNat ≤ 0xBF) ∧ (b.toNat = 0xE0 → 0xA0 ≤ c.toNat) ∧
      (b.toNat = 0xED → c.toNat ≤ 0x9F))
    (hd : 0x80 ≤ d.toNat ∧ d.toNat ≤ 0xBF) :
    String.utf8EncodeChar (Char.ofNat
      (((b.toNat - 0xE0) * 64 + (c.toNat - 0x80)) * 64 + (d.toNat - 0x80))) = [b, c, d] := by
  rw [String.utf8EncodeChar, Char.toNat_val, Char.toNat_ofNat,
    if_pos (show Nat.isValidChar _ by simp only [Nat.isValidChar]; omega),
    if_neg (by omega), if_neg (by omega), if_pos (by omega),
    ofNat_of_eq_toNat (b := b) (by omega), ofNat_of_eq_toNat (b := c) (by omega),
    ofNat_of_eq_toNat (b := d) (by omega)]

theorem encode_four {b c d e : UInt8} (hb : 0xF0 ≤ b.toNat ∧ b.toNat ≤ 0xF4)
    (hc : (0x80 ≤ c.toNat ∧ c.toNat ≤ 0xBF) ∧ (b.toNat = 0xF0 → 0x90 ≤ c.toNat) ∧
      (b.toNat = 0xF4 → c.toNat ≤ 0x8F))
    (hd : 0x80 ≤ d.toNat ∧ d.toNat ≤ 0xBF) (he : 0x80 ≤ e.toNat ∧ e.toNat ≤ 0xBF) :
    String.utf8EncodeChar (Char.ofNat
      ((((b.toNat - 0xF0) * 64 + (c.toNat - 0x80)) * 64 + (d.toNat - 0x80)) * 64 +
        (e.toNat - 0x80))) = [b, c, d, e] := by
  rw [String.utf8EncodeChar, Char.toNat_val, Char.toNat_ofNat,
    if_pos (Or.inr ⟨by omega, by omega⟩), if_neg (by omega), if_neg (by omega), if_neg (by omega),
    ofNat_of_eq_toNat (b := b) (by omega), ofNat_of_eq_toNat (b := c) (by omega),
    ofNat_of_eq_toNat (b := d) (by omega), ofNat_of_eq_toNat (b := e) (by omega)]

/-- A sequence that has just been begun. -/
theorem Sequence.spells_of_begin? {b : UInt8} {s : Sequence} (h : begin? b = some s) :
    s.Spells [b] := by
  have hb := range_of_begin? h
  rintro (_ | ⟨c, rest⟩) hrest
  · exact hrest.elim
  obtain ⟨hc, hlength, hrest⟩ := hrest
  rcases Nat.lt_or_ge b.toNat 0xE0 with h₂ | h₂
  · rw [begin?_two (by omega), Option.some.injEq] at h
    subst h
    obtain rfl := List.eq_nil_of_length_eq_zero hlength
    exact encode_two (by omega) (continues_iff.1 hc)
  rcases Nat.lt_or_ge b.toNat 0xF0 with h₃ | h₃
  · obtain ⟨low, high, hbegin, hrange⟩ := begin?_three (b := b) (by omega)
    rw [hbegin, Option.some.injEq] at h
    subst h
    obtain ⟨d, rfl⟩ := List.length_eq_one_iff.1 hlength
    exact encode_three (by omega) ((hrange c).1 hc) (continues_iff.1 (hrest d (by simp)))
  · obtain ⟨low, high, hbegin, hrange⟩ := begin?_four (b := b) (by omega)
    rw [hbegin, Option.some.injEq] at h
    subst h
    obtain ⟨d, e, rfl⟩ := List.length_eq_two.1 hlength
    exact encode_four (by omega) ((hrange c).1 hc) (continues_iff.1 (hrest d (by simp)))
      (continues_iff.1 (hrest e (by simp)))

theorem exists_byte {n : Nat} (h : n < 256) : ∃ b : UInt8, b.toNat = n :=
  ⟨UInt8.ofNat n, UInt8.toNat_ofNat_of_lt' h⟩

/-- Every character beyond ASCII has a sequence. -/
theorem Sequence.exists_begin? {n : Nat} (h : 0x80 ≤ n) (hvalid : n.isValidChar) :
    ∃ b s rest, begin? b = some s ∧ s.Completes rest ∧ s.valueAfter rest = n := by
  simp only [Nat.isValidChar] at hvalid
  obtain ⟨last, hlast⟩ := exists_byte (n := n % 64 + 0x80) (by omega)
  have hcontinues := continues_iff.2 (show 0x80 ≤ last.toNat ∧ last.toNat ≤ 0xBF by omega)
  rcases Nat.lt_or_ge n 0x800 with h₂ | h₂
  · obtain ⟨b, hb⟩ := exists_byte (n := n / 64 + 0xC0) (by omega)
    refine ⟨b, _, [last], begin?_two (by omega), ⟨hcontinues, rfl, by simp⟩, ?_⟩
    simp only [valueAfter, List.foldl_cons, List.foldl_nil]
    omega
  obtain ⟨d, hd⟩ := exists_byte (n := n / 64 % 64 + 0x80) (by omega)
  rcases Nat.lt_or_ge n 0x10000 with h₃ | h₃
  · obtain ⟨b, hb⟩ := exists_byte (n := n / 4096 + 0xE0) (by omega)
    obtain ⟨low, high, hbegin, hrange⟩ := begin?_three (b := b) (by omega)
    refine ⟨b, _, [d, last], hbegin, ⟨(hrange d).2 (by omega), rfl, ?_⟩, ?_⟩
    · simpa using hcontinues
    · simp only [valueAfter, List.foldl_cons, List.foldl_nil]
      omega
  · obtain ⟨b, hb⟩ := exists_byte (n := n / 262144 + 0xF0) (by omega)
    obtain ⟨c, hc⟩ := exists_byte (n := n / 4096 % 64 + 0x80) (by omega)
    obtain ⟨low, high, hbegin, hrange⟩ := begin?_four (b := b) (by omega)
    refine ⟨b, _, [c, d, last], hbegin, ⟨(hrange c).2 (by omega), rfl, ?_⟩, ?_⟩
    · simpa using ⟨continues_iff.2 (by omega), hcontinues⟩
    · simp only [valueAfter, List.foldl_cons, List.foldl_nil]
      omega

/-! ## The reader -/

namespace Reader

variable {s : Sequence} {b : UInt8} {bytes rest : List UInt8} {chars : Text} {r : Reader}

theorem step_ascii (h : b < 0x80) :
    step { chars } b = { chars := Char.ofNat b.toNat :: chars } := by
  simp [step, start, h]

theorem step_begin (h : Sequence.begin? b = some s) :
    step { chars } b = { chars, inside := some s } := by
  have hb : 0x80 ≤ b := UInt8.le_iff_toNat_le.2
    (Nat.le_trans (by decide) (Sequence.range_of_begin? h).1)
  simp [step, start, UInt8.not_lt.2 hb, h]

/-- **A sequence that is completed is one character.** -/
theorem foldl_completes (h : s.Completes rest) :
    rest.foldl step { chars, inside := some s } =
      { chars := Char.ofNat (s.valueAfter rest) :: chars } := by
  induction rest generalizing s with
  | nil => exact h.elim
  | cons b rest ih =>
    cases hmore : s.more with
    | zero =>
      obtain ⟨hb, hlength, -⟩ := h
      obtain rfl := List.eq_nil_of_length_eq_zero (hlength.trans hmore)
      simp only [List.foldl_cons, List.foldl_nil, step, if_pos hb, hmore, s.valueAfter_singleton]
    | succ more =>
      obtain ⟨hb, hrest⟩ := (Sequence.completes_cons_iff hmore).1 h
      simp only [List.foldl_cons, step, if_pos hb, hmore]
      rw [ih hrest, s.valueAfter_cons b rest more]

/-- The bytes of a character are read as that character. -/
theorem foldl_encode (c : Char) :
    (String.utf8EncodeChar c).foldl step { chars } = { chars := c :: chars } := by
  obtain hc | hc := Nat.lt_or_ge c.toNat 0x80
  · obtain ⟨b, hb⟩ := exists_byte (n := c.toNat) (by omega)
    have hencode := encode_one (b := b) (by omega)
    rw [hb, Char.ofNat_toNat] at hencode
    rw [hencode, List.foldl_cons, List.foldl_nil,
      step_ascii (UInt8.lt_iff_toNat_lt.2 (hb ▸ hc)), hb, Char.ofNat_toNat]
  · obtain ⟨b, s, rest, hbegin, hrest, hvalue⟩ := Sequence.exists_begin? hc c.valid
    have hencode := Sequence.spells_of_begin? hbegin rest hrest
    rw [hvalue, Char.ofNat_toNat] at hencode
    rw [hencode, List.singleton_append, List.foldl_cons, step_begin hbegin,
      foldl_completes hrest, hvalue, Char.ofNat_toNat]

theorem foldl_bytes (t : Text) :
    t.bytes.foldl step { chars } = { chars := t.reverse ++ chars } := by
  induction t generalizing chars with
  | nil => rfl
  | cons c t ih =>
    rw [Text.bytes, List.flatMap_cons, List.foldl_append, foldl_encode, ← Text.bytes, ih,
      List.reverse_cons, List.append_assoc, List.singleton_append]

theorem chars_start (chars : Text) (b : UInt8) : ∃ more, (start chars b).chars = more ++ chars := by
  rw [start]
  split
  · exact ⟨[_], rfl⟩
  · split
    · exact ⟨[], rfl⟩
    · exact ⟨[_], rfl⟩

/-- Characters that have been read stay. -/
theorem mem_text_of_mem_chars {c : Char} (h : c ∈ r.chars) : c ∈ (bytes.foldl step r).text := by
  induction bytes generalizing r with
  | nil =>
    rw [List.foldl_nil, text]
    split <;> simp [h]
  | cons b bytes ih =>
    refine ih ?_
    rw [step]
    split
    · obtain ⟨more, hmore⟩ := chars_start r.chars b
      simp [hmore, h]
    · split
      · split <;> simp [h]
      · obtain ⟨more, hmore⟩ := chars_start (replacement :: r.chars) b
        simp [hmore, h]

/-- The bytes that a reader has read of the character it is in. -/
def Pending (r : Reader) (read : List UInt8) : Prop :=
  match r.inside with
  | none => read = []
  | some s => s.Spells read

/-- One byte is read: what cannot be read leaves a replacement character, and in all else no byte
    is lost. -/
theorem Pending.step {read : List UInt8} (h : r.Pending read) (b : UInt8) :
    replacement ∈ (r.step b).chars ∨
      ∃ t read', (r.step b).chars = List.reverse t ++ r.chars ∧ (r.step b).Pending read' ∧
        Text.bytes t ++ read' = read ++ [b] := by
  obtain ⟨chars, _ | s⟩ := r
  · obtain rfl : read = [] := h
    by_cases hb : b < 0x80
    · have hencode := encode_one (Nat.le_of_lt_succ (UInt8.lt_iff_toNat_lt.1 hb))
      refine .inr ⟨[Char.ofNat b.toNat], [], ?_⟩
      rw [step_ascii hb]
      exact ⟨rfl, rfl, by simp [Text.bytes, hencode]⟩
    cases hbegin : Sequence.begin? b with
    | none => exact .inl (by simp [Reader.step, start, hb, hbegin])
    | some s =>
      rw [step_begin hbegin]
      exact .inr ⟨[], [b], rfl, Sequence.spells_of_begin? hbegin, rfl⟩
  by_cases hb : s.low ≤ b ∧ b ≤ s.high
  · cases hmore : s.more with
    | zero =>
      have hencode := h [b] ⟨hb, hmore.symm, by simp⟩
      refine .inr ⟨[Char.ofNat (s.extend b)], [], ?_⟩
      simp only [Reader.step, if_pos hb, hmore]
      rw [s.valueAfter_singleton] at hencode
      exact ⟨rfl, rfl, by simpa [Text.bytes] using hencode⟩
    | succ more =>
      refine .inr ⟨[], read ++ [b], ?_⟩
      simp only [Reader.step, if_pos hb, hmore]
      refine ⟨rfl, fun rest hrest => ?_, rfl⟩
      have hencode := h (b :: rest) ((Sequence.completes_cons_iff hmore).2 ⟨hb, hrest⟩)
      rw [s.valueAfter_cons b rest more] at hencode
      simpa using hencode
  · obtain ⟨more, hchars⟩ := chars_start (replacement :: chars) b
    exact .inl (by simp [Reader.step, if_neg hb, hchars])

/-- **No byte is lost that is not replaced.** -/
theorem Pending.exists_of_foldl {read : List UInt8} (h : r.Pending read)
    (hreplace : replacement ∉ (bytes.foldl Reader.step r).text) :
    ∃ t, (bytes.foldl Reader.step r).text = r.chars.reverse ++ t ∧
      Text.bytes t = read ++ bytes := by
  induction bytes generalizing r read with
  | nil =>
    obtain ⟨chars, _ | s⟩ := r
    · obtain rfl : read = [] := h
      exact ⟨[], (List.append_nil _).symm, rfl⟩
    · exact absurd (by simp [text]) hreplace
  | cons b bytes ih =>
    rw [List.foldl_cons] at hreplace ⊢
    obtain hmem | ⟨t, read', hchars, hpending, hbytes⟩ := h.step b
    · exact absurd (mem_text_of_mem_chars hmem) hreplace
    obtain ⟨u, hu, hrest⟩ := ih hpending hreplace
    refine ⟨t ++ u, ?_, ?_⟩
    · rw [hu, hchars, List.reverse_append, List.reverse_reverse, List.append_assoc]
    · rw [Text.bytes, List.flatMap_append, ← Text.bytes, ← Text.bytes, hrest,
        ← List.append_assoc, hbytes, List.append_assoc, List.singleton_append]

end Reader

end Utf8

/-! ## Texts -/

/-- **What was written from a text is read as that text.** -/
theorem lossyText_bytes (t : Text) : lossyText t.bytes = t := by
  rw [lossyText, Utf8.Reader.foldl_bytes]
  simp [Utf8.Reader.text]

/-- **Bytes read without a replacement character** are the bytes of the text read. -/
theorem bytes_lossyText {bytes : List UInt8} (h : Utf8.replacement ∉ lossyText bytes) :
    (lossyText bytes).bytes = bytes := by
  have hpending : Utf8.Reader.Pending {} [] := rfl
  obtain ⟨t, ht, hbytes⟩ := hpending.exists_of_foldl h
  rw [lossyText, ht]
  exact hbytes

end BasicListing
