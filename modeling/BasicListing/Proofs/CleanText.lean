/-
  Clean text: what the text of any bytes looks like.

  * `Text.SingleSpaced`: no two spaces stand side by side.
  * `Keywords.Tidy`: a table whose keywords do not begin with a space and have
    no two spaces side by side.  They may end in one, as many of the standard
    keywords do.
  * `Keywords.Tidy.singleSpaced_expand`: only spaces in the bytes themselves
    can put two spaces side by side.
  * `Keywords.Tidy.head?_expand_iff`: a text begins with a space only where the
    bytes do.
  * `Keywords.bytes_expand_iff`: which bytes are shown as they are.
  * `Keywords.expand_clean`: all this for the standard keywords.
-/
import BasicListing.Proofs.Expansion
import BasicListing.Proofs.LossyText
import BasicListing.Proofs.Writing
import Mathlib.Data.List.Chain

namespace BasicListing

namespace Text

/-! ## Spaces side by side -/

/-- No two spaces stand side by side. -/
def SingleSpaced (t : Text) : Prop := ¬ [' ', ' '] <:+: t

theorem singleSpaced_iff_isChain {t : Text} :
    t.SingleSpaced ↔ t.IsChain fun c d => ¬ (c = ' ' ∧ d = ' ') := by
  rw [List.isChain_iff_forall_rel_of_append_cons_cons]
  constructor
  · rintro h _ _ before behind rfl ⟨rfl, rfl⟩
    exact h ⟨before, behind, by simp⟩
  · rintro h ⟨before, behind, rfl⟩
    exact @h ' ' ' ' before behind (by simp) ⟨rfl, rfl⟩

theorem singleSpaced_nil : SingleSpaced [] := singleSpaced_iff_isChain.2 List.isChain_nil

theorem singleSpaced_singleton (c : Char) : SingleSpaced [c] :=
  singleSpaced_iff_isChain.2 (List.isChain_singleton c)

theorem SingleSpaced.append {t u : Text} (ht : t.SingleSpaced) (hu : u.SingleSpaced)
    (h : t.getLast? = some ' ' → u.head? ≠ some ' ') : (t ++ u).SingleSpaced := by
  rw [singleSpaced_iff_isChain] at ht hu ⊢
  refine ht.append hu ?_
  rintro c hc d hd ⟨rfl, rfl⟩
  exact h hc hd

theorem SingleSpaced.cons {c : Char} {t : Text} (ht : t.SingleSpaced) (hc : c ≠ ' ') :
    SingleSpaced (c :: t) :=
  (singleSpaced_singleton c).append ht fun h => absurd (Option.some.inj h) hc

/-! ## Bytes of characters in ASCII -/

theorem Printable.of_mem_bytes {t : Text} (h : t.Printable) {b : UInt8} (hb : b ∈ t.bytes) :
    32 ≤ b ∧ b ≤ 127 := by
  obtain ⟨c, hc, hbc⟩ := List.mem_flatMap.1 hb
  obtain ⟨hlow, hhigh⟩ := h c hc
  rw [String.utf8EncodeChar_eq_singleton (utf8Size_of_le hhigh), List.mem_singleton] at hbc
  have hcode : b.toNat = c.toNat := by
    rw [hbc, UInt32.toNat_toUInt8, Char.toNat_val]
    exact Nat.mod_eq_of_lt (Nat.lt_of_le_of_lt hhigh (by decide))
  rw [UInt8.le_iff_toNat_le, UInt8.le_iff_toNat_le, hcode]
  exact ⟨hlow, hhigh⟩

end Text

namespace Keywords

/-! ## Tables with tidy keywords -/

/-- Each keyword begins with a character other than a space, and no two spaces stand side by side
    in it.  It may end in a space: a gap takes that into account. -/
structure Tidy (table : Keywords) : Prop where
  ne_nil {b : UInt8} {keyword : Text} : table b = some keyword → keyword ≠ []
  head?_ne {b : UInt8} {keyword : Text} : table b = some keyword → keyword.head? ≠ some ' '
  singleSpaced {b : UInt8} {keyword : Text} : table b = some keyword → keyword.SingleSpaced

theorem tidy_standard : standard.Tidy := by
  have hall : ∀ entry ∈ standardEntries, entry.2.toList ≠ [] ∧ entry.2.toList.head? ≠ some ' ' ∧
      ¬ [' ', ' '] <:+: entry.2.toList := by
    decide +kernel
  have hkeyword : ∀ {b keyword}, standard b = some keyword →
      keyword ≠ [] ∧ keyword.head? ≠ some ' ' ∧ keyword.SingleSpaced := by
    intro b keyword h
    obtain ⟨entry, hentry, rfl⟩ := exists_of_ofEntries h
    exact hall entry hentry
  exact ⟨fun h => (hkeyword h).1, fun h => (hkeyword h).2.1, fun h => (hkeyword h).2.2⟩

/-- The byte is a token without a keyword. -/
def lacks (table : Keywords) (b : UInt8) : Bool := decide (b > 127) && (table b).isNone

theorem lacks_iff {table : Keywords} {b : UInt8} :
    table.lacks b = true ↔ b > 127 ∧ table b = none := by
  simp [lacks]

section
variable {table : Keywords}

/-! ## Texts of single bytes -/

/-- What a byte can be: a token without a keyword, one with a keyword, a control character or a
    plain one. -/
theorem expand_singleton_cases (table : Keywords) (b : UInt8) :
    (table.lacks b = true ∧ table.expand [b] = []) ∨
    (b > 127 ∧ ∃ keyword, table b = some keyword ∧ table.expand [b] = keyword) ∨
    (b < 32 ∧ table.expand [b] = ['^', Char.ofNat (b.toNat + 64)]) ∨
    ((32 ≤ b ∧ b ≤ 127) ∧ table.expand [b] = [Char.ofNat b.toNat]) := by
  rw [expand_singleton]
  split_ifs with htoken hcontrol
  · cases hkeyword : table b with
    | none => exact Or.inl ⟨lacks_iff.2 ⟨htoken, hkeyword⟩, rfl⟩
    | some keyword => exact Or.inr (Or.inl ⟨htoken, keyword, rfl, rfl⟩)
  · exact Or.inr (Or.inr (Or.inl ⟨hcontrol, rfl⟩))
  · exact Or.inr (Or.inr (Or.inr ⟨⟨UInt8.not_lt.1 hcontrol, UInt8.not_lt.1 htoken⟩, rfl⟩))

theorem Tidy.expand_singleton_ne_nil (htable : table.Tidy) {b : UInt8}
    (h : ¬ table.lacks b = true) : table.expand [b] ≠ [] := by
  rcases table.expand_singleton_cases b with
    ⟨hlacks, -⟩ | ⟨-, keyword, hkeyword, htext⟩ | ⟨-, htext⟩ | ⟨-, htext⟩
  · exact absurd hlacks h
  · rw [htext]; exact htable.ne_nil hkeyword
  · simp [htext]
  · simp [htext]

theorem ofNat_toNat_eq_space_iff {b : UInt8} (h : b ≤ 127) :
    Char.ofNat b.toNat = ' ' ↔ b = 0x20 := by
  constructor
  · intro hspace
    have hcode := congrArg Char.toNat hspace
    have hle : b.toNat ≤ 127 := UInt8.le_iff_toNat_le.1 h
    rw [Char.toNat_ofNat, if_pos (Or.inl (by omega))] at hcode
    exact UInt8.toNat_inj.1 hcode
  · rintro rfl
    rfl

theorem Tidy.head?_expand_singleton_iff (htable : table.Tidy) (b : UInt8) :
    (table.expand [b]).head? = some ' ' ↔ b = 0x20 := by
  rcases table.expand_singleton_cases b with
    ⟨hlacks, htext⟩ | ⟨htoken, keyword, hkeyword, htext⟩ | ⟨hcontrol, htext⟩ | ⟨hplain, htext⟩
  · have htoken := (lacks_iff.1 hlacks).1
    rw [htext]
    exact ⟨fun h => by simp at h, by rintro rfl; exact absurd htoken (by decide)⟩
  · rw [htext]
    exact ⟨fun h => absurd h (htable.head?_ne hkeyword),
      by rintro rfl; exact absurd htoken (by decide)⟩
  · rw [htext]
    exact ⟨fun h => by simp at h, by rintro rfl; exact absurd hcontrol (by decide)⟩
  · rw [htext, List.head?_cons, Option.some.injEq, ofNat_toNat_eq_space_iff hplain.2]

theorem Tidy.singleSpaced_expand_singleton (htable : table.Tidy) (b : UInt8) :
    (table.expand [b]).SingleSpaced := by
  rcases table.expand_singleton_cases b with
    ⟨-, htext⟩ | ⟨-, keyword, hkeyword, htext⟩ | ⟨-, htext⟩ | ⟨-, htext⟩
  · rw [htext]; exact Text.singleSpaced_nil
  · rw [htext]; exact htable.singleSpaced hkeyword
  · rw [htext]; exact (Text.singleSpaced_singleton _).cons (by decide)
  · rw [htext]; exact Text.singleSpaced_singleton _

/-! ## Texts of many bytes -/

/-- A gap never stands beside a space before it. -/
theorem singleSpaced_append_gapBefore {t : Text} (ht : t.SingleSpaced) (bytes : List UInt8) :
    (t ++ gapBefore bytes t).SingleSpaced := by
  unfold gapBefore gapBehind
  split_ifs with htoken hends
  · rwa [List.append_nil]
  · exact ht.append (Text.singleSpaced_singleton _) fun hlast => absurd (Or.inr hlast) hends
  · rwa [List.append_nil]

/-- **Gaps do not add up.**  Without spaces among the bytes, no two spaces stand side by side in
    their text. -/
theorem Tidy.singleSpaced_expand (htable : table.Tidy) {bytes : List UInt8} (h : 0x20 ∉ bytes) :
    (table.expand bytes).SingleSpaced := by
  -- Whether a gap is opened depends on the end of the text so far, so the last byte goes first.
  induction bytes using List.reverseRecOn with
  | nil => exact Text.singleSpaced_nil
  | append_singleton bytes b ih =>
    rw [List.mem_append, not_or, List.mem_singleton] at h
    rw [expand_eq_append_gap]
    refine (singleSpaced_append_gapBefore (ih h.1) [b]).append
      (htable.singleSpaced_expand_singleton b) fun _ hhead => ?_
    exact h.2 ((htable.head?_expand_singleton_iff b).1 hhead).symm

/-- A token without a keyword adds nothing at the beginning of a text, not even a gap. -/
theorem expand_cons_of_lacks {b : UInt8} (h : table.lacks b = true) (bytes : List UInt8) :
    table.expand (b :: bytes) = table.expand bytes := by
  obtain ⟨htoken, hnone⟩ := lacks_iff.1 h
  have hnil : table.expand [b] = [] := by
    rw [expand_singleton, if_pos htoken, hnone, Option.getD_none]
  rw [expand_cons, hnil, gapBefore, gapBehind, if_pos (Or.inl rfl), ite_self, List.nil_append,
    List.nil_append]

/-- **A text begins with a space only where its bytes do**, apart from tokens without a keyword. -/
theorem Tidy.head?_expand_iff (htable : table.Tidy) (bytes : List UInt8) :
    (table.expand bytes).head? = some ' ' ↔ (bytes.dropWhile table.lacks).head? = some 0x20 := by
  induction bytes with
  | nil => simp
  | cons b bytes ih =>
    by_cases hb : table.lacks b = true
    · rw [expand_cons_of_lacks hb, List.dropWhile_cons_of_pos hb, ih]
    · have hne := htable.expand_singleton_ne_nil hb
      rw [expand_cons, List.head?_append_of_ne_nil _ hne, htable.head?_expand_singleton_iff,
        List.dropWhile_cons_of_neg hb, List.head?_cons, Option.some.injEq]

end

/-! ## Bytes that are shown as they are -/

theorem gapBefore_of_le {bytes : List UInt8} (h : ∀ b ∈ bytes, b ≤ 127) (t : Text) :
    gapBefore bytes t = [] := by
  cases bytes with
  | nil => rfl
  | cons b bytes =>
    have hb : ¬ b > 127 := UInt8.not_lt.2 (h b List.mem_cons_self)
    rw [gapBefore, List.head?_cons, Option.any_some, if_neg (by simpa using hb)]

theorem bytes_expand_of_forall (table : Keywords) {bytes : List UInt8}
    (h : ∀ b ∈ bytes, 32 ≤ b ∧ b ≤ 127) : (table.expand bytes).bytes = bytes := by
  induction bytes with
  | nil => rfl
  | cons b bytes ih =>
    obtain ⟨hb, hbytes⟩ := List.forall_mem_cons.1 h
    have hfirst : table.expand [b] = [Char.ofNat b.toNat] := by
      rw [expand_singleton, if_neg (UInt8.not_lt.2 hb.2), if_neg (UInt8.not_lt.2 hb.1)]
    have htext : table.expand (b :: bytes) = Char.ofNat b.toNat :: table.expand bytes := by
      rw [expand_cons, hfirst, gapBefore_of_le fun c hc => (hbytes c hc).2, List.nil_append,
        List.singleton_append]
    rw [htext, Text.bytes, List.flatMap_cons, ← Text.bytes, ih hbytes,
      Utf8.encode_one (UInt8.le_iff_toNat_le.1 hb.2), List.singleton_append]

/-- **Bytes are shown as they are** if and only if all of them are printable characters. -/
theorem bytes_expand_iff (bytes : List UInt8) :
    (standard.expand bytes).bytes = bytes ↔ ∀ b ∈ bytes, 32 ≤ b ∧ b ≤ 127 := by
  refine ⟨fun hsame b hb => ?_, standard.bytes_expand_of_forall⟩
  rw [← hsame] at hb
  exact (printable_expand bytes).of_mem_bytes hb

end Keywords

/-- Below its header, a listing is made of printable rows. -/
theorem Printer.exists_printable_rows (settings : Settings) (name : Text) (image : Image) :
    let printer : Printer := { settings }
    ∃ rows, printer.listing? name image =
        some (Text.ofRows (printer.header name image ++ rows)) ∧ ∀ row ∈ rows, row.Printable := by
  intro printer
  obtain ⟨rows, hrows, hprintable⟩ : ∃ rows,
      (printer.program image).rows? settings .standard = some rows ∧ ∀ row ∈ rows, row.Printable :=
    exists_rows? rfl fun s _ _ => (printer.program image).hasPrintableCode_standard s
  refine ⟨rows, ?_, hprintable⟩
  rw [listing?, hrows, Option.map_some]

/-- **Expanded text is clean**, whatever the bytes.  With the standard keywords:

    * every character is printable;
    * no two spaces stand side by side, unless there is a space among the bytes;
    * the text begins with a space only if, behind tokens without a keyword, the bytes do;
    * the text is the bytes themselves if and only if all of these are printable characters;
    * so no control character reaches a listing: its line feeds stand between rows, and below the
      header the rows are printable. -/
theorem Keywords.expand_clean (bytes : List UInt8) :
    let text := standard.expand bytes
    text.Printable ∧
      (0x20 ∉ bytes → text.SingleSpaced) ∧
      (text.head? = some ' ' ↔ (bytes.dropWhile standard.lacks).head? = some 0x20) ∧
      (text.bytes = bytes ↔ ∀ b ∈ bytes, 32 ≤ b ∧ b ≤ 127) ∧
      ∀ (settings : Settings) (name : Text) (image : Image),
        let printer : Printer := { settings }
        ∃ rows, printer.listing? name image =
            some (Text.ofRows (printer.header name image ++ rows)) ∧
          ∀ row ∈ rows, row.Printable :=
  ⟨printable_expand bytes, tidy_standard.singleSpaced_expand, tidy_standard.head?_expand_iff bytes,
    bytes_expand_iff bytes, Printer.exists_printable_rows⟩

/-- A token without a keyword before and between others, one behind a keyword that ends in a
    space, and a control character. -/
def wordlessTokens : List UInt8 := [0xFE, 0xAD, 0x41, 0xEB, 0xD0, 0x07, 0xC4, 0xFF, 0xBA]

theorem Keywords.expand_clean_wordlessTokens :
    0x20 ∉ wordlessTokens ∧ standard.expand wordlessTokens = "IF A = ^G THEN PRINT ".toList ∧
      (standard.expand wordlessTokens).SingleSpaced := by
  have hspace : 0x20 ∉ wordlessTokens := by decide
  exact ⟨hspace, by decide +kernel, (expand_clean wordlessTokens).2.1 hspace⟩

end BasicListing
