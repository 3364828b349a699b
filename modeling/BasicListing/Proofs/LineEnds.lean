/-
  Reading a line and counting its bytes end at the same place.

  * `Splitter.scan`: a line read in one pass, which looks at each byte for the
    end of the line, whatever the byte would mean otherwise.  The statements of
    a line are read in this way (`Line.statements_ofRest`).
  * `Line.stop_ofImage?`, `Image.stop_firstLineSize`: where the line that is read
    ends, and where the one that is counted does.  Both are told by the first
    zero byte behind the header.
  * `Line.length_eq_min_firstLineSize`: so the two lengths agree, and the first
    link tells where the image was loaded.
-/
import BasicListing.Proofs.LexicalRule
import BasicListing.Proofs.Truncation

namespace BasicListing

/-! ## One pass -/

/-- The statements of a line, read byte by byte up to a zero byte, or to the end of the bytes. -/
def Splitter.scan (s : Splitter) : List UInt8 → List Statement
  | [] => s.finish .absent
  | b :: rest => if b = Code.endOfLine then s.finish .zero else (s.step b).scan rest

theorem Splitter.scan_eq (s : Splitter) (rest : List UInt8) :
    s.scan rest = ((rest.takeWhile (· != Code.endOfLine)).foldl step s).finish
      (if rest.contains Code.endOfLine then .zero else .absent) := by
  induction rest generalizing s with
  | nil => rfl
  | cons b rest ih =>
    by_cases hb : b = Code.endOfLine
    · simp [scan, hb]
    · have hne : Code.endOfLine ≠ b := fun h => hb h.symm
      simp [scan, hb, hne, ih]

/-- **A line is read in one pass.**  No context hides its end. -/
theorem Line.statements_ofRest (number : UInt16) (offset : Nat) (rest : List UInt8) :
    (ofRest number offset rest).statements =
      Splitter.scan { start := offset + headerSize } rest :=
  (Splitter.scan_eq _ rest).symm

/-! ## The end of a line -/

section
variable {image : Image} {offset : Nat}

theorem drop_behind_header {linkLow linkHigh low high : UInt8} {rest : List UInt8}
    (himage : image.drop offset = linkLow :: linkHigh :: low :: high :: rest) :
    image.drop (offset + 4) = rest := by
  rw [← List.drop_drop, himage]
  rfl

/-- A line ends behind the first zero byte of its body, or else with the image. -/
theorem Line.stop_ofImage? (h : offset + 4 ≤ image.length) :
    ∃ line, ofImage? image offset = some line ∧
      line.statements = Splitter.scan { start := offset + 4 } (image.drop (offset + 4)) ∧
      offset + line.length = ((image.zeroFrom? (offset + 4)).map (· + 1)).getD image.length := by
  obtain ⟨linkLow, linkHigh, low, high, rest, himage⟩ := exists_header h
  have hrest := drop_behind_header himage
  have hlength : image.length = offset + 4 + rest.length := by
    rw [← hrest, List.length_drop]
    omega
  obtain ⟨hstop, hzero⟩ := zeroFrom?_eq hrest h
  refine ⟨ofRest (word low high) offset rest, by rw [ofImage?, himage], ?_, ?_⟩
  · rw [statements_ofRest, hrest, headerSize]
  · have hbody := bodySize_ofRest (word low high) offset rest
    rw [length, headerSize, hbody]
    cases hfirst : image.zeroFrom? (offset + 4) with
    | none =>
      rw [hfirst, Option.getD_none] at hstop
      rw [Option.map_none, Option.getD_none]
      omega
    | some stop =>
      obtain ⟨-, -, hlt, -⟩ := firstIn_eq_some hfirst
      rw [hfirst, Option.getD_some] at hstop
      rw [Option.map_some, Option.getD_some]
      omega

/-- The zero byte is counted, even if there is none. -/
theorem Image.stop_firstLineSize (h : offset + 4 ≤ image.length) (hlink : image.wordAt offset ≠ 0) :
    offset + firstLineSize (image.drop offset) =
      (image.zeroFrom? (offset + 4)).getD image.length + 1 := by
  obtain ⟨linkLow, linkHigh, low, high, rest, himage⟩ := exists_header h
  obtain ⟨hstop, -⟩ := zeroFrom?_eq (drop_behind_header himage) h
  rw [wordAt_eq himage] at hlink
  rw [hstop, himage, firstLineSize, if_neg hlink, headerSize, List.drop_succ_cons,
    List.drop_succ_cons, List.drop_zero]
  omega

theorem Line.length_eq_of_zeroFrom? (h : offset + 4 ≤ image.length)
    (hlink : image.wordAt offset ≠ 0) {line : Line} (hline : ofImage? image offset = some line)
    {stop : Nat} (hstop : image.zeroFrom? (offset + 4) = some stop) :
    line.length = Image.firstLineSize (image.drop offset) ∧ offset + line.length = stop + 1 := by
  obtain ⟨line', hline', -, hread⟩ := stop_ofImage? h
  obtain rfl : line' = line := Option.some.inj (hline'.symm.trans hline)
  have hcounted := Image.stop_firstLineSize h hlink
  rw [hstop, Option.map_some, Option.getD_some] at hread
  rw [hstop, Option.getD_some] at hcounted
  exact ⟨by omega, hread⟩

end

/-! ## The first line -/

/-- The first line of a program is the one at the start of its image. -/
theorem exists_of_head?_scanLines {image : Image} {line : Line}
    (h : (scanLines 0 0 image).head? = some line) :
    ∃ linkLow linkHigh low high rest, image = linkLow :: linkHigh :: low :: high :: rest ∧
      word linkLow linkHigh ≠ 0 ∧ line = Line.ofRest (word low high) 0 rest := by
  rw [scanLines.eq_def] at h
  split at h
  · rename_i linkLow linkHigh low high rest
    split_ifs at h with hstop
    · simp at h
    · refine ⟨linkLow, linkHigh, low, high, rest, rfl, ?_, (Option.some.inj h).symm⟩
      intro hzero
      rw [hzero] at hstop
      simp at hstop
  · simp at h

/-- The last statement of a line ends as the line does. -/
theorem Line.ending_getLast? {number : UInt16} {offset : Nat} {rest : List UInt8} {last : Statement}
    (hlast : (ofRest number offset rest).statements.getLast? = some last) :
    last.ending = if rest.contains Code.endOfLine then .zero else .absent := by
  have hmake := splitBody_makeUp (offset + headerSize) (rest.takeWhile (· != Code.endOfLine))
    (if rest.contains Code.endOfLine then .zero else .absent)
  obtain ⟨init, last', hss, hending, -⟩ := hmake.ends
  rw [ofRest, hss, List.getLast?_concat] at hlast
  rw [← Option.some.inj hlast, hending]

/-- The link of a line is the address behind it, counted from where the image was loaded. -/
theorem Image.origin_add_firstLineSize (image : Image) (h : 2 ≤ image.length) :
    image.origin + UInt16.ofNat image.firstLineSize = image.wordAt 0 := by
  rcases image with _ | ⟨low, _ | ⟨high, rest⟩⟩
  case cons.cons => rw [origin, UInt16.sub_add_cancel]; rfl
  all_goals simp at h

/-! ## The two lengths -/

/-- **Lines are as long as they are counted.**

    Where there is a header with a link, the line that is read there ends at the first zero byte of
    its body, whatever the statements before it are.  This is where counting ends too.  Only
    where the zero byte is missing is it counted and not read, and the line ends with the image.

    So if the first line of a program has its zero byte, its link is the address behind it. -/
theorem Line.length_eq_min_firstLineSize (image : Image) :
    (∀ offset, offset + 4 ≤ image.length → image.wordAt offset ≠ 0 →
      let counted := Image.firstLineSize (image.drop offset)
      ∃ line, ofImage? image offset = some line ∧
        line.length = min counted (image.length - offset) ∧
        line.statements = Splitter.scan { start := offset + 4 } (image.drop (offset + 4)) ∧
        (∀ stop, image.zeroFrom? (offset + 4) = some stop →
          line.length = counted ∧ offset + line.length = stop + 1) ∧
        (image.zeroFrom? (offset + 4) = none →
          line.length + 1 = counted ∧ offset + line.length = image.length)) ∧
    ∀ (keywords : Keywords) (findAssignments : Bool) (line : Line) (last : Statement),
      let p := Program.ofImage keywords findAssignments image
      p.lines.head? = some line → line.statements.getLast? = some last → last.ending = .zero →
      p.origin + UInt16.ofNat line.length = image.wordAt 0 := by
  refine ⟨?_, ?_⟩
  · intro offset h hlink counted
    obtain ⟨line, hline, hscan, hread⟩ := stop_ofImage? h
    cases hstop : image.zeroFrom? (offset + 4) with
    | none =>
      have hcounted : offset + counted = _ := Image.stop_firstLineSize h hlink
      rw [hstop, Option.map_none, Option.getD_none] at hread
      rw [hstop, Option.getD_none] at hcounted
      exact ⟨line, hline, by omega, hscan, by simp, fun _ => ⟨by omega, hread⟩⟩
    | some stop =>
      obtain ⟨hcounted, hend⟩ : line.length = counted ∧ _ :=
        length_eq_of_zeroFrom? h hlink hline hstop
      obtain ⟨-, -, hlt, -⟩ := firstIn_eq_some hstop
      refine ⟨line, hline, by omega, hscan, ?_, by simp⟩
      rintro _ ⟨⟩
      exact ⟨hcounted, hend⟩
  · intro keywords findAssignments line last p hfirst hlast hzero
    obtain ⟨linkLow, linkHigh, low, high, rest, rfl, hlink, rfl⟩ := exists_of_head?_scanLines hfirst
    have hcontains : rest.contains Code.endOfLine = true := by
      rw [ending_getLast? hlast] at hzero
      by_contra hnone
      rw [if_neg hnone] at hzero
      cases hzero
    set image : Image := linkLow :: linkHigh :: low :: high :: rest with himage
    have hlength : 0 + 4 ≤ image.length := by simp [himage]
    have hrest : image.drop (0 + 4) = rest := rfl
    have hline : ofImage? image 0 = some (ofRest (word low high) 0 rest) := rfl
    obtain ⟨-, hsome⟩ := zeroFrom?_eq hrest hlength
    obtain ⟨stop, hstop⟩ := Option.isSome_iff_exists.1 (hsome.trans hcontains)
    obtain ⟨hcounted, -⟩ := length_eq_of_zeroFrom? hlength hlink hline hstop
    rw [hcounted]
    exact image.origin_add_firstLineSize (by simp [himage])

/-- A condition that no `THEN` ends, with a quote, a colon and a remark in it, and behind it a line
    that breaks off in a string. -/
def conditionAndString : Image :=
  [0x0B, 0x08, 10, 0, 0xAD, 0x22, 0x3A, 0xB2, 0x41, 0, 0x20, 0x08, 20, 0, 0xBA, 0x22, 0x3A]

theorem Line.length_eq_min_firstLineSize_conditionAndString :
    let image := conditionAndString
    let p := Program.ofImage Keywords.standard true image
    image.wordAt 0 = 0x080B ∧ image.zeroFrom? 4 = some 9 ∧
    (∃ line last, ofImage? image 0 = some line ∧ line.length = 10 ∧ p.lines.head? = some line ∧
      line.statements.getLast? = some last ∧ last.ending = .zero ∧
      p.origin + UInt16.ofNat line.length = 0x080B) ∧
    image.wordAt 10 = 0x0820 ∧ image.zeroFrom? 14 = none ∧
    ∃ line, ofImage? image 10 = some line ∧ line.length = 7 ∧
      Image.firstLineSize (image.drop 10) = 8 := by
  intro image p
  have hlink : image.wordAt 0 = 0x080B := by decide
  have hlink' : image.wordAt 10 = 0x0820 := by decide
  have hzero : image.zeroFrom? 4 = some 9 := by decide +kernel
  have hnone : image.zeroFrom? 14 = none := by decide +kernel
  obtain ⟨hends, horigin⟩ := length_eq_min_firstLineSize image
  obtain ⟨line, hline, -, -, hstop, -⟩ := hends 0 (by decide) (by rw [hlink]; decide)
  obtain ⟨line', hline', -, -, -, hmissing⟩ := hends 10 (by decide) (by rw [hlink']; decide)
  have hfirst : p.lines.head? = some line := by
    rw [← hline]
    decide +kernel
  have hending : (ofImage? image 0).bind (·.statements.getLast?.map Statement.ending) =
      some .zero := by
    decide +kernel
  rw [hline, Option.bind_some, Option.map_eq_some_iff] at hending
  obtain ⟨last, hlast, hlastZero⟩ := hending
  have hlength := (hstop 9 hzero).2
  have hlength' := hmissing hnone
  have hsize : image.length = 17 := rfl
  refine ⟨hlink, hzero, ⟨line, last, hline, by omega, hfirst, hlast, hlastZero, ?_⟩, hlink', hnone,
    line', hline', by omega, by omega⟩
  rw [← hlink]
  exact horigin Keywords.standard true line last hfirst hlast hlastZero

end BasicListing
