/-
  What is left of a program when its image is cut off.

  * `Line.bodySize_ofRest`: where a line ends, if its image goes on so far.
  * `Truncates`: how the lines of an image that ends early stand to those of
    the whole image.  Lines before the cut stay as they are, and none behind
    it is left.
  * `truncates_scanLines`: decoding leaves just these, wherever the cut falls.
  * `Program.ofImage_take`: what this means for a program and its size.
-/
import BasicListing.Proofs.RoundTrip

namespace BasicListing

/-! ## Where there is no line -/

theorem scanLines_eq_nil_iff {previous : UInt16} (offset : Nat) {bytes : List UInt8} :
    scanLines previous offset bytes = [] ↔ Image.EndsAt bytes previous 0 := by
  rcases bytes with _ | ⟨a, _ | ⟨b, _ | ⟨c, _ | ⟨d, rest⟩⟩⟩⟩
  case cons.cons.cons.cons =>
    rw [scanLines, Image.EndsAt, Image.wordAt_eq (List.drop_zero)]
    cases rest with
    | nil => simp
    | cons e rest =>
      have hlong : ¬ (a :: b :: c :: d :: e :: rest).length < 0 + 5 := by
        simp only [List.length_cons]
        omega
      rw [or_iff_right hlong]
      simp
  all_goals simp [scanLines, Image.EndsAt]

theorem Image.EndsAt.take {bytes : Image} {previous : UInt16} (h : bytes.EndsAt previous 0)
    (n : Nat) : Image.EndsAt (bytes.take n) previous 0 := by
  by_cases hshort : bytes.length < 5 ∨ n < 5
  · left
    rw [List.length_take]
    omega
  · right
    obtain ⟨hlong, hn⟩ := not_or.1 hshort
    have hlink := h.resolve_left (by omega)
    have hget : ∀ i < 2, (bytes.take n)[i]? = bytes[i]? :=
      fun i hi => List.getElem?_take_of_lt (by omega)
    rw [wordAt, List.getD_eq_getElem?_getD, List.getD_eq_getElem?_getD] at hlink ⊢
    rwa [hget 0 (by omega), hget 1 (by omega)]

/-! ## Lines in part of an image -/

/-- A line ends at the first zero byte behind its header, and at the end of the image if there is
    none. -/
theorem Line.bodySize_ofRest (number : UInt16) (offset : Nat) (rest : List UInt8) :
    (ofRest number offset rest).bodySize =
      min ((rest.takeWhile (· != Code.endOfLine)).length + 1) rest.length := by
  obtain ⟨ending, tail, hending, hsplit, hcolon, htail, -⟩ := exists_behind_body rest
  set body := rest.takeWhile (· != Code.endOfLine)
  have hstatements : (ofRest number offset rest).statements =
      splitBody (offset + headerSize) body ending := by
    rw [ofRest, hending]
  have hsize : (ofRest number offset rest).bodySize = body.length + ending.size := by
    have hstop := (splitBody_makeUp (offset + headerSize) body ending).tiles.stop_eq
    rw [bodySize, hstatements]
    omega
  have hlength : rest.length = body.length + ending.size + tail.length := by
    conv_lhs => rw [hsplit]
    rw [List.length_append, List.length_append]
    rfl
  rw [hsize, hlength]
  cases ending with
  | colon => exact absurd rfl hcolon
  | zero =>
    have hone : Ending.zero.size = 1 := rfl
    omega
  | absent =>
    have hzero : Ending.absent.size = 0 := rfl
    rw [htail rfl, List.length_nil]
    omega

/-- A line that ends before the cut is read as if there were none. -/
theorem Line.ofRest_take_of_le {number : UInt16} {offset n : Nat} {rest : List UInt8}
    (h : (ofRest number offset rest).bodySize ≤ n) :
    ofRest number offset (rest.take n) = ofRest number offset rest := by
  rw [bodySize_ofRest] at h
  by_cases hzero : Code.endOfLine ∈ rest
  · obtain ⟨body, tail, rfl, hbody⟩ := List.eq_append_cons_of_mem hzero
    rw [takeWhile_bne_append hbody, List.length_append, List.length_cons] at h
    obtain ⟨k, rfl⟩ := Nat.exists_eq_add_of_le (by omega : body.length + 1 ≤ n)
    have htake : (body ++ Code.endOfLine :: tail).take (body.length + 1 + k) =
        body ++ Code.endOfLine :: tail.take k := by
      rw [List.take_append, List.take_of_length_le (by omega),
        show body.length + 1 + k - body.length = k + 1 by omega, List.take_succ_cons]
    rw [htake]
    simp [ofRest, takeWhile_bne_append hbody]
  · have hall : rest.takeWhile (· != Code.endOfLine) = rest :=
      List.takeWhile_eq_self_iff.2 fun b hb => by
        simpa using fun heq : b = Code.endOfLine => hzero (heq ▸ hb)
    rw [hall] at h
    rw [List.take_of_length_le (by omega)]

/-- A line that goes on beyond the cut takes all that is left. -/
theorem Line.bodySize_ofRest_take {number : UInt16} {offset n : Nat} {rest : List UInt8}
    (h : n < (ofRest number offset rest).bodySize) :
    (ofRest number offset (rest.take n)).bodySize = n := by
  rw [bodySize_ofRest, Nat.lt_min] at h
  have htake : rest.take n = (rest.takeWhile (· != Code.endOfLine)).take n := by
    conv_lhs => rw [← List.takeWhile_append_dropWhile (p := (· != Code.endOfLine)) (l := rest)]
    exact List.take_append_of_le_length (by omega)
  have hall : (rest.take n).takeWhile (· != Code.endOfLine) = rest.take n := by
    rw [List.takeWhile_eq_self_iff, htake]
    intro b hb
    exact List.mem_takeWhile_imp (p := (· != Code.endOfLine)) (List.mem_of_mem_take hb)
  rw [bodySize_ofRest, hall, List.length_take]
  omega

section
variable {previous : UInt16} {linkLow linkHigh : UInt8} {rest : List UInt8}

theorem scanLines_keep (hrest : rest ≠ []) (hlink : ¬ word linkLow linkHigh ≤ previous)
    (offset : Nat) (low high : UInt8) {line : Line}
    (hline : Line.ofRest (word low high) offset rest = line) (n : Nat) :
    scanLines previous offset
        ((linkLow :: linkHigh :: low :: high :: rest).take (line.length + n)) =
      line :: scanLines (word linkLow linkHigh) (offset + line.length)
        ((rest.drop line.bodySize).take n) := by
  have htake : (linkLow :: linkHigh :: low :: high :: rest).take (line.length + n) =
      linkLow :: linkHigh :: low :: high :: rest.take (line.bodySize + n) := by
    rw [Line.length, show headerSize + line.bodySize + n = line.bodySize + n + 4 by
      simp only [headerSize]; omega]
    rfl
  have hpos : 0 < line.bodySize := by
    have := List.length_pos_iff.2 hrest
    rw [← hline, Line.bodySize_ofRest]
    omega
  have hne : rest.take (line.bodySize + n) ≠ [] := by
    simp [hrest, hpos.ne']
  have hline' : Line.ofRest (word low high) offset (rest.take (line.bodySize + n)) = line := by
    rw [Line.ofRest_take_of_le (hline ▸ Nat.le_add_right _ _), hline]
  rw [htake, scanLines_line hne hlink offset low high hline', List.drop_take,
    Nat.add_sub_cancel_left]

theorem scanLines_tear (hrest : rest ≠ []) (hlink : ¬ word linkLow linkHigh ≤ previous)
    (offset : Nat) (low high : UInt8) {n : Nat} (hn : n ≠ 0)
    (hcut : n < (Line.ofRest (word low high) offset rest).bodySize) :
    scanLines previous offset
        ((linkLow :: linkHigh :: low :: high :: rest).take (headerSize + n)) =
      [Line.ofRest (word low high) offset (rest.take n)] := by
  have htake : (linkLow :: linkHigh :: low :: high :: rest).take (headerSize + n) =
      linkLow :: linkHigh :: low :: high :: rest.take n := by
    rw [Nat.add_comm]
    rfl
  have hne : rest.take n ≠ [] := by simp [hrest, hn]
  rw [htake, scanLines_line hne hlink offset low high rfl, Line.bodySize_ofRest_take hcut]
  congr 1
  rw [scanLines_eq_nil_iff]
  exact .inl (by simp)

end

/-! ## Lines of an image that ends early -/

/-- The second lines are left of the first ones if the image ends at `stop`.  A line that goes on
    beyond it is the last one; what stands of it before `stop` is left, if that is more than its
    header. -/
inductive Truncates (stop : Nat) : List Line → List Line → Prop
  | nil : Truncates stop [] []
  | keep {line : Line} {lines left : List Line} : line.offset + line.length ≤ stop →
      Truncates stop lines left → Truncates stop (line :: lines) (line :: left)
  | tear {line torn : Line} {lines : List Line} : stop < line.offset + line.length →
      line.offset + headerSize < stop → torn.number = line.number → torn.offset = line.offset →
      torn.offset + torn.length = stop → Truncates stop (line :: lines) [torn]
  | drop {line : Line} {lines : List Line} : stop < line.offset + line.length →
      stop ≤ line.offset + headerSize → Truncates stop (line :: lines) []

/-- **A cut damages only the line it falls into**, wherever it falls. -/
theorem truncates_scanLines (previous : UInt16) (offset : Nat) (bytes : List UInt8) (n : Nat) :
    Truncates (offset + n) (scanLines previous offset bytes)
      (scanLines previous offset (bytes.take n)) := by
  have hnil : ∀ {previous : UInt16} {offset n : Nat} {bytes : List UInt8},
      Image.EndsAt bytes previous 0 →
        Truncates (offset + n) [] (scanLines previous offset (bytes.take n)) := by
    intro previous offset n bytes h
    rw [(scanLines_eq_nil_iff offset).2 (h.take n)]
    exact .nil
  fun_induction scanLines previous offset bytes generalizing n with
  | case1 previous offset linkLow linkHigh low high rest hstop =>
    refine hnil ((scanLines_eq_nil_iff offset).1 ?_)
    rw [scanLines, if_pos hstop]
  | case2 previous offset linkLow linkHigh low high rest hgo line ih =>
    have hgo' : rest ≠ [] ∧ ¬ word linkLow linkHigh ≤ previous := by simpa using hgo
    have hlength : line.length = headerSize + line.bodySize := rfl
    have hoffset : line.offset = offset := rfl
    rcases Nat.lt_or_ge n line.length with hcut | hkeep
    · rcases Nat.lt_or_ge headerSize n with hn | hn
      · obtain ⟨k, rfl⟩ := Nat.exists_eq_add_of_le hn.le
        have hbody : k < line.bodySize := by omega
        rw [scanLines_tear hgo'.1 hgo'.2 offset low high (by omega) hbody]
        refine .tear (by omega) (by omega) rfl rfl ?_
        change offset + (headerSize + Line.bodySize _) = _
        rw [Line.bodySize_ofRest_take hbody]
      · have hend : scanLines previous offset
            ((linkLow :: linkHigh :: low :: high :: rest).take n) = [] := by
          rw [scanLines_eq_nil_iff]
          refine .inl ?_
          simp only [headerSize] at hn
          rw [List.length_take]
          omega
        rw [hend]
        exact .drop (by omega) (by omega)
    · obtain ⟨k, rfl⟩ := Nat.exists_eq_add_of_le hkeep
      rw [scanLines_keep hgo'.1 hgo'.2 offset low high rfl]
      refine .keep (by omega) ?_
      rw [← Nat.add_assoc]
      exact ih k
  | case3 previous offset bytes hshort =>
    refine hnil ((scanLines_eq_nil_iff offset).1 ?_)
    rw [scanLines]
    exact hshort

/-- The lines that end at `stop` or before it. -/
def linesBefore (stop : Nat) (lines : List Line) : List Line :=
  lines.filter fun line => line.offset + line.length ≤ stop

theorem linesBefore_eq_nil {stop start last : Nat} {line : Line} {lines : List Line}
    (htiles : Tiles Line.offset Line.length start (line :: lines) last)
    (hline : stop < line.offset + line.length) : linesBefore stop (line :: lines) = [] := by
  rw [linesBefore, List.filter_eq_nil_iff]
  intro l hl
  rcases List.mem_cons.1 hl with rfl | hl
  · simpa using hline
  · have hoffset := htiles.1
    have hstart := (htiles.2.bounds hl).1
    simp only [decide_eq_true_eq]
    omega

/-- The line behind those that end before the cut is the one that is torn, or gone. -/
theorem Truncates.exists_torn {stop start last : Nat} {lines left : List Line}
    (h : Truncates stop lines left) (htiles : Tiles Line.offset Line.length start lines last) :
    ∃ torn : Option Line, left = linesBefore stop lines ++ torn.toList ∧
      linesBefore stop lines <+: lines ∧
      (torn.isSome ↔ ∃ line, lines[(linesBefore stop lines).length]? = some line ∧
        line.offset + headerSize < stop) ∧
      ∀ t ∈ torn, ∃ line, lines[(linesBefore stop lines).length]? = some line ∧
        t.number = line.number ∧ t.offset = line.offset ∧ t.offset + t.length = stop := by
  induction h generalizing start with
  | nil => exact ⟨none, by simp [linesBefore]⟩
  | @keep line lines left hline _ ih =>
    obtain ⟨torn, hleft, hwhole, hiff, htorn⟩ := ih htiles.2
    have hcons : linesBefore stop (line :: lines) = line :: linesBefore stop lines := by
      rw [linesBefore, List.filter_cons_of_pos (by simpa using hline), linesBefore]
    rw [hcons, List.length_cons, List.getElem?_cons_succ]
    exact ⟨torn, by rw [hleft, List.cons_append], (List.prefix_cons_inj _).2 hwhole, hiff, htorn⟩
  | @tear line torn lines hline hheader hnumber hoffset hstop =>
    rw [linesBefore_eq_nil htiles hline]
    refine ⟨some torn, rfl, List.nil_prefix, by simpa using hheader, ?_⟩
    rintro t ⟨⟩
    exact ⟨line, rfl, hnumber, hoffset, hstop⟩
  | @drop line lines hline hheader =>
    rw [linesBefore_eq_nil htiles hline]
    exact ⟨none, rfl, List.nil_prefix, by simpa using hheader, by simp⟩

theorem Tiles.stop_eq_last {α : Type} {offset size : α → Nat} {start stop : Nat} {xs : List α}
    (h : Tiles offset size start xs stop) :
    stop = (xs.getLast?.map fun x => offset x + size x).getD start := by
  induction xs generalizing start with
  | nil => exact h.symm
  | cons x xs ih =>
    rw [ih h.2, ← h.1]
    cases xs with
    | nil => rfl
    | cons y ys =>
      rw [List.getLast?_cons_cons, List.getLast?_cons]
      rfl

/-- **A program whose image is cut off keeps all lines before the cut.**

    Of the line that the cut falls into, if there is one, a part is left that has its number and
    takes all that is left of the image.  This takes a byte behind the header of the line; if the
    header is cut too, nothing is left of it. -/
theorem Program.ofImage_take (keywords : Keywords) (findAssignments : Bool) (image : Image)
    (n : Nat) :
    let p := Program.ofImage keywords findAssignments image
    let cut := Program.ofImage keywords findAssignments (image.take n)
    let whole := p.lines.filter fun line => line.offset + line.length ≤ n
    ∃ torn : Option Line, cut.lines = whole ++ torn.toList ∧ whole <+: p.lines ∧
      (torn.isSome ↔ ∃ line, p.lines[whole.length]? = some line ∧ line.offset + 4 < n) ∧
      (∀ t ∈ torn, ∃ line, p.lines[whole.length]? = some line ∧ t.number = line.number ∧
        t.offset = line.offset ∧ t.offset + t.length = n ∧ cut.size = n) ∧
      (torn = none → cut.size =
        (whole.getLast?.map fun line => line.offset + line.length).getD 0) := by
  intro p cut whole
  have htruncates : Truncates n p.lines cut.lines := by
    have := truncates_scanLines 0 0 image n
    rwa [Nat.zero_add] at this
  obtain ⟨torn, hleft, hwhole, hiff, htorn⟩ :=
    htruncates.exists_torn (scanLines_decodes image 0 0).tiles
  have hsize : cut.size =
      (cut.lines.getLast?.map fun line => line.offset + line.length).getD 0 := by
    have := (scanLines_decodes (image.take n) 0 0).tiles.stop_eq_last
    rwa [Nat.zero_add] at this
  refine ⟨torn, hleft, hwhole, hiff, ?_, ?_⟩
  · intro t ht
    obtain ⟨line, hline, hnumber, hoffset, hstop⟩ := htorn t ht
    refine ⟨line, hline, hnumber, hoffset, hstop, ?_⟩
    obtain rfl : torn = some t := ht
    rw [hsize, hleft]
    simpa using hstop
  · rintro rfl
    rw [hsize, hleft]
    simp [whole, linesBefore]

end BasicListing
