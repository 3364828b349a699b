/-
  Bytes behind a program do not show.

  * `scanLines_trailing`: the lines before two zero bytes are read in the same
    way whatever follows these.
  * `Image.origin_append`: the load address does not depend on it either.
  * `Program.ofImage_trailing`: so the program is the same, but for its image.
  * `Printer.trailing_bytes_do_not_show`: a listing tells only by its header how
    long the image is.
-/
import BasicListing.Printer
import BasicListing.Proofs.Truncation

namespace BasicListing

/-! ## Programs and what follows them -/

section
variable {program : List UInt8}

/-- Lines that end at two zero bytes are read whatever follows these. -/
theorem scanLines_trailing
    (hend : total ((scanLines 0 0 (program ++ [0, 0])).map Line.length) = program.length)
    (tail : List UInt8) :
    scanLines 0 0 (program ++ [0, 0] ++ tail) = scanLines 0 0 (program ++ [0, 0]) := by
  set image : Image := program ++ [0, 0] ++ tail with himage
  have hdecodes := scanLines_decodes image 0 0
  have htruncates := truncates_scanLines 0 0 image (program.length + 2)
  rw [Nat.zero_add, himage, List.take_left' (by simp), ← himage] at htruncates
  obtain ⟨torn, hleft, hbefore, -, htorn⟩ := htruncates.exists_torn hdecodes.tiles
  have hlast := (scanLines_decodes (program ++ [0, 0]) 0 0).tiles.stop_eq_last
  rw [Nat.zero_add, List.drop_zero, hend] at hlast
  -- A line that is cut would take the two zero bytes.
  cases torn with
  | some t =>
    obtain ⟨line, -, -, -, hstop⟩ := htorn t rfl
    rw [hleft, Option.toList_some, List.getLast?_concat, Option.map_some, Option.getD_some,
      hstop] at hlast
    omega
  | none =>
    rw [Option.toList_none, List.append_nil] at hleft
    rw [← hleft] at hbefore
    -- There is no line at the two zero bytes, since a link of zero is not greater than any other.
    have hdrop : image.drop program.length = 0 :: 0 :: tail := by
      rw [himage, List.append_assoc, List.drop_left]
      rfl
    have hstop : ∀ previous : UInt16, image.EndsAt previous program.length := by
      intro previous
      refine .inr ?_
      rw [Image.wordAt_eq hdrop]
      exact UInt16.le_iff_toNat_le.2 (Nat.zero_le _)
    refine (hbefore.eq_of_length ((hdecodes.endsAt_iff hbefore.length_le).1 ?_)).symm
    rw [List.drop_zero, ← List.prefix_iff_eq_take.1 hbefore, hend, Nat.zero_add]
    exact hstop _

/-- The load address depends on nothing behind the first line. -/
theorem Image.origin_append {image : Image} (hzero : Code.endOfLine ∈ image.drop headerSize)
    (tail : List UInt8) : Image.origin (image ++ tail) = image.origin := by
  rcases image with _ | ⟨a, _ | ⟨b, _ | ⟨c, _ | ⟨d, rest⟩⟩⟩⟩
  case cons.cons.cons.cons =>
    obtain ⟨body, behind, rfl, hbody⟩ :=
      List.eq_append_cons_of_mem (show Code.endOfLine ∈ rest from hzero)
    simp [origin, firstLineSize, takeWhile_bne_append hbody]
  all_goals exact absurd hzero (by simp [headerSize])

theorem Image.origin_trailing
    (hend : total ((scanLines 0 0 (program ++ [0, 0])).map Line.length) = program.length)
    (tail : List UInt8) :
    Image.origin (program ++ [0, 0] ++ tail) = Image.origin (program ++ [0, 0]) := by
  have hstands := (scanLines_decodes (program ++ [0, 0]) 0 0).standsIn
  rw [List.drop_zero] at hstands
  cases hlines : scanLines 0 0 (program ++ [0, 0]) with
  | nil =>
    rw [hlines] at hend
    obtain rfl := List.eq_nil_of_length_eq_zero hend.symm
    rfl
  | cons line lines =>
    have hfive := (hstands line (by simp [hlines])).five_le
    rw [hlines, List.map_cons, total_cons] at hend
    refine Image.origin_append ?_ tail
    rw [List.drop_append_of_le_length (by simp only [headerSize]; omega)]
    simp [Code.endOfLine]

/-- **What follows a program is not part of it**: only the image tells that there is more. -/
theorem Program.ofImage_trailing {keywords : Keywords} {findAssignments : Bool}
    (hend : (ofImage keywords findAssignments (program ++ [0, 0])).size = program.length)
    (tail : List UInt8) :
    ofImage keywords findAssignments (program ++ [0, 0] ++ tail) =
      { ofImage keywords findAssignments (program ++ [0, 0]) with
        image := program ++ [0, 0] ++ tail } := by
  rw [ofImage, scanLines_trailing hend, Image.origin_trailing hend]
  rfl

end

/-! ## Listings -/

theorem Program.rows?_image (p : Program) (image : Image) (settings : Settings)
    (disassembler : Disassembler) :
    rows? { p with image } settings disassembler = p.rows? settings disassembler := rfl

/-- The row of the header that tells the length of the image. -/
def lengthRow (image : Image) : Text :=
  "Length  : $".toList ++ hexLength image.length ++ " (".toList ++ decimal image.length ++
    ")".toList

/-- The row of the header that tells the load address of the image. -/
def loadRow (origin : UInt16) : Text :=
  "Load at : $".toList ++ hexWord origin ++ " (".toList ++ decimal origin.toNat ++ ")".toList

theorem Printer.listing?_of_showHeader {printer : Printer}
    (h : printer.settings.showHeader = true) (name : Text) (image : Image) :
    printer.listing? name image =
      ((printer.program image).rows? printer.settings printer.disassembler).map fun rows =>
        "Name    : ".toList ++ name ++ '\n' :: lengthRow image ++
          '\n' :: Text.ofRows (loadRow image.origin :: [] :: rows) := by
  rw [listing?, header, if_pos h]
  congr 1
  funext rows
  change Text.ofRows (("Name    : ".toList ++ name) :: lengthRow image ::
    loadRow image.origin :: [] :: rows) = _
  rw [Text.ofRows, List.intercalate_cons_cons, List.intercalate_cons_cons]
  simp [Text.ofRows]

/-- **Bytes behind a program do not show.**

    Two zero bytes end a program.  Whatever follows them, the program is the same, so are the
    warnings about it, and so is its listing but for the row that tells the length of the image. -/
theorem Printer.trailing_bytes_do_not_show (printer : Printer) (name : Text)
    (program tail : List UInt8)
    (hend : (printer.program (program ++ [0, 0])).size = program.length) :
    let bare := program ++ [0, 0]
    let image := program ++ [0, 0] ++ tail
    let p := printer.program bare
    let q := printer.program image
    q.lines = p.lines ∧ q.statements = p.statements ∧
    q.statements.map q.assignmentColumn = p.statements.map p.assignmentColumn ∧
    q.targets = p.targets ∧ q.size = p.size ∧ q.origin = p.origin ∧
    printer.targetWarnings image = printer.targetWarnings bare ∧
    (printer.settings.showHeader = false →
      printer.listing? name image = printer.listing? name bare) ∧
    (printer.settings.showHeader = true → ∃ (above : Text) (below : Option Text),
      printer.listing? name bare = below.map (above ++ '\n' :: lengthRow bare ++ '\n' :: ·) ∧
      printer.listing? name image =
        below.map (above ++ '\n' :: lengthRow image ++ '\n' :: ·)) := by
  intro bare image p q
  have hq : q = { p with image } := Program.ofImage_trailing hend tail
  have horigin : Image.origin image = Image.origin bare := congrArg Program.origin hq
  have hrows : q.rows? printer.settings printer.disassembler =
      p.rows? printer.settings printer.disassembler := by
    rw [hq]
    exact p.rows?_image image _ _
  refine ⟨by rw [hq], by rw [hq]; rfl, by rw [hq]; rfl, by rw [hq]; rfl, by rw [hq]; rfl,
    by rw [hq], ?_, ?_, ?_⟩
  · change q.unreadTargets.map Warning.unreadTarget = _
    rw [hq]
    rfl
  · intro hheader
    have hnone : ∀ image, printer.header name image = [] :=
      fun image => if_neg (by simp [hheader])
    rw [listing?, listing?, hnone, hnone, hrows]
  · intro hheader
    refine ⟨"Name    : ".toList ++ name,
      (p.rows? printer.settings printer.disassembler).map fun rows =>
        Text.ofRows (loadRow (Image.origin bare) :: [] :: rows), ?_, ?_⟩
    · rw [listing?_of_showHeader hheader, Option.map_map]
      rfl
    · rw [listing?_of_showHeader hheader, hrows, horigin, Option.map_map]
      rfl

/-- A line that branches to itself. -/
def endlessLine : List UInt8 := [0x09, 0x08, 10, 0, 0xAB, 0x31, 0x30, 0]

/-- A line that is left over from a longer program. -/
def leftOverLine : List UInt8 := [0x20, 0x08, 20, 0, 0xBA, 0x22, 0x41, 0x22, 0]

theorem Printer.trailing_bytes_do_not_show_leftOverLine :
    let printer : Printer := { settings := { showHeader := false } }
    let bare := endlessLine ++ [0, 0]
    let image := endlessLine ++ [0, 0] ++ leftOverLine
    (printer.program bare).size = endlessLine.length ∧
      (printer.program image).lines = (printer.program bare).lines ∧
      (printer.program image).lines.length = 1 ∧
      printer.listing? [] image = printer.listing? [] bare := by
  intro printer bare image
  have hend : (printer.program bare).size = endlessLine.length := by decide +kernel
  obtain ⟨hlines, -, -, -, -, -, -, hlisting, -⟩ :=
    trailing_bytes_do_not_show printer [] endlessLine leftOverLine hend
  exact ⟨hend, hlines, by decide +kernel, hlisting rfl⟩

end BasicListing
