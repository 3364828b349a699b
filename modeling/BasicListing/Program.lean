/-
  Decoded programs.

  * `Program.ofImage`: the lines of an image.  It never fails: what cannot be
    read as a line is not part of the program.
  * `Program.statements`, `Program.size`, `Program.ranges`: the statements
    of all lines, where decoding stopped, and which statements are those of a
    line.
  * `Program.targets`: the lines that are branched to.
  * `Program.unreadTargets`: the branches whose target could not be read.
-/
import BasicListing.Line

namespace BasicListing

/-! ## Lines of an image -/

/-- The lines of the bytes from `offset` on, where `previous` is the link of the line before
    them.  There is a line where more than a header is left and the link is greater than the one
    before it. -/
def scanLines (previous : UInt16) (offset : Nat) : List UInt8 → List Line
  | linkLow :: linkHigh :: low :: high :: rest =>
    if rest.isEmpty || word linkLow linkHigh ≤ previous then []
    else
      let line := Line.ofRest (word low high) offset rest
      line :: scanLines (word linkLow linkHigh) (offset + line.length) (rest.drop line.bodySize)
  | _ => []
termination_by bytes => bytes.length
decreasing_by
  simp only [List.length_drop, List.length_cons]
  omega

/-! ## Programs -/

/-- A decoded program, with what is needed to read its statements. -/
structure Program where
  image : Image
  keywords : Keywords
  /-- Look for assignments also in statements without `LET`. -/
  findAssignments : Bool
  /-- The address at which the image was loaded. -/
  origin : UInt16
  lines : List Line

/-- The lines that are branched to, in the order of the branches. -/
structure Targets where
  jumps : List UInt16
  calls : List UInt16

namespace Targets

/-- Some `GOTO` or implied branch goes to the line. -/
def isJumpedTo (targets : Targets) (number : UInt16) : Bool := targets.jumps.contains number

/-- Some `GOSUB` calls the line. -/
def isCalled (targets : Targets) (number : UInt16) : Bool := targets.calls.contains number

end Targets

/-- A branch whose target is not the number of a line. -/
structure UnreadTarget where
  branch : Branch
  text : Text
  line : UInt16
  deriving DecidableEq, Repr

namespace UnreadTarget

/-- The words that report a target that could not be read. -/
def message (w : UnreadTarget) : Text :=
  let keyword := match w.branch with
    | .goto => "GOTO "
    | .gosub => "GOSUB "
    | .implied => ""
  "error parsing ".toList ++ keyword.toList ++ w.text ++ " in line ".toList ++
    decimal w.line.toNat

end UnreadTarget

/-- The report on a statement of the given line that branches to no line. -/
def Statement.unreadTarget? (line : UInt16) (s : Statement) : Option UnreadTarget :=
  match s.branch?, s.target? with
  | some branch, none => some ⟨branch, s.targetText branch, line⟩
  | _, _ => none

namespace Program

/-- The program in an image. -/
def ofImage (keywords : Keywords) (findAssignments : Bool) (image : Image) : Program where
  image
  keywords
  findAssignments
  origin := image.origin
  lines := scanLines 0 0 image

/-- The statements of all lines, in order. -/
def statements (p : Program) : List Statement := p.lines.flatMap Line.statements

/-- The offset at which decoding stopped.  Nothing behind it belongs to the program. -/
def size (p : Program) : Nat := total (p.lines.map Line.length)

/-- The address of the byte at some offset in the image. -/
def addressOf (p : Program) (offset : Nat) : UInt16 := p.origin + UInt16.ofNat offset

/-- For each of some lines, how many statements stand before its first and before its end, where
    `before` of them stand before all of these lines. -/
def rangesFrom (before : Nat) : List Line → List (Nat × Nat)
  | [] => []
  | line :: rest =>
    let after := before + line.statements.length
    (before, after) :: rangesFrom after rest

/-- The place of each line's statements among those of the program. -/
def ranges (p : Program) : List (Nat × Nat) := rangesFrom 0 p.lines

/-- The lines that are branched to. -/
def targets (p : Program) : Targets where
  jumps := p.statements.filterMap Statement.jumpTarget?
  calls := p.statements.filterMap Statement.callTarget?

/-- The branches whose target could not be read, in order. -/
def unreadTargets (p : Program) : List UnreadTarget :=
  p.lines.flatMap fun line => line.statements.filterMap (Statement.unreadTarget? line.number)

/-- The text of a statement. -/
def text (p : Program) (s : Statement) : Text := s.text p.keywords

/-- The column of the `=` of an assignment in its text, and zero for anything else. -/
def assignmentColumn (p : Program) (s : Statement) : Nat :=
  s.assignmentColumn p.keywords p.findAssignments

/-- The text of a statement with the `=` of an assignment moved right to `column`. -/
def textAt (p : Program) (s : Statement) (column : Nat) : Text :=
  s.textAt p.keywords p.findAssignments column

end Program

end BasicListing
