/-
  The rows of a listing.

  A statement's row begins with the gutter or, further down in its line, with
  nothing; then come a mark if it branches, spaces up to its indentation, and
  its text.  Code that a remark hides is shown below a row that says where it
  stands.
-/
import BasicListing.Listing.Layout
import BasicListing.Listing.Wrap
import BasicListing.Machine.Disassembly

namespace BasicListing

/-- Some code that could not be disassembled. -/
structure UnreadCode where
  address : UInt16
  fault : CodeFault
  deriving DecidableEq, Repr

/-- The words that report code that could not be disassembled. -/
def UnreadCode.message (w : UnreadCode) : Text :=
  "could not disassemble REM at $".toList ++ hexWord w.address ++ ": ".toList ++ w.fault.message

namespace Program

/-- The address of the code that a remark hides: it stands behind the token. -/
def codeAddress (p : Program) (s : Statement) : UInt16 := p.addressOf s.offset + 1

/-- The rows of the code that a remark hides, or why there are none. -/
def codeOf (p : Program) (disassembler : Disassembler) (s : Statement) :
    Except CodeFault (List Text) :=
  disassembler (p.codeAddress s) s.operand

/-- The reports on hidden code that could not be disassembled, in order. -/
def unreadCode (p : Program) (disassembler : Disassembler) : List UnreadCode :=
  (p.statements.filter Statement.hidesCode).filterMap fun s =>
    match p.codeOf disassembler s with
    | .ok _ => none
    | .error fault => some ⟨p.codeAddress s, fault⟩

/-- The rows of a remark that hides code: one that says where the code stands, and below it the
    code, two columns to the right of what the first row begins with. -/
def codeRows (p : Program) (disassembler : Disassembler) (start : Text) (s : Statement) :
    List Text :=
  let address := p.codeAddress s
  let code := match p.codeOf disassembler s with
    | .ok rows => rows
    | .error _ => ["<machine code could not be disassembled>".toList]
  (start ++ "REM - Inline assembler @ $".toList ++ hexWord address ++ " (".toList ++
    decimal address.toNat ++ ")".toList) ::
    code.map (Text.spaces (start.width + 2) ++ ·)

end Program

/-- The column of a row at which text that is not indented begins. -/
def Settings.textColumn (settings : Settings) : Nat := if settings.showBranchTargets then 12 else 8

/-- The mark before a statement that branches from inside its line. -/
def branchMark (settings : Settings) (s : Statement) : Text :=
  if settings.showBranchTargets && !s.opensLine then
    match s.branch? with
    | some .gosub => "<<--".toList
    | some _ => " <--".toList
    | none => []
  else []

namespace Program

/-- The row of a statement, before it is broken.  A remark has no `=` to move. -/
def rowText (p : Program) (settings : Settings) (start : Text) (indent column : Nat)
    (s : Statement) : Text :=
  Text.padTo (2 * indent + settings.textColumn) (start ++ branchMark settings s) ++
    p.textAt s (if s.isLedBy .remark then 0 else column)

/-- Write what stands at a place below the rows written so far, which are given last first.
    `none` if a row would have to be broken inside a character. -/
def write? (p : Program) (settings : Settings) (disassembler : Disassembler) (rows : List Text) :
    Placement → Option (List Text)
  | .bare start => some (start.trimEnd :: rows)
  | .code start s => some ((p.codeRows disassembler start s).reverseAux rows)
  | .joined s =>
    match rows with
    | row :: above => some ((row ++ ' ' :: p.text s) :: above)
    | [] => some [' ' :: p.text s]
  | .row start indent column s =>
    let row := p.rowText settings start indent column s
    if s.isLedBy .print then
      (wrapRow? settings.printWidth row).map (·.reverseAux rows)
    else some (row :: rows)

/-- The rows of the listing of a program, without the header. -/
def rows? (p : Program) (settings : Settings) (disassembler : Disassembler) :
    Option (List Text) :=
  ((p.layout settings).foldlM (p.write? settings disassembler) []).map List.reverse

end Program

end BasicListing
