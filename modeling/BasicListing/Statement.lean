/-
  Statements: the pieces of a line, and what they tell about the structure
  of the program.

  * `Statement`: a piece of a line, with what ends it.
  * `Statement.head`: the token it is led by, which decides what it does.
  * `Statement.openedVariable?`, `closedVariables?`: the loops it opens and closes.
  * `Statement.branch?`, `target?`: where it branches.
  * `Statement.hidesCode`: whether it is a remark that hides machine code.
  * `Statement.assignmentColumn`, `textAt`: where its `=` stands in its text,
    and its text with the `=` moved to the right.
-/
import BasicListing.Image
import BasicListing.Keyword
import BasicListing.Text.Blank
import BasicListing.Text.Numeral
import BasicListing.Text.Utf8

namespace BasicListing

/-- What stands behind the body of a statement. -/
inductive Ending where
  /-- The colon before the next statement. -/
  | colon
  /-- The zero byte at the end of the line. -/
  | zero
  /-- Nothing: the next statement follows at once, or the image ends. -/
  | absent
  deriving DecidableEq, Repr

namespace Ending

/-- The bytes of an ending. -/
def bytes : Ending → List UInt8
  | .colon => [Code.colon]
  | .zero => [Code.endOfLine]
  | .absent => []

/-- The number of bytes of an ending. -/
def size (e : Ending) : Nat := e.bytes.length

end Ending

/-- A statement, as it stands in the image. -/
structure Statement where
  /-- The offset of its first byte in the image. -/
  offset : Nat
  /-- Its bytes, without those of its ending. -/
  body : List UInt8
  ending : Ending
  /-- It is the first statement of its line. -/
  opensLine : Bool
  deriving DecidableEq, Repr

/-- The ways of branching to a line. -/
inductive Branch where
  | goto
  | gosub
  /-- A line number alone, as behind `THEN`. -/
  | implied
  deriving DecidableEq, Repr

namespace Statement

/-- All bytes of a statement, those of its ending included. -/
def bytes (s : Statement) : List UInt8 := s.body ++ s.ending.bytes

/-- The number of bytes of a statement, its ending included. -/
def size (s : Statement) : Nat := s.body.length + s.ending.size

@[simp] theorem length_bytes (s : Statement) : s.bytes.length = s.size := by
  simp [bytes, size, Ending.size]

/-- A statement without a body. -/
def isEmpty (s : Statement) : Bool := s.body.isEmpty

/-- The token a statement is led by.  An empty statement is led by its ending, and by a zero
    byte if it has none. -/
def head (s : Statement) : Token := Token.ofByte (s.bytes.headD Code.endOfLine)

/-- The statement is led by the given token. -/
def isLedBy (s : Statement) (t : Token) : Bool := s.head == t

/-- The bytes behind the first one. -/
def operand (s : Statement) : List UInt8 := s.body.tail

/-- A remark behind another statement of its line, which can share the row of that statement. -/
def isJoinable (s : Statement) : Bool := s.isLedBy .remark && !s.opensLine

/-! ## Loops -/

/-- The variable of the loop that a `FOR` opens: all that stands before the `=`. -/
def openedVariable? (s : Statement) : Option Text :=
  if s.head = .forLoop then some (lossyText (s.operand.takeWhile (· != Code.equals))) else none

/-- The variables of a `NEXT`; there are none in one that closes the innermost loop. -/
def closedVariables? (s : Statement) : Option (List Text) :=
  if s.head = .nextLoop then
    some (if s.operand.isEmpty then [] else (s.operand.splitOn Code.comma).map lossyText)
  else none

/-! ## Branches -/

/-- How a statement branches, if it does. -/
def branch? (s : Statement) : Option Branch :=
  match s.head with
  | .goto => some .goto
  | .gosub => some .gosub
  | t => if t.isDigit then some .implied else none

/-- The text that names the target of a branch: all of an implied one, and what stands behind the
    token of any other. -/
def targetText (s : Statement) : Branch → Text
  | .implied => lossyText s.body
  | _ => lossyText s.operand

/-- The number of the line that a statement branches to, if its text is the number of a line. -/
def target? (s : Statement) : Option UInt16 :=
  s.branch?.bind fun branch => readWord? 10 (s.targetText branch).trim

/-- The line a statement jumps to, by `GOTO` or by number. -/
def jumpTarget? (s : Statement) : Option UInt16 :=
  if s.branch? = some .gosub then none else s.target?

/-- The line a statement calls by `GOSUB`. -/
def callTarget? (s : Statement) : Option UInt16 :=
  if s.branch? = some .gosub then s.target? else none

/-! ## Remarks -/

/-- A remark that hides machine code: one with a byte above 127 behind its token. -/
def hidesCode (s : Statement) : Bool := s.isLedBy .remark && s.operand.any (· > 127)

/-! ## Text and assignments -/

/-- The text of a statement. -/
def text (table : Keywords) (s : Statement) : Text := table.expand s.body

/-- The column of the first `=` in the text of a statement that has the token `=` behind its
    first byte, and zero if there is none. -/
def equalsColumn (table : Keywords) (s : Statement) : Nat :=
  if s.operand.contains Code.equals && (s.text table).contains '=' then
    Text.width ((s.text table).takeWhile (· != '='))
  else 0

/-- The column of the `=` in the text of an assignment, and zero for anything else.  Assignments
    without `LET` count only if `all` is set. -/
def assignmentColumn (table : Keywords) (all : Bool) (s : Statement) : Nat :=
  match s.head with
  | .letAssign => s.equalsColumn table
  | .plain b => if all && !(Token.plain b).isDigit then s.equalsColumn table else 0
  | _ => 0

/-- The text of a statement with spaces before the `=` of an assignment, so that it stands in
    the given column.  A column to the left of the `=` leaves the text alone. -/
def textAt (table : Keywords) (all : Bool) (s : Statement) (column : Nat) : Text :=
  let assign := s.assignmentColumn table all
  if 0 < assign ∧ assign < column then
    (s.text table).takeWhile (· != '=') ++ Text.spaces (column - assign) ++
      (s.text table).dropWhile (· != '=')
  else s.text table

end Statement

end BasicListing
