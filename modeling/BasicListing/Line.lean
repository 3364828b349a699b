/-
  Lines, and how a line falls into statements.

  A line ends at the first zero byte behind its header, wherever that stands.
  Its body is read byte by byte:

  * a colon ends a statement, unless it stands in a string or in a remark;
  * a quote begins or ends a string, unless it stands in a remark;
  * `REM` outside a string begins a remark, which runs to the end of the line;
  * `IF` outside a string begins a condition.  It runs to the next `THEN`,
    which still belongs to it, or to just before the next `GOTO`; the
    statement ends there, and quotes and colons in between mean nothing.
-/
import BasicListing.Statement

namespace BasicListing

/-! ## Statements of a body -/

/-- What the bytes of a body mean at some place in it. -/
inductive Context where
  | plain
  | string
  | remark
  | condition
  deriving DecidableEq, Repr

/-- The state of reading a body. -/
structure Splitter where
  context : Context := .plain
  /-- The offset of the statement that is being read. -/
  start : Nat
  /-- The bytes of that statement, last first. -/
  current : List UInt8 := []
  /-- The statements before it, last first. -/
  done : List Statement := []

namespace Splitter

/-- Take a byte into the current statement, and go on in the given context. -/
def take (s : Splitter) (b : UInt8) (context : Context) : Splitter :=
  { s with context, current := b :: s.current }

/-- End the current statement. -/
def close (s : Splitter) (ending : Ending) : Splitter :=
  { start := s.start + s.current.length + ending.size
    done := ⟨s.start, s.current.reverse, ending, s.done.isEmpty⟩ :: s.done }

/-- Read one byte. -/
def step (s : Splitter) (b : UInt8) : Splitter :=
  match s.context with
  | .plain =>
    if b = Code.colon then s.close .colon
    else if b = Code.quote then s.take b .string
    else if b = Code.remark then s.take b .remark
    else if b = Code.ifCondition then s.take b .condition
    else s.take b .plain
  | .string => s.take b (if b = Code.quote then .plain else .string)
  | .remark => s.take b .remark
  | .condition =>
    if b = Code.thenClause then (s.take b .plain).close .absent
    else if b = Code.goto then (s.close .absent).take b .plain
    else s.take b .condition

/-- End the last statement.  A condition that has not ended is a statement of its own, and an
    empty one is left for the end of the line. -/
def finish (s : Splitter) (ending : Ending) : List Statement :=
  let last := if s.context = .condition then s.close .absent else s
  (last.close ending).done.reverse

end Splitter

/-- The statements of a body that stands at `offset` in the image and ends in `ending`. -/
def splitBody (offset : Nat) (body : List UInt8) (ending : Ending) : List Statement :=
  (body.foldl Splitter.step { start := offset }).finish ending

/-! ## Lines -/

/-- A line of a program. -/
structure Line where
  number : UInt16
  /-- The offset of its link in the image. -/
  offset : Nat
  statements : List Statement
  deriving DecidableEq, Repr

namespace Line

/-- The number of bytes behind the header of a line: those of its statements and their
    endings. -/
def bodySize (line : Line) : Nat := total (line.statements.map Statement.size)

/-- The number of bytes of a line. -/
def length (line : Line) : Nat := headerSize + line.bodySize

/-- The line at `offset` with the given number, where `rest` is all of the image behind its
    header. -/
def ofRest (number : UInt16) (offset : Nat) (rest : List UInt8) : Line where
  number
  offset
  statements := splitBody (offset + headerSize) (rest.takeWhile (· != Code.endOfLine))
    (if rest.contains Code.endOfLine then .zero else .absent)

/-- The line at `offset` in an image, if there is room for its header. -/
def ofImage? (image : Image) (offset : Nat) : Option Line :=
  match image.drop offset with
  | _ :: _ :: low :: high :: rest => some (ofRest (word low high) offset rest)
  | _ => none

end Line

end BasicListing
