/-
  The bytes of a tokenized program.

  A byte above 127 is a token: it stands for a keyword.  Only the tokens that
  decide the structure of a listing have a name here.  A byte up to 127 is
  plain: it stands for the ASCII character with its code.
-/

namespace BasicListing

/-! ## Bytes that structure a line -/

namespace Code

/-- `FOR` -/
def forLoop : UInt8 := 0x81
/-- `NEXT` -/
def nextLoop : UInt8 := 0x82
/-- `LET` -/
def letAssign : UInt8 := 0xAA
/-- `GOTO` -/
def goto : UInt8 := 0xAB
/-- `IF` -/
def ifCondition : UInt8 := 0xAD
/-- `GOSUB` -/
def gosub : UInt8 := 0xB0
/-- `REM` -/
def remark : UInt8 := 0xB2
/-- `PRINT` -/
def print : UInt8 := 0xBA
/-- `THEN` -/
def thenClause : UInt8 := 0xC4
/-- `=` -/
def equals : UInt8 := 0xD0
/-- The quote around a string. -/
def quote : UInt8 := 0x22
/-- The comma between the variables of a `NEXT`. -/
def comma : UInt8 := 0x2C
/-- The colon between two statements. -/
def colon : UInt8 := 0x3A
/-- The zero byte that ends a line. -/
def endOfLine : UInt8 := 0x00

end Code

/-! ## Tokens -/

/-- What a byte at the head of a statement is. -/
inductive Token where
  | forLoop
  | nextLoop
  | letAssign
  | goto
  | gosub
  | ifCondition
  | thenClause
  | remark
  | print
  | equals
  /-- A token that does not matter to the structure. -/
  | other (byte : UInt8)
  /-- An ASCII character. -/
  | plain (byte : UInt8)
  deriving DecidableEq, Repr

namespace Token

/-- What a byte is. -/
def ofByte (b : UInt8) : Token :=
  if b = Code.forLoop then .forLoop
  else if b = Code.nextLoop then .nextLoop
  else if b = Code.letAssign then .letAssign
  else if b = Code.goto then .goto
  else if b = Code.gosub then .gosub
  else if b = Code.ifCondition then .ifCondition
  else if b = Code.thenClause then .thenClause
  else if b = Code.remark then .remark
  else if b = Code.print then .print
  else if b = Code.equals then .equals
  else if b > 127 then .other b
  else .plain b

/-- A token stands for a keyword, a plain byte does not. -/
def isToken : Token → Bool
  | .plain _ => false
  | _ => true

/-- A decimal digit; at the head of a statement it means a branch to the line of that number. -/
def isDigit : Token → Bool
  | .plain b => 0x30 ≤ b && b ≤ 0x39
  | _ => false

end Token

end BasicListing
