/-
  Reading JSON text.

  The reader takes one character at a time and keeps what is still open: the
  arrays and objects around the place it has got to (`Frame`), and what may
  come next there (`Expect`).  A text is refused at the first character that
  cannot stand where it does (`Fault.malformed`), or at its end if the value
  is not complete by then (`Fault.incomplete`).

  The rules are strict: blanks are space, tab, line feed and carriage return
  only; no comments and no commas before a closing bracket; no control
  characters in strings; escaped surrogates come in pairs.  At most 127
  arrays and objects can be open at a time.
-/
import BasicListing.Json.Basic
import BasicListing.Json.Numeral
import BasicListing.Text.Numeral

namespace BasicListing.Json

/-- Why a text is not JSON. -/
inductive Fault where
  /-- It ends before the value does. -/
  | incomplete
  /-- A character cannot stand where it does. -/
  | malformed
  deriving DecidableEq, Repr

/-- The number of arrays and objects that can be open at a time. -/
def greatestDepth : Nat := 127

/-! ## State -/

/-- An array or an object that is open, with what has been read of it, last first. -/
inductive Frame where
  | array (items : List Value)
  /-- An object, before a key or behind a member. -/
  | object (members : List (Text × Value))
  /-- An object, behind a key. -/
  | entry (members : List (Text × Value)) (key : Text)

/-- Where a string that is being read has got to. -/
inductive StringPart where
  | plain
  /-- Behind a backslash. -/
  | escape
  /-- Inside the four bytes of a code: those read, their value so far if they are digits, and the
      first half of the pair that the code ends. -/
  | code (read : Nat) (value : Option Nat) (lead : Option Nat)
  /-- Behind the first half of a pair. -/
  | pair (lead : Nat)
  /-- Behind the first half of a pair and a backslash. -/
  | pairEscape (lead : Nat)

/-- What may come next. -/
inductive Expect where
  /-- A value. -/
  | value
  /-- The first item of an array, or its end. -/
  | item
  /-- A key. -/
  | key
  /-- The first key of an object, or its end. -/
  | member
  /-- The colon behind a key. -/
  | colon
  /-- What follows a value: a comma or the end of what is around it. -/
  | afterValue
  /-- The rest of a word. -/
  | word (rest : Text) (value : Value)
  /-- The rest of a number. -/
  | number (n : Numeral)
  /-- The rest of a string, of which the characters read are given last first. -/
  | string (chars : Text) (part : StringPart)

/-- The state of reading. -/
structure Reader where
  /-- What is open, innermost first. -/
  frames : List Frame := []
  expect : Expect := .value
  /-- The value, once all of it has been read. -/
  result : Option Value := none

namespace Reader

/-- The characters that may stand between the parts of a text. -/
def isSpace (c : Char) : Bool := c == ' ' || c == '\t' || c == '\n' || c == '\r'

/-- Put a complete value into what is around it. -/
def complete (r : Reader) (v : Value) : Reader :=
  match r.frames with
  | [] => { frames := [], expect := .afterValue, result := some v }
  | .array items :: frames => { frames := .array (v :: items) :: frames, expect := .afterValue }
  | .entry members key :: frames =>
    { frames := .object ((key, v) :: members) :: frames, expect := .afterValue }
  | frames => { frames, expect := .afterValue }

/-- Put a complete string where it belongs: it is a key where an object waits for one. -/
def completeString (r : Reader) (s : Text) : Reader :=
  match r.frames with
  | .object members :: frames => { frames := .entry members s :: frames, expect := .colon }
  | _ => r.complete (.string s)

/-- Open an array or an object. -/
def openFrame (r : Reader) (frame : Frame) (expect : Expect) : Except Fault Reader :=
  if r.frames.length < greatestDepth then .ok { frames := frame :: r.frames, expect }
  else .error .malformed

/-- Close the innermost array or object with the given bracket. -/
def closeFrame (r : Reader) (bracket : Char) : Except Fault Reader :=
  match bracket, r.frames with
  | ']', .array items :: frames => .ok (complete { frames } (.array items.reverse))
  | '\x7d', .object members :: frames => .ok (complete { frames } (.object members.reverse))
  | _, _ => .error .malformed

/-! ## Numbers -/

/-- The value of a complete number. -/
def numberValue (n : Numeral) : Value :=
  match n.whole? with
  | some k => .whole k
  | none => .otherNumber

/-- End a number. -/
def endNumber (r : Reader) (n : Numeral) : Except Fault Reader :=
  if n.isComplete && n.isInRange then .ok (r.complete (numberValue n)) else .error .malformed

/-- Read a character of a number.  `none` if the number does not go on with it. -/
def stepNumeral? (n : Numeral) (c : Char) : Option Numeral :=
  match n.part, digitValue? 10 c with
  | .sign, some 0 => some { n with part := .zero }
  | .sign, some d | .whole, some d => some (n.takeWhole d)
  | .point, some d | .fraction, some d => some (n.takeFraction d)
  | .exponentMark, some d | .exponentSign, some d | .exponent, some d => some (n.takeExponent d)
  | .zero, none | .whole, none =>
    if c = '.' then some n.takePoint
    else if c = 'e' ∨ c = 'E' then some { n with part := .exponentMark }
    else none
  | .fraction, none =>
    if c = 'e' ∨ c = 'E' then some { n with part := .exponentMark } else none
  | .exponentMark, none =>
    if c = '+' then some { n with part := .exponentSign }
    else if c = '-' then some { n with part := .exponentSign, exponentNegative := true }
    else none
  | _, _ => none

/-! ## Strings -/

/-- The character that a letter behind a backslash stands for. -/
def escaped? (c : Char) : Option Char :=
  [('"', '"'), ('\\', '\\'), ('/', '/'), ('b', '\x08'), ('f', '\x0c'), ('n', '\n'), ('r', '\r'),
   ('t', '\t')].lookup c

/-- The second half of a pair. -/
def isTrailing (unit : Nat) : Bool := 0xDC00 ≤ unit && unit ≤ 0xDFFF

/-- The first half of a pair. -/
def isLeading (unit : Nat) : Bool := 0xD800 ≤ unit && unit ≤ 0xDBFF

/-- End a code: a character of its own, the first half of a pair, or the second half of the pair
    that `lead` began. -/
def endCode (chars : Text) (unit : Nat) : Option Nat → Except Fault Expect
  | none =>
    if isTrailing unit then .error .malformed
    else if isLeading unit then .ok (.string chars (.pair unit))
    else .ok (.string (Char.ofNat unit :: chars) .plain)
  | some lead =>
    if isTrailing unit then
      .ok (.string (Char.ofNat (0x10000 + (lead - 0xD800) * 0x400 + (unit - 0xDC00)) :: chars)
        .plain)
    else .error .malformed

/-- Read a character of a string other than the quote that ends it. -/
def stepString (chars : Text) (part : StringPart) (c : Char) : Except Fault Expect :=
  match part with
  | .plain =>
    if c = '\\' then .ok (.string chars .escape)
    else if c.toNat < 0x20 then .error .malformed
    else .ok (.string (c :: chars) .plain)
  | .escape =>
    if c = 'u' then .ok (.string chars (.code 0 (some 0) none))
    else match escaped? c with
      | some e => .ok (.string (e :: chars) .plain)
      | none => .error .malformed
  | .code read value lead =>
    let value := value.bind fun v => appendDigit? 16 v c
    let read := read + c.utf8Size
    if read < 4 then .ok (.string chars (.code read value lead))
    else match value with
      | some unit => endCode chars unit lead
      | none => .error .malformed
  | .pair lead =>
    if c = '\\' then .ok (.string chars (.pairEscape lead)) else .error .malformed
  | .pairEscape lead =>
    if c = 'u' then .ok (.string chars (.code 0 (some 0) (some lead))) else .error .malformed

/-! ## Values -/

/-- Read the first character of a value. -/
def stepValue (r : Reader) (c : Char) : Except Fault Reader :=
  if c = 'n' then .ok { r with expect := .word "ull".toList .null }
  else if c = 't' then .ok { r with expect := .word "rue".toList (.bool true) }
  else if c = 'f' then .ok { r with expect := .word "alse".toList (.bool false) }
  else if c = '"' then .ok { r with expect := .string [] .plain }
  else if c = '[' then r.openFrame (.array []) .item
  else if c = '\x7b' then r.openFrame (.object []) .member
  else if c = '-' then .ok { r with expect := .number { part := .sign, negative := true } }
  else match digitValue? 10 c with
    | some 0 => .ok { r with expect := .number { part := .zero } }
    | some d => .ok { r with expect := .number (Numeral.takeWhole { part := .whole } d) }
    | none => .error .malformed

/-- Read the first character of a key. -/
def stepKey (r : Reader) (c : Char) : Except Fault Reader :=
  if c = '"' then .ok { r with expect := .string [] .plain } else .error .malformed

/-- Read a character behind a value. -/
def stepAfterValue (r : Reader) (c : Char) : Except Fault Reader :=
  if isSpace c then .ok r
  else if c = ',' then
    match r.frames with
    | .array _ :: _ => .ok { r with expect := .value }
    | .object _ :: _ => .ok { r with expect := .key }
    | _ => .error .malformed
  else r.closeFrame c

/-- Read one character. -/
def step (r : Reader) (c : Char) : Except Fault Reader :=
  match r.expect with
  | .value => if isSpace c then .ok r else r.stepValue c
  | .item =>
    if isSpace c then .ok r else if c = ']' then r.closeFrame c else r.stepValue c
  | .key => if isSpace c then .ok r else r.stepKey c
  | .member =>
    if isSpace c then .ok r else if c = '\x7d' then r.closeFrame c else r.stepKey c
  | .colon =>
    if isSpace c then .ok r
    else if c = ':' then .ok { r with expect := .value }
    else .error .malformed
  | .afterValue => r.stepAfterValue c
  | .word rest value =>
    match rest with
    | expected :: rest =>
      if c ≠ expected then .error .malformed
      else if rest.isEmpty then .ok (r.complete value)
      else .ok { r with expect := .word rest value }
    | [] => .error .malformed
  | .number n =>
    match stepNumeral? n c with
    | some n => .ok { r with expect := .number n }
    | none => do (← r.endNumber n).stepAfterValue c
  | .string chars part =>
    match part with
    | .plain =>
      if c = '"' then .ok (r.completeString chars.reverse)
      else (stepString chars .plain c).map fun expect => { r with expect }
    | part => (stepString chars part c).map fun expect => { r with expect }

/-- The value that has been read when the text ends. -/
def finish (r : Reader) : Except Fault Value := do
  let r ← match r.expect with
    | .number n => if n.isComplete then r.endNumber n else .error .incomplete
    | _ => .ok r
  match r.frames, r.expect, r.result with
  | [], .afterValue, some v => .ok v
  | _, _, _ => .error .incomplete

end Reader

/-- The value of a JSON text. -/
def read (text : Text) : Except Fault Value := do
  (← text.foldlM Reader.step {}).finish

end BasicListing.Json
