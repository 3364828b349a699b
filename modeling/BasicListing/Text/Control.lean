/-
  Text without control sequences.

  A terminal does not show control characters, and it takes an escape
  character together with some of the characters behind it for an order.
  `Text.withoutControls` is what is left of a text without all of that.

  * White space stays: space, tab, line feed, form feed and carriage return.
  * `ESC` and a character up to `~` is an order, with any number of characters
    from space to `/` in between.
  * `ESC [` goes on up to a character from `@` to `~`.
  * `ESC ]` goes on up to a bell.
  * `ESC P`, `ESC X`, `ESC ^` and `ESC _` begin a string that goes on up to
    the byte 9C, wherever that stands in the UTF-8 form of the text.
  * Cancel (18) and substitute (1A) break off an order, and another escape
    character begins a new one.

  White space other than a space does not end an order that is not a string,
  but interrupts it: it is shown, and so is the text behind it, until a
  control character takes the order up again.  A character beyond ASCII in
  that text ends the order.
-/
import BasicListing.Text.Basic

namespace BasicListing

/-- Where a text stands with respect to control sequences. -/
inductive ControlState where
  /-- In no sequence. -/
  | text
  /-- Behind `ESC`. -/
  | escape
  /-- Behind `ESC` and a character from space to `/`. -/
  | intermediate
  /-- Behind `ESC [`. -/
  | order
  /-- Behind `ESC ]`. -/
  | command
  /-- Behind `ESC P`. -/
  | device
  /-- Behind `ESC P` and a parameter. -/
  | deviceParameter
  /-- Behind `ESC P` and a character from space to `/`, with or without parameters. -/
  | deviceIntermediate
  /-- In a string. -/
  | string
  deriving DecidableEq, Repr

namespace ControlState

/-- The byte that ends a string. -/
def stringEnd : UInt8 := 0x9C

/-- The state behind one more character. -/
def next (state : ControlState) (c : Char) : ControlState :=
  if c = '\x1b' then .escape
  else if c = '\x18' ∨ c = '\x1a' then .text
  else match state with
    | .text => .text
    | .escape =>
      if ' ' ≤ c ∧ c ≤ '/' then .intermediate
      else if c = '[' then .order
      else if c = ']' then .command
      else if c = 'P' then .device
      else if c = 'X' ∨ c = '^' ∨ c = '_' then .string
      else if '0' ≤ c ∧ c ≤ '~' then .text
      else .escape
    | .intermediate => if '0' ≤ c ∧ c ≤ '~' then .text else .intermediate
    | .order => if '@' ≤ c ∧ c ≤ '~' then .text else .order
    | .command => if c = '\x07' then .text else .command
    | .device =>
      if ' ' ≤ c ∧ c ≤ '/' then .deviceIntermediate
      else if '0' ≤ c ∧ c ≤ '?' then .deviceParameter
      else if '@' ≤ c ∧ c ≤ '~' then .string
      else .device
    | .deviceParameter =>
      if ' ' ≤ c ∧ c ≤ '/' then .deviceIntermediate
      else if '<' ≤ c ∧ c ≤ '~' then .string
      else .deviceParameter
    | .deviceIntermediate => if '0' ≤ c ∧ c ≤ '~' then .string else .deviceIntermediate
    | .string => if (String.utf8EncodeChar c).contains stringEnd then .text else .string

/-- White space interrupts an order in this state. -/
def isInterruptible : ControlState → Bool
  | .escape | .intermediate | .order => true
  | _ => false

end ControlState

/-- White space among the control characters that is shown. -/
def isWhiteControl (c : Char) : Bool := c == '\t' || c == '\n' || c == '\x0c' || c == '\r'

/-- A character that is shown where it is part of no sequence. -/
def isShown (c : Char) : Bool := (' ' ≤ c && c != '\x7f') || isWhiteControl c

/-- The state of dropping control sequences from a text. -/
structure ControlFilter where
  state : ControlState := .text
  /-- White space has interrupted the sequence. -/
  interrupted : Bool := false
  /-- The characters that are shown, last first. -/
  shown : Text := []

namespace ControlFilter

/-- Show a character as text.  One beyond ASCII ends a sequence that is interrupted. -/
def keep (f : ControlFilter) (c : Char) : ControlFilter :=
  if c ≤ '\x7f' then { f with shown := c :: f.shown } else { shown := c :: f.shown }

/-- Take one character. -/
def step (f : ControlFilter) (c : Char) : ControlFilter :=
  if (f.state = .text ∨ f.interrupted) ∧ isShown c then f.keep c
  else if f.state.isInterruptible ∧ isWhiteControl c then
    { f with interrupted := true, shown := c :: f.shown }
  else { f with state := f.state.next c, interrupted := false }

end ControlFilter

/-- What is left of a text without control characters and control sequences. -/
def Text.withoutControls (t : Text) : Text := (t.foldl ControlFilter.step {}).shown.reverse

end BasicListing
