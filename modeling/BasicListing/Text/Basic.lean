/-
  Text as a listing sees it: characters in order, measured in bytes.

  * `Text.width`: the columns a text takes, one for each byte of its UTF-8
    form.  For text in ASCII this is the number of characters.
  * `Text.padTo`, `Text.padLeft`: spaces behind or before a text, up to a
    column.
  * `Text.ofRows`: rows put under each other.
  * `Text.width_append`, `Text.width_padTo`: widths add up, and padding reaches
    its column.

  Everything a listing shows is built as a `Text` and turned into a string at
  the very end, so that facts about listings are facts about lists.
-/

namespace BasicListing

/-- A piece of text, as the list of its characters. -/
abbrev Text := List Char

namespace Text

/-- The UTF-8 form of a text. -/
def bytes (t : Text) : List UInt8 := t.flatMap String.utf8EncodeChar

/-- The number of columns a text takes: one for each byte of its UTF-8 form. -/
def width (t : Text) : Nat := t.foldr (fun c columns => c.utf8Size + columns) 0

/-- A run of `n` spaces. -/
def spaces (n : Nat) : Text := List.replicate n ' '

/-- The text followed by as many spaces as it needs to reach `column`; a text that
    already reaches it is left alone. -/
def padTo (column : Nat) (t : Text) : Text := t ++ spaces (column - t.width)

/-- The text with as many spaces before it as it needs to take `columns`. -/
def padLeft (columns : Nat) (t : Text) : Text := spaces (columns - t.width) ++ t

@[simp] theorem width_nil : width [] = 0 := rfl

@[simp] theorem width_cons (c : Char) (t : Text) : width (c :: t) = c.utf8Size + width t := rfl

@[simp] theorem width_append (t u : Text) : width (t ++ u) = width t + width u := by
  induction t with
  | nil => simp
  | cons c t ih => rw [List.cons_append, width_cons, ih, width_cons, Nat.add_assoc]

@[simp] theorem width_spaces (n : Nat) : width (spaces n) = n := by
  induction n with
  | zero => rfl
  | succ n ih =>
    rw [spaces, List.replicate_succ, width_cons, ← spaces, ih, Nat.add_comm]
    rfl

/-- Padding reaches the column, and does nothing to a text that goes beyond it. -/
@[simp] theorem width_padTo (column : Nat) (t : Text) :
    width (padTo column t) = max column t.width := by
  rw [padTo, width_append, width_spaces]
  omega

/-- Rows put under each other, with a line feed between any two. -/
def ofRows (rows : List Text) : Text := ['\n'].intercalate rows

/-- The string with these characters. -/
def asString (t : Text) : String := String.ofList t

end Text

end BasicListing
