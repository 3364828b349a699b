/-
  Breaking the row of a `PRINT` with one long string.

  A row is broken if it holds exactly two quotes, no colon and no semicolon,
  and the quotes are more than the given width apart.  The first row goes to
  the given width behind the opening quote, every other row takes that width
  and begins under the opening quote.  The string may well end before the
  last row does.
-/
import BasicListing.Text.Basic

namespace BasicListing

/-! ## Pieces of a given width -/

/-- Text that is being cut into pieces, each of them with its last character first. -/
structure Pieces where
  /-- The columns that are left in the current piece. -/
  room : Nat
  current : Text := []
  /-- The pieces before it, last first. -/
  done : List Text := []

namespace Pieces

/-- Take a character into the current piece or, if that is full, into the next one.  `none` if
    a piece would have to end inside the character. -/
def take? (width : Nat) (p : Pieces) (c : Char) : Option Pieces :=
  if c.utf8Size ≤ p.room then
    some { p with room := p.room - c.utf8Size, current := c :: p.current }
  else if p.room = 0 ∧ c.utf8Size ≤ width then
    some { room := width - c.utf8Size, current := [c], done := p.current :: p.done }
  else none

/-- The pieces, in order. -/
def toList (p : Pieces) : List Text := (p.current :: p.done).reverse.map List.reverse

end Pieces

/-- The pieces of a text: the first takes `first` columns, each other one `width` columns, and
    the last what is left.  `none` if a piece would have to end inside a character. -/
def cutPieces? (first width : Nat) (t : Text) : Option (List Text) :=
  (t.foldlM (Pieces.take? width) { room := first }).map Pieces.toList

/-! ## Rows -/

/-- The columns from the opening quote of a row to the closing one. -/
def quoteDistance (row : Text) : Nat :=
  1 + Text.width (((row.dropWhile (· != '"')).drop 1).takeWhile (· != '"'))

/-- A row that is broken at the given width. -/
def needsWrap (width : Nat) (row : Text) : Bool :=
  width != 0 && row.count '"' == 2 && !row.contains ':' && !row.contains ';'
    && width < quoteDistance row

/-- The rows that a row is broken into; a row that is not broken is the only one.  `none` if a
    row would have to end inside a character. -/
def wrapRow? (width : Nat) (row : Text) : Option (List Text) :=
  if needsWrap width row then
    let quote := Text.width (row.takeWhile (· != '"'))
    (cutPieces? (quote + width) width row).map fun pieces =>
      pieces.take 1 ++ (pieces.drop 1).map (Text.spaces quote ++ ·)
  else some [row]

end BasicListing
