/-
  What a command writes to standard error.

  A record is a level, a message and a line feed.  The later lines of a
  message are indented, and whatever could be taken for a control sequence is
  left out of the whole record.  So a control string that does not end takes
  the end of the record with it, line feed included.
-/
import BasicListing.Text.Control

namespace BasicListing

/-- The number of spaces before the later lines of a message. -/
def recordIndent : Nat := 4

/-- A record as it is written to standard error. -/
def recordText (message : Text) : Text :=
  Text.withoutControls
    (message.flatMap (fun c => if c = '\n' then c :: Text.spaces recordIndent else [c]) ++ ['\n'])

/-- A line without the carriage return at its end. -/
def dropReturn (line : Text) : Text :=
  if line.getLast? = some '\r' then line.dropLast else line

/-- The lines of a text.  A line ends in a line feed, with or without a carriage return before
    it; what stands behind the last line feed is a line too, unless it is empty. -/
def textLines (t : Text) : List Text :=
  let pieces := t.splitOn '\n'
  pieces.dropLast.map dropReturn ++ pieces.getLast?.toList.filter (!·.isEmpty)

end BasicListing
