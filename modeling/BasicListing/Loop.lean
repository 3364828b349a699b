/-
  Open loops.

  A `FOR` opens a loop and a `NEXT` closes loops, innermost first.  Only the
  first two bytes of a variable's name tell it from others.
-/
import BasicListing.Text.Basic

namespace BasicListing

/-- Two names of one variable: equal, or longer than one byte and with the same first two. -/
def sameName (v w : Text) : Bool :=
  v == w || (2 ≤ v.width && 2 ≤ w.width && v.bytes.take 2 == w.bytes.take 2)

/-- The variables of the open loops, innermost first. -/
abbrev OpenLoops := List Text

namespace OpenLoops

/-- Close the innermost loop of a variable and all loops inside it; without such a loop, all
    loops are closed. -/
def closeVariable (loops : OpenLoops) (v : Text) : OpenLoops :=
  (loops.dropWhile fun w => !sameName v w).tail

/-- Close the loops of a `NEXT`: those of its variables one after the other, or the innermost
    one if it names none. -/
def close (loops : OpenLoops) : List Text → OpenLoops
  | [] => loops.tail
  | vs => vs.foldl closeVariable loops

end OpenLoops

end BasicListing
