/-
  The gutter: what stands to the left of a line's first row.

  With branch targets shown it holds two pairs of marks and the line number:

      <<>>    10      the line begins with `GOSUB`, and some `GOSUB` calls it
       <>     20      the line begins with `GOTO`, and some `GOTO` goes to it
      -->>    30      some `GOSUB` calls it
      <<--    40      the line begins with `GOSUB`

  A pair for which nothing applies is blank, or a pair of dashes if the other
  one applies.  Without branch targets the gutter holds the line number only.
-/
import BasicListing.Program
import BasicListing.Settings

namespace BasicListing

/-- The mark of a line that begins with a branch. -/
def sourceMark (line : Line) : Option String :=
  match (line.statements.head?).map Statement.head with
  | some .gosub => some "<<"
  | some .goto => some " <"
  | _ => none

/-- The mark of a line that is branched to. -/
def targetMark (targets : Targets) (line : Line) : Option String :=
  if targets.isCalled line.number then some ">>"
  else if targets.isJumpedTo line.number then some "> "
  else none

/-- A mark, or what stands in its place next to the other mark. -/
def pairText (mark other : Option String) : Text :=
  (mark.getD (if other.isSome then "--" else "  ")).toList

/-- The number of a line, in five columns; without one if only the lines that are branched to
    have one, and nothing branches to this one. -/
def numberText (settings : Settings) (targets : Targets) (line : Line) : Text :=
  if settings.showBranchTargets && settings.onlyShowTargetLineNumbers
      && (targetMark targets line).isNone then []
  else Text.padLeft 5 (decimal line.number.toNat)

/-- What stands to the left of a line's first row. -/
def gutter (settings : Settings) (targets : Targets) (line : Line) : Text :=
  let number := numberText settings targets line
  if settings.showBranchTargets then
    let source := sourceMark line
    let target := targetMark targets line
    pairText source target ++ pairText target source ++ [' '] ++ number
  else ' ' :: number

/-- The gutter and the two spaces behind it, which keep it apart from what follows. -/
def rowStart (settings : Settings) (targets : Targets) (line : Line) : Text :=
  gutter settings targets line ++ Text.spaces 2

end BasicListing
