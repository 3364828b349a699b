/-
  Settings of a listing.

  Settings are read from a JSON object with the members `listing` and `wrap`,
  which are objects themselves.  A setting that is missing there, or has the
  wrong type, keeps its default; members that are not settings do not matter.
-/
import BasicListing.Json.Reader

namespace BasicListing

/-- How a listing is to look.  The values are those of the listing that nobody has asked to
    change. -/
structure Settings where
  /-- Give each remark a row of its own, also behind another statement. -/
  splitComments : Bool := false
  /-- Put the `=` signs of a run of assignments under each other. -/
  alignAssignments : Bool := true
  /-- Mark the lines that branch and that are branched to. -/
  showBranchTargets : Bool := true
  /-- Begin with the name, the length and the load address of the program. -/
  showHeader : Bool := true
  /-- Show the numbers of lines that are branched to, and no others. -/
  onlyShowTargetLineNumbers : Bool := false
  /-- Break a long string in a `PRINT` after so many columns; zero is never. -/
  printWidth : Nat := 40
  /-- Kept for comments, which are not broken. -/
  commentWidth : Nat := 60
  deriving DecidableEq, Repr

namespace Settings

/-- The value in a category under a key. -/
def valueAt? (root : Json.Value) (category key : String) : Option Json.Value :=
  (root.member? category.toList).bind fun v => v.member? key.toList

/-- The settings that a JSON value asks for. -/
def ofJson (root : Json.Value) : Settings :=
  let flag (key : String) (default : Bool) : Bool :=
    ((valueAt? root "listing" key).bind Json.Value.bool?).getD default
  let columns (key : String) (default : Nat) : Nat :=
    ((valueAt? root "wrap" key).bind Json.Value.whole?).getD default
  let default : Settings := {}
  { splitComments := flag "splitComments" default.splitComments
    alignAssignments := flag "alignAssignments" default.alignAssignments
    showBranchTargets := flag "showBranchTargets" default.showBranchTargets
    showHeader := flag "showHeader" default.showHeader
    onlyShowTargetLineNumbers :=
      flag "onlyShowTargetLineNumbers" default.onlyShowTargetLineNumbers
    printWidth := columns "print" default.printWidth
    commentWidth := columns "comment" default.commentWidth }

/-- The settings that a JSON text asks for. -/
def read (text : Text) : Except Json.Fault Settings := (Json.read text).map ofJson

end Settings

end BasicListing
