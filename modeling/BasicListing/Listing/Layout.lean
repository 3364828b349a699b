/-
  Layout: where the statements of a program go in its listing.

  One pass over the lines decides, for each statement that is shown, which
  row it goes to, how far it is indented, and the column of its `=`.  The
  pass keeps the open loops and the column in force from line to line, and
  the indentation from statement to statement.

  * Each line begins at the depth of the open loops.
  * `FOR` opens a loop and `IF` a clause, which indents the rest of its line.
  * `NEXT` closes loops and goes back to their depth, but stays inside the
    clauses of its line.
  * A line without anything to show still has a row, for its number.
-/
import BasicListing.Alignment
import BasicListing.Listing.Gutter
import BasicListing.Loop

namespace BasicListing

/-- A place in the listing.  `start` is what the row begins with: the start of the line's first
    row, or nothing in later rows. -/
inductive Placement where
  /-- A row for a line without anything to show. -/
  | bare (start : Text)
  /-- A remark that hides code, with rows for the code. -/
  | code (start : Text) (statement : Statement)
  /-- A remark at the end of the row above. -/
  | joined (statement : Statement)
  /-- A row for a statement: its indentation, and the column in force for its `=`. -/
  | row (start : Text) (indent column : Nat) (statement : Statement)

/-- What a pass keeps from line to line. -/
structure Pass where
  /-- The open loops. -/
  loops : OpenLoops := []
  /-- The column in force for assignments, zero if none is. -/
  column : Nat := 0
  /-- The places given so far, last first. -/
  placed : List Placement := []

/-- What a pass keeps from statement to statement. -/
structure LinePass extends Pass where
  /-- What the next row begins with; it is gone once a row of the line has been placed. -/
  start : Option Text
  indent : Nat
  /-- The indentation of the clauses of this line, zero before the first `IF`. -/
  floor : Nat := 0

namespace LinePass

/-- Begin a line. -/
def begin (pass : Pass) (start : Text) : LinePass :=
  { pass with start := some start, indent := pass.loops.length }

/-- Put a statement into a row that begins with what the next row begins with. -/
def place (pass : LinePass) (placement : Text → Placement) : LinePass :=
  { pass with placed := placement (pass.start.getD []) :: pass.placed, start := none }

/-- Close the loops of a `NEXT`. -/
def closeLoops (pass : LinePass) (s : Statement) : LinePass :=
  match s.closedVariables? with
  | some vs =>
    let loops := OpenLoops.close pass.loops vs
    { pass with loops, indent := max pass.floor loops.length }
  | none => pass

/-- Open the loop of a `FOR` or the clause of an `IF`. -/
def openBlock (pass : LinePass) (s : Statement) : LinePass :=
  match s.head, s.openedVariable? with
  | .ifCondition, _ => { pass with indent := pass.indent + 1, floor := pass.indent + 1 }
  | _, some v => { pass with indent := pass.indent + 1, loops := v :: pass.loops }
  | _, none => pass

/-- A remark goes to the end of the row above, if it may and there is one. -/
def joins (settings : Settings) (pass : LinePass) (s : Statement) : Bool :=
  !settings.splitComments && s.isJoinable && pass.start.isNone

/-- Find the column in force at a site. -/
def alignAt (settings : Settings) (p : Program) (pass : LinePass) (site : Site) : LinePass :=
  if settings.alignAssignments then
    { pass with column := p.columnAt settings.splitComments pass.column site }
  else pass

/-- Place the statement at a site.  An empty one is not shown, but ends a run of assignments. -/
def step (settings : Settings) (p : Program) (pass : LinePass) (site : Site) : LinePass :=
  let s := site.statement
  if s.isEmpty then
    if settings.alignAssignments then { pass with column := 0 } else pass
  else if s.hidesCode then pass.place (.code · s)
  else
    let pass := pass.closeLoops s
    if pass.joins settings s then pass.place fun _ => .joined s
    else
      let pass := pass.alignAt settings p site
      (pass.place (.row · pass.indent pass.column s)).openBlock s

/-- End a line.  The run of assignments ends with it if it has an `IF`. -/
def finish (pass : LinePass) : Pass where
  loops := pass.loops
  column := if 0 < pass.floor then 0 else pass.column
  placed := match pass.start with
    | some start => .bare start :: pass.placed
    | none => pass.placed

end LinePass

/-- Place the statements of a line. -/
def Pass.placeLine (settings : Settings) (p : Program) (targets : Targets) (pass : Pass)
    (line : Line × List Site) : Pass :=
  (line.2.foldl (LinePass.step settings p)
    (.begin pass (rowStart settings targets line.1))).finish

/-- The pass over all lines of a program. -/
def Program.pass (p : Program) (settings : Settings) : Pass :=
  (lineSites p.lines).foldl (Pass.placeLine settings p p.targets) {}

/-- The places of all statements that are shown, in order. -/
def Program.layout (p : Program) (settings : Settings) : List Placement :=
  (p.pass settings).placed.reverse

end BasicListing
