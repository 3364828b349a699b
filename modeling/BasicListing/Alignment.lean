/-
  Runs of assignments and the column their `=` signs share.

  A run goes on as long as assignments follow each other; remarks that share
  the row of the statement before them do not interrupt it.  The run of a
  statement behind an `IF` ends with its line, because the indentation is
  another one on the next line.

  * `Site`: a statement together with what stands around it.
  * `Program.runColumn`: the rightmost `=` of the run that begins at a site.
  * `Program.columnAt`: the column in force at a site.
-/
import BasicListing.Program

namespace BasicListing

/-- A statement together with what stands around it. -/
structure Site where
  statement : Statement
  /-- An `IF` stands before it in its line. -/
  isConditional : Bool
  /-- The statements behind it in its line. -/
  after : List Statement
  /-- The lines after its own. -/
  later : List Line

/-- The sites of some statements at the end of a line; `conditional` tells whether an `IF` stands
    before them. -/
def sitesFrom (later : List Line) (conditional : Bool) : List Statement → List Site
  | [] => []
  | s :: after =>
    ⟨s, conditional, after, later⟩ ::
      sitesFrom later (conditional || s.isLedBy .ifCondition) after

/-- The sites of each line in a list of lines. -/
def lineSites : List Line → List (Line × List Site)
  | [] => []
  | line :: later => (line, sitesFrom later false line.statements) :: lineSites later

namespace Program

/-- The site of the statement with the given index among all statements. -/
def site? (p : Program) (index : Nat) : Option Site :=
  ((lineSites p.lines).flatMap Prod.snd)[index]?

/-- A statement at which a run ends.  If `split` is set, no remark shares a row, so each of them
    ends a run. -/
def endsRun (p : Program) (split : Bool) (s : Statement) : Bool :=
  p.assignmentColumn s == 0 && (split || !s.isJoinable)

/-- The statements on which a run that begins at the site goes on: those behind it up to the first
    that ends the run.  They go beyond its line if the whole rest of the line belongs to the run
    and no `IF` stands before it. -/
def restOfRun (p : Program) (split : Bool) (site : Site) : List Statement :=
  let goesOn := fun s => !p.endsRun split s
  site.after.takeWhile goesOn ++
    if site.isConditional || site.after.any (p.endsRun split) then []
    else (site.later.flatMap Line.statements).takeWhile goesOn

/-- The column of the rightmost `=` in the run that begins at the site. -/
def runColumn (p : Program) (split : Bool) (site : Site) : Nat :=
  (p.restOfRun split site).foldl (fun highest s => max highest (p.assignmentColumn s))
    (p.assignmentColumn site.statement)

/-- The column in force at a site, if `current` was in force before it and zero stands for none:
    an assignment keeps the column of its run, or begins a run; all else ends the run. -/
def columnAt (p : Program) (split : Bool) (current : Nat) (site : Site) : Nat :=
  if p.assignmentColumn site.statement = 0 then 0
  else if current = 0 then p.runColumn split site
  else current

end Program

end BasicListing
