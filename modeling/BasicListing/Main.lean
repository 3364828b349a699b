/-
  The command line: reads the input, and writes the output and what is to be
  reported.
-/
import BasicListing.Command.Run

namespace BasicListing

/-- Why the operating system did not let a file be read.  Its number may come with a minus
    sign. -/
def ReadFault.ofError : IO.Error → ReadFault
  | .noFileOrDirectory _ _ _ => .missing
  | .inappropriateType _ code details =>
    if code = 20 ∨ code = -20 then .notFolder
    else if code = 21 ∨ code = -21 then .isFolder
    else .other details.toList code.toNat
  | .permissionDenied _ code details | .invalidArgument _ code details
  | .resourceExhausted _ code details => .other details.toList code.toNat
  | .otherError code details => .other details.toList code.toNat
  | e => .other (toString e).toList 0

end BasicListing

open BasicListing in
/-- Run the command that the arguments ask for. -/
def main (args : List String) : IO UInt32 := do
  let outcome ← match Invocation.read (args.map String.toList) with
    | .error stop => pure stop.outcome
    | .ok invocation =>
      let input ← match invocation.source? with
        | some (.file path) =>
          try pure (.ok (← IO.FS.readBinFile path.asString).toList)
          catch e => pure (.error (ReadFault.ofError e))
        | some .standardInput => pure (.ok (← (← IO.getStdin).readBinToEnd).toList)
        | none => pure (.ok [])
      pure (invocation.run input)
  IO.eprint outcome.report.asString
  match outcome with
  | .finished output _ => IO.print output.asString
  | .failed failure => IO.eprintln ("Error: " ++ failure.kind.name.asString)
  | .misused => IO.eprintln "error: the arguments were not understood"
  return outcome.exitCode.toUInt32
