import CacheHierarchy.CommandLine.Run

/-!
# The program

The command line is run on the files of the system. The report goes to the standard output, the log
and what went wrong to the standard error output.
-/

namespace CacheHierarchy

/-- What the system says of a file, in the words of a run. A code may come with its sign turned
around. -/
def FileError.ofSystem : IO.Error → FileError
  | .noFileOrDirectory .. => .absent
  | .inappropriateType _ code _ => if code = 21 ∨ code = -21 then .directory else .throughFile
  | .permissionDenied _ code details => .other s!"{details} (os error {code})"
  | e => .other (toString e)

/-- The files of the system. -/
instance : Files IO where
  read path := do
    try return .ok (← IO.FS.readBinFile path)
    catch e => return .error (.ofSystem e)
  write path text := do
    try
      IO.FS.writeFile path text
      return .ok ()
    catch e => return .error (.ofSystem e)

end CacheHierarchy

open CacheHierarchy in
def main (args : List String) : IO UInt32 := do
  let outcome ← CommandLine.outcome args
  IO.print outcome.output.text
  for entry in outcome.output.log do IO.eprintln entry.line
  if let some failure := outcome.failure then IO.eprint failure.report
  return outcome.status.toUInt32
