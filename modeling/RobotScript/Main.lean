import RobotScript.CommandLine.Run

/-!
# The command line program

Files are read and written through the system, and what the command line shows goes to its two
standard streams.
-/

namespace RobotScript

/-- The fault behind an error of the system. The system's code may come with its sign changed. -/
def FileFault.ofError : IO.Error → FileFault
  | .noFileOrDirectory _ _ _ => .notFound
  | .noSuchThing _ _ _ => .notFound
  | .inappropriateType _ code details =>
    if code = 21 ∨ code = 0 - 21 then .isDirectory
    else if code = 20 ∨ code = 0 - 20 then .notDirectory
    else .other details
  | .invalidArgument _ code details =>
    if code = 36 ∨ code = 0 - 36 then .nameTooLong else .other details
  | e => .other (toString e)

instance : FileAccess IO where
  readFile path := do
    try return .ok (← IO.FS.readBinFile path)
    catch e => return .error (.ofError e)
  writeFile path bytes := do
    try IO.FS.writeBinFile path bytes; return .ok ()
    catch e => return .error (.ofError e)

instance : Console IO where
  display bytes := do
    let stdout ← IO.getStdout
    stdout.write bytes
    stdout.flush
  notify text := IO.eprint text

end RobotScript

/-- Runs the compiler with the given arguments. -/
def main (arguments : List String) : IO UInt32 := do
  let exitCode : Nat ← RobotScript.execute arguments
  return exitCode.toUInt32
