import RobotScript.CommandLine.Files

/-!
# Sessions

Besides reading and writing files, the compiler shows results and reports what it does. Whatever can
show something offers `Console`. A session is files in memory, with all that has been shown so far;
in it showing never fails, and nothing that was shown can be taken back.

## Main definitions

* `Console` — showing results and reports.
* `Session` — files in memory, and what has been shown.
-/

namespace RobotScript

/-- Showing something to the user. -/
class Console (m : Type → Type) where
  /-- Shows bytes where results go. -/
  display : ByteArray → m Unit
  /-- Shows a text where reports and errors go. -/
  notify : String → m Unit

/-- Files in memory, and what has been shown. -/
structure Session where
  files : FileSystem
  /-- The bytes that were shown as results. -/
  stdout : ByteArray := .empty
  /-- The text that was shown as reports and errors. -/
  stderr : String := ""

namespace Session

/-- The session after bytes are shown as a result. -/
def displayed (s : Session) (bytes : ByteArray) : Session :=
  { s with stdout := s.stdout ++ bytes }

/-- The session after a text is shown as a report. -/
def notified (s : Session) (text : String) : Session :=
  { s with stderr := s.stderr ++ text }

/-- How writing bytes to a file ends, and the session after it. -/
def written (s : Session) (path : String) (bytes : ByteArray) : Except FileFault Unit × Session :=
  match s.files.write path bytes with
  | .ok files => (.ok (), { s with files })
  | .error fault => (.error fault, s)

instance : FileAccess (StateM Session) where
  readFile path := do return (← get).files.read path
  writeFile path bytes := modifyGet fun s => s.written path bytes

instance : Console (StateM Session) where
  display bytes := modify fun s => s.displayed bytes
  notify text := modify fun s => s.notified text

end Session

end RobotScript
