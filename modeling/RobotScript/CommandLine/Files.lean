import RobotScript.Text.Split

/-!
# Files

The compiler reads one file and writes at most one. Whatever can do so offers `FileAccess`; a
`FileSystem` is files held in memory. It refuses what its paths do not allow, and for causes of its
own anything else. A write stores all of its bytes or fails and changes nothing.

## Main definitions

* `FileFault` — why a file cannot be read or written.
* `FileAccess` — reading and writing files.
* `FileTask` — what can be asked of files.
* `FileSystem` — files in memory, by their path.
-/

namespace RobotScript

/-- Why a file cannot be read or written. -/
inductive FileFault where
  | notFound
  | notDirectory
  | isDirectory
  | nameTooLong
  /-- The bytes are not text in UTF-8. -/
  | notText
  /-- Another cause, in the system's words. -/
  | other (message : String)
  deriving DecidableEq, Repr

/-- The message of a file fault. -/
def FileFault.message : FileFault → String
  | notFound => "No such file or directory (os error 2)"
  | notDirectory => "Not a directory (os error 20)"
  | isDirectory => "Is a directory (os error 21)"
  | nameTooLong => "File name too long (os error 36)"
  | notText => "stream did not contain valid UTF-8"
  | other message => message

/-- Reading and writing files by their path. -/
class FileAccess (m : Type → Type) where
  readFile : String → m (Except FileFault ByteArray)
  writeFile : String → ByteArray → m (Except FileFault Unit)

/-- The names in a written path. -/
def pathNames (path : String) : List String :=
  ((Text.pieces '/' path.toList).map String.ofList).filter (· ≠ "")

/-- The written path starts at the root. -/
def isAbsolute (path : String) : Bool :=
  path.toList.head? == some '/'

/-- The written path can only be a directory. -/
def namesDirectory (path : String) : Bool :=
  path.toList.getLast? == some '/'

/-- The most bytes in one name of a path. -/
def nameLimit : Nat := 255

/-- The most bytes in a written path. -/
def pathLimit : Nat := 4095

/-- What stands at a path. -/
inductive FileNode where
  | file (bytes : ByteArray)
  | directory

/-- What can be asked of files. -/
inductive FileTask where
  | read (path : String)
  | write (path : String) (bytes : ByteArray)

/-- Files in memory. A path is the list of its names from the root. A directory exists if it holds
something or leads to the working directory. -/
structure FileSystem where
  workingDirectory : List String
  files : List (List String × ByteArray)
  /-- Why a task is refused, whatever stands at its path: no permission, no space, a broken disk. -/
  refusal? : FileTask → Option FileFault := fun _ => none

namespace FileSystem

/-- What stands at a path. -/
def node? (fs : FileSystem) (path : List String) : Option FileNode :=
  match fs.files.lookup path with
  | some bytes => some (.file bytes)
  | none =>
    if path.isPrefixOf fs.workingDirectory || fs.files.any (fun f => path.isPrefixOf f.1) then
      some .directory
    else none

/-- The path that a name leads to from a directory. -/
def enter (directory : List String) (name : String) : Except FileFault (List String) :=
  if name = "." then .ok directory
  else if name = ".." then .ok directory.dropLast
  else if nameLimit < name.utf8ByteSize then .error .nameTooLong
  else .ok (directory ++ [name])

/-- The directory that names lead to from a directory. Every name must lead to a directory. -/
def walk (fs : FileSystem) (directory : List String) :
    List String → Except FileFault (List String)
  | [] => .ok directory
  | name :: names => do
    let place ← enter directory name
    match fs.node? place with
    | none => .error .notFound
    | some (.file _) => .error .notDirectory
    | some .directory => fs.walk place names

/-- The directory in which the last name of a written path is looked up. -/
def holder (fs : FileSystem) (path : String) : Except FileFault (List String) :=
  if pathLimit < path.utf8ByteSize then .error .nameTooLong
  else fs.walk (if isAbsolute path then [] else fs.workingDirectory) (pathNames path).dropLast

/-- The path that a written path leads to. A path without names leads to where it starts. -/
def locate (fs : FileSystem) (path : String) : Except FileFault (List String) := do
  let directory ← fs.holder path
  match (pathNames path).getLast? with
  | none => return directory
  | some name => enter directory name

/-- The task is not refused. -/
def permit (fs : FileSystem) (task : FileTask) : Except FileFault Unit :=
  match fs.refusal? task with
  | some fault => .error fault
  | none => .ok ()

/-- The bytes of a file. -/
def read (fs : FileSystem) (path : String) : Except FileFault ByteArray := do
  fs.permit (.read path)
  match fs.node? (← fs.locate path) with
  | none => .error .notFound
  | some .directory => .error .isDirectory
  | some (.file bytes) => if namesDirectory path then .error .notDirectory else return bytes

/-- The files after `bytes` are stored at a path. -/
def store (fs : FileSystem) (path : List String) (bytes : ByteArray) : FileSystem :=
  { fs with files := (path, bytes) :: fs.files.filter (·.1 ≠ path) }

/-- The files after `bytes` are written to a file. That the path can only be a directory is seen
before its last name is looked up. -/
def write (fs : FileSystem) (path : String) (bytes : ByteArray) : Except FileFault FileSystem := do
  fs.permit (.write path bytes)
  let _ ← fs.holder path
  if namesDirectory path then .error .isDirectory
  else
    let place ← fs.locate path
    match fs.node? place with
    | some .directory => .error .isDirectory
    | _ => return fs.store place bytes

end FileSystem

end RobotScript
