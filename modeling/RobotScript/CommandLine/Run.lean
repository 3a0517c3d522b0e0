import RobotScript.Bytecode.Binary
import RobotScript.Bytecode.Listing
import RobotScript.Bytecode.Text
import RobotScript.CommandLine.Options
import RobotScript.CommandLine.Session
import RobotScript.Compile
import RobotScript.Program.Layout
import RobotScript.Token.Dump

/-!
# Running the compiler

A run reads the source file and shows its tokens, its structure, its layout, the number of its
actions, a listing of its code, or the code itself, which may go to a file instead. What is shown is
shown as the run goes along, with reports in between, and a run that cannot go on ends there with an
error.

## Main definitions

* `RunError` — why a run fails.
* `Job` — work that may fail, with what it does on the way.
* `Options.run` — a run, with the files it reads and writes and what it shows.
* `execute` — what the command line with some arguments does.
-/

namespace RobotScript

/-- Why a run fails. -/
inductive RunError where
  | read (path : String) (fault : FileFault)
  | scan (error : ScanError)
  | build (error : BuildError)
  | decode (error : DecodeError)
  | write (path : String) (fault : FileFault)

/-- The message of a run error. -/
def RunError.message : RunError → String
  | read path fault => s!"failed to read '{path}': {fault.message}"
  | scan error => error.message
  | build error => error.message
  | decode error => error.message
  | write path fault => s!"failed to write '{path}': {fault.message}"

/-- The extension of a path: what follows the last dot in its last name, unless the name has no dot
but the one it starts with. -/
def extension? (path : String) : Option String :=
  match ((pathNames path).filter (· ≠ ".")).getLast? with
  | none => none
  | some name =>
    if name = ".." then none
    else
      match name.toList.reverse.span (· ≠ '.') with
      | (_, []) => none
      | (_, [_]) => none
      | (after, _ :: _) => some (String.ofList after.reverse)

/-- The bytes of code in a format. -/
def Format.encode (bc : Bytecode) : Format → ByteArray
  | text => bc.toText.toUTF8
  | binary => ⟨bc.toBytes.toArray⟩

/-- The text of a file, if its bytes could be read and are text. -/
def RunError.textOf (path : String) : Except FileFault ByteArray → Except RunError String
  | .error fault => .error (.read path fault)
  | .ok bytes =>
    match String.fromUTF8? bytes with
    | none => .error (.read path .notText)
    | some text => .ok text

/-- The lines of the events that matter enough to be reported. -/
def Event.log (verbose : Bool) (events : List Event) : String :=
  let least := if verbose then Level.debug else Level.warn
  String.join ((events.filter fun e => least.rank ≤ e.level.rank).map Event.line)

/-- Work that may fail, with what it does on the way. What was done before a failure stays done. -/
abbrev Job (m : Type → Type) := ExceptT RunError m

namespace Job

variable {m : Type → Type} [Monad m]

/-- Goes on with a result, or ends with an error. -/
def ofExcept {α : Type} (result : Except RunError α) : Job m α :=
  ExceptT.mk (pure result)

/-- Reads a text from a file. -/
def readText [FileAccess m] (path : String) : Job m String :=
  ExceptT.mk do return RunError.textOf path (← FileAccess.readFile path)

/-- Writes bytes to a file. -/
def save [FileAccess m] (path : String) (bytes : ByteArray) : Job m Unit :=
  ExceptT.mk do return (← FileAccess.writeFile path bytes).mapError (.write path)

/-- Shows bytes as a result. -/
def display [Console m] (bytes : ByteArray) : Job m Unit :=
  ExceptT.lift (Console.display bytes)

/-- Shows a text as a result. -/
def displayText [Console m] (text : String) : Job m Unit :=
  display text.toUTF8

/-- Reports events. -/
def report [Console m] (verbose : Bool) (events : List Event) : Job m Unit :=
  ExceptT.lift (Console.notify (Event.log verbose events))

/-- Goes on with the result of work that is done in memory, after a report of its events. -/
def await [Console m] {α : Type} (verbose : Bool) (work : Logged RunError α) : Job m α := do
  report verbose work.events
  ofExcept work.outcome

end Job

namespace Options

/-- How the tokens are shown. -/
def dumpStyle (o : Options) : DumpStyle :=
  ⟨!o.has .noColour, !o.has .pretty⟩

/-- The events before a source is read. -/
def openingEvents (o : Options) : List Event :=
  if extension? o.file = some "bl" then [] else [.unusualName o.file]

variable {m : Type → Type} [Monad m] [FileAccess m] [Console m]

/-- Brings code to where it belongs. -/
def deliver (o : Options) (bc : Bytecode) : Job m Unit := do
  let bytes := o.format.encode bc
  match o.output with
  | some path =>
    Job.save path bytes
    Job.report (o.has .verbose) [.codeWritten path bc.size]
  | none => Job.display bytes

/-- A run of the compiler. Of several things to show the first in this order counts: tokens,
structure, layout, number of actions, listing. -/
def run (o : Options) : Job m Unit := do
  let verbose := o.has .verbose
  Job.report verbose o.openingEvents
  let source ← Job.readText o.file
  Job.report verbose [.sourceRead o.file source.utf8ByteSize]
  if o.has .tokens then
    let tokens ← Job.ofExcept ((scan source).mapError .scan)
    Job.displayText (o.dumpStyle.render tokens)
  else
    let parsed := Program.reportParsed (Program.parse source)
    let p ← Job.await verbose (parsed.mapError (.build ∘ .parse))
    if o.has .ast then Job.displayText (p.outline.indented 0 ++ "\n")
    else if o.has .prettyPrint then Job.displayText p.render
    else if o.has .count then Job.displayText (p.actionCount.repr ++ "\n")
    else
      let bc ← Job.await verbose (p.compile.mapError (.build ∘ .compile))
      if o.has .disasm then
        let listing ← Job.ofExcept (bc.listing.mapError .decode)
        Job.displayText listing
      else o.deliver bc

end Options

/-- The version of the compiler. -/
def versionText : String := "blc 0.1.0\n"

/-- How the compiler is called. -/
def usageText : String :=
  "Usage: blc [OPTIONS] <FILE>\n\n" ++
  "Options:\n" ++
  "  -o, --output <OUTPUT>  write the code to a file\n" ++
  "      --format <FORMAT>  text or postcard\n" ++
  "      --tokens           show the tokens\n" ++
  "      --no-color         show the tokens without colours\n" ++
  "      --pretty           show the tokens as they are written\n" ++
  "      --ast              show the structure of the program\n" ++
  "      --pretty-print     show the program in its layout\n" ++
  "      --disasm           show a listing of the code\n" ++
  "      --count            show the number of actions in the main body\n" ++
  "  -v, --verbose          report more\n" ++
  "  -h, --help             show this text\n" ++
  "  -V, --version          show the version\n"

section

variable {m : Type → Type} [Monad m] [FileAccess m] [Console m]

/-- The exit code of a run. The error of a run that fails is shown. -/
def conclude : Except RunError Unit → m Nat
  | .ok _ => return 0
  | .error e => do
    Console.notify ("error: " ++ e.message ++ "\n")
    return 1

/-- What the command line with these arguments does. The result is its exit code. -/
def execute (arguments : List String) : m Nat := do
  match Request.ofArguments arguments with
  | .misuse =>
    Console.notify ("error: invalid arguments\n\n" ++ usageText)
    return 2
  | .help =>
    Console.display usageText.toUTF8
    return 0
  | .version =>
    Console.display versionText.toUTF8
    return 0
  | .run o => conclude (← o.run.run)

end

end RobotScript
