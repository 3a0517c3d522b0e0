import RobotScript.Bytecode
import RobotScript.Text.Blank
import RobotScript.Text.Decimal
import RobotScript.Text.Split

/-!
# The text format of bytecode

Code is written with one number a line, after a line with the number of numbers. Reading ignores
blank lines and blanks around a number; every line is checked before the count is.

## Main definitions

* `Bytecode.toText` — the text of code.
* `Bytecode.ofText` — the code of a text.
-/

namespace RobotScript

/-- The numbers in code, and their count, are below this bound: they have 64 bits. -/
def wordBound : Nat := 0x10000000000000000

/-- Why a text is not the text of code. -/
inductive TextError where
  /-- There is no line with the number of numbers. -/
  | missingLength
  /-- A line is not a number. -/
  | invalidNumber (line : Nat) (found : String)
  /-- Another number of numbers follows than the first line says. -/
  | lengthMismatch (declared actual : Nat)
  deriving DecidableEq, Repr

/-- The message of a text error. -/
def TextError.message : TextError → String
  | missingLength => "bytecode text is empty, expected a length on the first line"
  | invalidNumber line found =>
    s!"line {line}: expected a non-negative integer, found '{found}'"
  | lengthMismatch declared actual =>
    s!"length prefix says {declared} values but {actual} follow"

namespace Bytecode

/-- The text of code: its length and its numbers, each on a line. -/
def toText (bc : Bytecode) : String :=
  String.join ((bc.size :: bc.values).map fun n => n.repr ++ "\n")

/-- Lines with their numbers, which count from `first`, trimmed and without the blank ones. -/
def numberedLines (first : Nat) : List (List Char) → List (Nat × List Char)
  | [] => []
  | line :: later =>
    let kept := Text.trim line
    if kept.isEmpty then numberedLines (first + 1) later
    else (first, kept) :: numberedLines (first + 1) later

/-- The number on a line. -/
def readLine (line : Nat × List Char) : Except TextError Nat :=
  match Text.readNumeral? wordBound line.2 with
  | some n => .ok n
  | none => .error (.invalidNumber line.1 (String.ofList line.2))

/-- The code of a text. -/
def ofText (text : String) : Except TextError Bytecode := do
  let numbers ← (numberedLines 1 (Text.pieces '\n' text.toList)).mapM readLine
  match numbers with
  | [] => .error .missingLength
  | declared :: values =>
    if declared = values.length then return ⟨values⟩
    else .error (.lengthMismatch declared values.length)

end Bytecode

end RobotScript
