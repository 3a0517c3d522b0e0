import RobotScript.Bytecode
import RobotScript.Text.Decimal

/-!
# Code listings

A listing shows code with one instruction a line: its address, a mark if some jump goes there, its
mnemonic, and for a jump the target and the direction. A rule stands above each instruction that
is a target. The head counts the numbers and the instructions.

## Main definitions

* `DecodeError.message` — why there is no listing.
* `Placed.lines` — the lines of an instruction.
* `Bytecode.listing` — the listing of code.
-/

namespace RobotScript

/-- The message of a decode error, which starts with the address. -/
def DecodeError.message : DecodeError → String
  | unknownOpcode address code => s!"{Text.padded 4 address}: unknown opcode {code}"
  | missingTarget address op =>
    s!"{Text.padded 4 address}: {op.mnemonic} is missing its target operand"
  | targetOutOfRange address target length =>
    Text.padded 4 address ++
      s!": jump target {target} is outside the program (length {length})"

namespace Placed

/-- The rule above an instruction that is a target. -/
def targetRule : String :=
  "      ┌──────────────────────────────────\n"

/-- The lines of an instruction, of which `isTarget` says that some jump goes there. -/
def lines (p : Placed) (isTarget : Bool) : String :=
  (if isTarget then targetRule else "") ++ Text.padded 4 p.address ++
    (if isTarget then " ► " else "   ") ++
    match p.instr.target? with
    | some target =>
      Text.padRight 32 p.instr.opcode.mnemonic ++ " " ++ Text.padded 4 target ++
        (if target ≤ p.address then " ↑\n" else " ↓\n")
    | none => p.instr.opcode.mnemonic ++ "\n"

end Placed

namespace Bytecode

/-- The rule above and below the head of a listing. -/
def headRule : String :=
  "════════════════════════════════════════\n"

/-- The listing of instructions that take `size` numbers together. -/
def listingOf (size : Nat) (code : List Placed) : String :=
  let targets := code.filterMap fun p => p.instr.target?
  headRule ++ s!" {size} values, {code.length} instructions\n" ++ headRule ++
    String.join (code.map fun p => p.lines (targets.contains p.address))

/-- The listing of the code. -/
def listing (bc : Bytecode) : Except DecodeError String := do
  let code ← bc.decode
  return listingOf bc.size code

end Bytecode

end RobotScript
