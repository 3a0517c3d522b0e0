import RobotScript.Program
import RobotScript.Statement.Layout

/-!
# The layout of programs

A program is laid out with its instructions in ascending order of their names, each followed by a
blank line, and then its main body.

## Main definitions

* `Program.lines` — the lines of a program.
* `Program.render` — their text.
-/

namespace RobotScript.Program

/-- The lines of an instruction, with the blank line after it. -/
def definitionLines (name : String) (body : Statement) : List Line :=
  ⟨Line.step, ["INSTRUCTION", name, "IS"]⟩ :: body.lines (2 * Line.step) ++
    [⟨Line.step, ["END", name]⟩, ⟨0, []⟩]

/-- The lines of a program. -/
def lines (p : Program) : List Line :=
  ⟨0, ["PROGRAM", p.name, "IS"]⟩ :: ⟨0, []⟩ ::
    p.definitions.entries.flatMap (fun e => definitionLines e.1 e.2) ++
    ⟨0, ["BEGIN"]⟩ :: p.body.lines Line.step ++ [⟨0, ["END", p.name]⟩]

/-- The text of a program. -/
def render (p : Program) : String :=
  Line.textAll p.lines

end RobotScript.Program
