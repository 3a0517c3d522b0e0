import RobotScript.Definitions

/-!
# Programs

A program has a name, the instructions that it defines, and a main body.

## Main definitions

* `Program`, with the program `Program.new` to start from.
* `Program.actionCount`, `Program.rename`, `Program.simplify`.
* `Program.outline` — the program to be shown with its structure.
-/

namespace RobotScript

/-- A named program: its instructions and what it performs. -/
structure Program where
  name : String
  definitions : Definitions
  body : Statement
  deriving DecidableEq

namespace Program

/-- The program without a name of its own that does nothing. -/
def new : Program := ⟨"Unnamed", .empty, .empty⟩

/-- How many calls of actions the main body contains. Calls of instructions are not followed. -/
def actionCount (p : Program) : Nat :=
  p.body.actionCount

/-- The program after the instruction name `old` was given up for `new`. -/
def rename (old new : String) (p : Program) : Program :=
  { p with definitions := p.definitions.rename old new, body := p.body.rename old new }

/-- The program in which no two-way branch has a negative condition. -/
def simplify (p : Program) : Program :=
  { p with definitions := p.definitions.mapBodies Statement.simplify, body := p.body.simplify }

open Text in
/-- The program to be shown with its structure. -/
def outline (p : Program) : Outline :=
  .group "Program" .record
    [.labelled "name" (.atom (quoted p.name)),
      .labelled "context"
        (.group "" .brace (p.definitions.entries.map fun e => .labelled (quoted e.1) e.2.outline)),
      .labelled "body" p.body.outline]

end Program

end RobotScript
