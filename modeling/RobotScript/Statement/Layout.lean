import RobotScript.Statement

/-!
# The layout of statements

A statement is laid out in lines, each a number of spaces and then words with a space between two
of them. The body of a branch or loop is indented by four more columns; a sequence inside a
sequence shows no trace of its own.

## Main definitions

* `Line` — a line, with its text.
* `Statement.lines` — the lines of a statement at an indentation.
* `Statement.render` — their text.
-/

namespace RobotScript

/-- A line of a program: its indentation and its words. -/
structure Line where
  indent : Nat
  words : List String
  deriving DecidableEq, Repr

namespace Line

/-- The text of a line, with its line end. -/
def text (line : Line) : String :=
  String.ofList (List.replicate line.indent ' ') ++ " ".intercalate line.words ++ "\n"

/-- The text of lines in order. -/
def textAll (lines : List Line) : String :=
  String.join (lines.map text)

/-- By how many columns a body is indented further. -/
def step : Nat := 4

end Line

namespace Statement

/-- The lines of a statement at an indentation. -/
def lines (indent : Nat) : Statement → List Line
  | block body => body.flatMap (lines indent)
  | ifThen c body =>
    ⟨indent, ["IF", c.spelling, "THEN"]⟩ :: body.lines (indent + Line.step) ++
      [⟨indent, ["END", "IF"]⟩]
  | ifElse c thenBody elseBody =>
    ⟨indent, ["IF", c.spelling, "THEN"]⟩ :: thenBody.lines (indent + Line.step) ++
      ⟨indent, ["ELSE"]⟩ :: elseBody.lines (indent + Line.step) ++ [⟨indent, ["END", "IF"]⟩]
  | whileDo c body =>
    ⟨indent, ["WHILE", c.spelling, "DO"]⟩ :: body.lines (indent + Line.step) ++
      [⟨indent, ["END", "WHILE"]⟩]
  | call name => [⟨indent, [name]⟩]

/-- The text of a statement at an indentation. -/
def render (indent : Nat) (s : Statement) : String :=
  Line.textAll (s.lines indent)

end Statement

end RobotScript
