/-!
# Outlines of nested values

A value with parts is shown as a name with its parts in brackets. The compact form puts all of it
on one line; the indented form gives each part a line of its own, four columns further in and
closed by a comma. A group without parts is the same in both forms.

## Main definitions

* `Outline` — a value to be shown.
* `Outline.compact`, `Outline.indented` — its two forms.
-/

namespace RobotScript.Text

/-- How the parts of a group are enclosed. -/
inductive Bracket where
  /-- Round brackets, after the name of a wrapped value. -/
  | round
  /-- Square brackets, around the items of a list. -/
  | square
  /-- Braces, around the entries of a map. -/
  | brace
  /-- Braces set off by spaces, around the fields of a record. -/
  | record
  deriving DecidableEq, Repr

/-- A value to be shown: a text, a labelled value, or a named group of values. -/
inductive Outline where
  | atom (text : String)
  | labelled (label : String) (value : Outline)
  | group (name : String) (bracket : Bracket) (parts : List Outline)

namespace Bracket

/-- The opening bracket. -/
def opening : Bracket → String
  | .round => "("
  | .square => "["
  | .brace => "\x7b"
  | .record => " \x7b"

/-- The closing bracket. -/
def closing : Bracket → String
  | .round => ")"
  | .square => "]"
  | .brace => "\x7d"
  | .record => "\x7d"

/-- What stands between a bracket and its parts in the compact form. -/
def gap : Bracket → String
  | .record => " "
  | _ => ""

end Bracket

namespace Outline

mutual

/-- The outline on one line. -/
def compact : Outline → String
  | atom text => text
  | labelled label value => label ++ ": " ++ value.compact
  | group name bracket [] => name ++ bracket.opening ++ bracket.closing
  | group name bracket (part :: parts) =>
    name ++ bracket.opening ++ bracket.gap ++ part.compact ++ compactRest parts ++
      bracket.gap ++ bracket.closing

/-- The parts after the first, each after a comma. -/
def compactRest : List Outline → String
  | [] => ""
  | part :: parts => ", " ++ part.compact ++ compactRest parts

end

/-- A line break followed by `indent` spaces. -/
def newLine (indent : Nat) : String :=
  String.ofList ('\n' :: List.replicate indent ' ')

mutual

/-- The outline with one part a line, for a value that starts on a line with `indent` spaces. -/
def indented (indent : Nat) : Outline → String
  | atom text => text
  | labelled label value => label ++ ": " ++ value.indented indent
  | group name bracket [] => name ++ bracket.opening ++ bracket.closing
  | group name bracket (part :: parts) =>
    name ++ bracket.opening ++ newLine (indent + 4) ++ part.indented (indent + 4) ++ "," ++
      indentedRest (indent + 4) parts ++ newLine indent ++ bracket.closing

/-- The parts after the first, each on a line with `indent` spaces and closed by a comma. -/
def indentedRest (indent : Nat) : List Outline → String
  | [] => ""
  | part :: parts => newLine indent ++ part.indented indent ++ "," ++ indentedRest indent parts

end

end Outline

end RobotScript.Text
