import RobotScript.Token.Scan

/-!
# Errors of reading a program

Reading stops at the first token that cannot stand where it is. The error says what was due there
or which rule the token breaks, and its message starts with the token's place.

## Main definitions

* `Fault` — what is wrong with a token.
* `ParseError` — a fault at a place, or a character that no token can contain.
-/

namespace RobotScript

/-- What the grammar has in the place of a token. -/
inductive Expected where
  | keyword (keyword : Keyword)
  | programName
  | instructionName
  | statement
  /-- The end of the first body of a branch. -/
  | elseOrEnd
  /-- The name that closes what was opened with it. -/
  | closingName (name : String)
  deriving DecidableEq, Repr

/-- What a name opens and closes. -/
inductive Construct where
  | program
  | instruction
  deriving DecidableEq, Repr

/-- What is wrong with a token. -/
inductive Fault where
  /-- The grammar has something else in its place. -/
  | unexpected (expected : Expected) (found : Token)
  /-- A condition is due, and the token spells none. -/
  | invalidCondition (found : Token)
  /-- The closing name differs from the opening one. -/
  | mismatchedName (construct : Construct) (opened found : String)
  /-- An instruction has this name already. -/
  | duplicateInstruction (name : String)
  /-- An action has this name. -/
  | primitiveRedefined (name : String)
  /-- Something follows the program. -/
  | trailingInput (found : Token)
  /-- A branch or loop stands inside too many others. -/
  | tooDeep (limit : Nat)
  deriving DecidableEq, Repr

/-- Why a source is not a program. -/
inductive ParseError where
  | scan (error : ScanError)
  | fault (position : Position) (fault : Fault)
  deriving DecidableEq, Repr

/-- How a message says what is due. -/
def Expected.text : Expected → String
  | keyword k => "'" ++ k.spelling ++ "'"
  | programName => "program name"
  | instructionName => "instruction name"
  | statement => "a statement (IF, WHILE or an instruction call)"
  | elseOrEnd => "'ELSE' or 'END'"
  | closingName name => "'" ++ name ++ "'"

/-- How a message names a construct. -/
def Construct.text : Construct → String
  | program => "program"
  | instruction => "instruction"

/-- The spellings of all conditions, as a message lists them. -/
def Condition.choices : String :=
  ", ".intercalate ((Condition.all.dropLast).map Condition.spelling) ++ " or " ++
    Condition.always.spelling

namespace Fault

/-- The message of a fault, without its place. -/
def message : Fault → String
  | unexpected expected found => s!"expected {expected.text}, found '{found.spelling}'"
  | invalidCondition found =>
    s!"expected a condition ({Condition.choices}), found '{found.spelling}'"
  | mismatchedName construct opened found =>
    s!"{construct.text} '{opened}' must be closed by 'END {opened}', found 'END {found}'"
  | duplicateInstruction name => s!"instruction '{name}' is already defined"
  | primitiveRedefined name => s!"'{name}' is a primitive instruction and cannot be redefined"
  | trailingInput found => s!"expected end of input after the program, found '{found.spelling}'"
  | tooDeep limit => s!"statements nested more than {limit} levels deep"

/-- The faulty token has been read when the fault is found, so reading could go on after it. This
is so for the name of an instruction, which is judged as a name once it is known to be one. -/
def consumesToken : Fault → Bool
  | duplicateInstruction _ => true
  | primitiveRedefined _ => true
  | _ => false

end Fault

namespace ParseError

/-- The place of the error. -/
def position : ParseError → Position
  | scan error => error.position
  | fault p _ => p

/-- The message of the error, which starts with its place. -/
def message : ParseError → String
  | scan error => error.message
  | fault p f => p.label ++ ": " ++ f.message

end ParseError

end RobotScript
