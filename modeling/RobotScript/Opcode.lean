import RobotScript.Condition

/-!
# Operation codes

The robot's machine knows five actions, a halt, a jump, and for each condition a jump that is
taken when the condition fails. Operations are numbered from zero in that order; the jumps are
followed in the code by the address they go to.

## Main definitions

* `Action` — what the robot can do, with the name that calls it in a program.
* `Opcode` — an operation, with its `code` and its `mnemonic`.
* `Opcode.ofCode?` — the operation with a given code.
-/

namespace RobotScript

/-- What the robot can do. -/
inductive Action where
  | move
  | turnLeft
  | turnRight
  | infect
  | skip
  deriving DecidableEq, Repr

/-- An operation of the robot's machine. -/
inductive Opcode where
  /-- Perform an action. -/
  | act (action : Action)
  /-- Stop. -/
  | halt
  /-- Go on at another address. -/
  | jump
  /-- Go on at another address if the condition fails. -/
  | jumpUnless (condition : Condition)
  deriving DecidableEq, Repr

namespace Action

/-- The actions in the order that numbers them. -/
def all : List Action :=
  [move, turnLeft, turnRight, infect, skip]

/-- The name that calls the action in a program. -/
def name : Action → String
  | move => "move"
  | turnLeft => "turnleft"
  | turnRight => "turnright"
  | infect => "infect"
  | skip => "skip"

/-- The name of the action in a listing of the program's structure. -/
def title : Action → String
  | move => "Move"
  | turnLeft => "TurnLeft"
  | turnRight => "TurnRight"
  | infect => "Infect"
  | skip => "Skip"

/-- The place of the action in `Action.all`. -/
def index : Action → Nat
  | move => 0
  | turnLeft => 1
  | turnRight => 2
  | infect => 3
  | skip => 4

/-- The action that a name calls. -/
def ofName? (name : String) : Option Action :=
  all.find? fun a => a.name == name

/-- The name calls an action, so no instruction can take it. -/
def isName (name : String) : Bool :=
  (ofName? name).isSome

theorem mem_all (a : Action) : a ∈ all := by
  cases a <;> decide

/-- An action is called by its own name only. -/
theorem name_of_ofName? {name : String} {action : Action} (h : ofName? name = some action) :
    action.name = name := by
  simpa using List.find?_some h

end Action

namespace Opcode

/-- The operations in the order of their codes. -/
def all : List Opcode :=
  Action.all.map act ++ [halt, jump] ++ Condition.all.map jumpUnless

/-- The number that stands for the operation. -/
def code : Opcode → Nat
  | act action => action.index
  | halt => 5
  | jump => 6
  | jumpUnless condition => 7 + condition.index

/-- The operation with this number. -/
def ofCode? (code : Nat) : Option Opcode :=
  all[code]?

/-- The operation is followed by the address it goes to. -/
def hasTarget : Opcode → Bool
  | jump => true
  | jumpUnless _ => true
  | _ => false

/-- The operation's name in a code listing. -/
def mnemonic : Opcode → String
  | act action => Text.capitals action.name
  | halt => "HALT"
  | jump => "JUMP"
  | jumpUnless condition => "JUMP_IF_NOT_" ++ Text.capitals condition.spelling

/-- The operation's name in a listing of the program's structure. -/
def title : Opcode → String
  | act action => action.title
  | halt => "Halt"
  | jump => "Jump"
  | jumpUnless condition => "JumpIfNot" ++ condition.title

/-- An operation is found under its own code. -/
theorem ofCode?_code (op : Opcode) : ofCode? op.code = some op := by
  rcases op with action | _ | _ | ⟨sight, negative⟩ | _ | _
  · cases action <;> rfl
  · rfl
  · rfl
  · cases sight <;> cases negative <;> rfl
  · rfl
  · rfl

end Opcode

end RobotScript
