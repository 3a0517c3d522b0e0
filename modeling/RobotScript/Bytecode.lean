import RobotScript.Opcode

/-!
# Bytecode

The code of the robot's machine is a list of numbers: each instruction is its operation code and,
for a jump, the address of the instruction to go to. Addresses count the numbers from zero.

## Main definitions

* `Instr` — an operation with its target.
* `Bytecode` — code as numbers, with `Bytecode.ofInstrs` to make it from instructions.
* `Bytecode.decode` — the instructions of code, each with its address.
-/

namespace RobotScript

/-- An instruction of the robot's machine. -/
inductive Instr where
  /-- Perform an action. -/
  | act (action : Action)
  /-- Stop. -/
  | halt
  /-- Go on at `target`. -/
  | jump (target : Nat)
  /-- Go on at `target` if the condition fails. -/
  | jumpUnless (condition : Condition) (target : Nat)
  deriving DecidableEq, Repr

/-- Code as a list of numbers. -/
structure Bytecode where
  values : List Nat
  deriving DecidableEq, Repr

/-- An instruction with the address of its first number. -/
structure Placed where
  address : Nat
  instr : Instr
  deriving DecidableEq, Repr

namespace Instr

/-- The operation of the instruction. -/
def opcode : Instr → Opcode
  | act action => .act action
  | halt => .halt
  | jump _ => .jump
  | jumpUnless condition _ => .jumpUnless condition

/-- The address that the instruction may go to. -/
def target? : Instr → Option Nat
  | act _ => none
  | halt => none
  | jump target => some target
  | jumpUnless _ target => some target

/-- The numbers of the instruction. -/
def encode (i : Instr) : List Nat :=
  i.opcode.code :: i.target?.toList

/-- How many numbers the instruction takes. -/
def size (i : Instr) : Nat :=
  i.encode.length

/-- How many numbers the instructions take together. -/
def sizeAll : List Instr → Nat
  | [] => 0
  | i :: rest => i.size + sizeAll rest

theorem sizeAll_append (code code' : List Instr) :
    sizeAll (code ++ code') = sizeAll code + sizeAll code' := by
  induction code with
  | nil => simp [sizeAll]
  | cons i code ih =>
    rw [List.cons_append, sizeAll, sizeAll, ih]
    omega

/-- A jump takes two numbers. -/
theorem sizeAll_jump_cons (target : Nat) (code : List Instr) :
    sizeAll (jump target :: code) = 2 + sizeAll code := rfl

/-- A conditional jump takes two numbers. -/
theorem sizeAll_jumpUnless_cons (c : Condition) (target : Nat) (code : List Instr) :
    sizeAll (jumpUnless c target :: code) = 2 + sizeAll code := rfl

theorem length_flatMap_encode (code : List Instr) :
    (code.flatMap encode).length = sizeAll code := by
  induction code with
  | nil => rfl
  | cons i code ih => rw [List.flatMap_cons, List.length_append, ih, sizeAll, size]

end Instr

/-- What follows an operation code: nothing, or a target that completes the instruction. -/
inductive Opcode.Shape where
  | complete (instr : Instr)
  | awaitsTarget (instr : Nat → Instr)

/-- What follows the code of the operation. -/
def Opcode.shape : Opcode → Opcode.Shape
  | .act action => .complete (.act action)
  | .halt => .complete .halt
  | .jump => .awaitsTarget .jump
  | .jumpUnless condition => .awaitsTarget (.jumpUnless condition)

/-- Why a list of numbers is not code. -/
inductive DecodeError where
  /-- No operation has this code. -/
  | unknownOpcode (address code : Nat)
  /-- The code ends after the operation code of a jump. -/
  | missingTarget (address : Nat) (op : Opcode)
  /-- A jump goes beyond the end of the code. -/
  | targetOutOfRange (address target length : Nat)
  deriving DecidableEq, Repr

namespace Bytecode

/-- The code of a list of instructions. -/
def ofInstrs (code : List Instr) : Bytecode :=
  ⟨code.flatMap Instr.encode⟩

/-- The number of numbers in the code. -/
def size (bc : Bytecode) : Nat :=
  bc.values.length

theorem size_ofInstrs (code : List Instr) : (ofInstrs code).size = Instr.sizeAll code :=
  Instr.length_flatMap_encode code

/-- The code has no numbers. -/
def isEmpty (bc : Bytecode) : Bool :=
  bc.values.isEmpty

/-- The instructions in the rest of a code of `length` numbers, which starts at `address`. -/
def decodeFrom (length address : Nat) : List Nat → Except DecodeError (List Placed)
  | [] => .ok []
  | code :: rest =>
    match Opcode.ofCode? code with
    | none => .error (.unknownOpcode address code)
    | some op =>
      match op.shape with
      | .complete instr => do
        let later ← decodeFrom length (address + 1) rest
        return ⟨address, instr⟩ :: later
      | .awaitsTarget instr =>
        match rest with
        | [] => .error (.missingTarget address op)
        | target :: rest =>
          if target < length then do
            let later ← decodeFrom length (address + 2) rest
            return ⟨address, instr target⟩ :: later
          else .error (.targetOutOfRange address target length)

/-- The instructions of the code, each with its address. -/
def decode (bc : Bytecode) : Except DecodeError (List Placed) :=
  decodeFrom bc.size 0 bc.values

end Bytecode

end RobotScript
