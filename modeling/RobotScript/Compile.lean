import RobotScript.Bytecode
import RobotScript.Event
import RobotScript.Grammar.Program

/-!
# Code generation

A statement becomes code that starts at a given address, so that its jumps can name addresses of
the whole program. A call of an instruction becomes the code of the instruction's body: bodies are
inserted wherever they are called, which excludes instructions that call themselves. Branches,
loops and calls may stand inside one another, through inserted bodies as well, up to a limit.

A one-way branch is a conditional jump over its body. A two-way branch is a conditional jump to its
second body and, after the first body, a jump over the second. A loop is a conditional jump over its
body and, after the body, a jump back to the test.

## Main definitions

* `CompileError` — why a program has no code.
* `Statement.emit` — the code of a statement at an address.
* `Statement.compile` — the complete code of a main body.
* `compile` — the code of a source text.
-/

namespace RobotScript

/-- How many branches, loops and calls may stand inside one another. -/
def maxDepth : Nat := 512

/-- Why a program has no code. -/
inductive CompileError where
  /-- A call of something that is neither an action nor a defined instruction. -/
  | undefined (name : String)
  /-- Instructions that call one another in a circle; the first is repeated at the end. -/
  | recursive (chain : List String)
  /-- More than `limit` statements stand inside one another, there where the bodies of the
  instructions in `chain` are being inserted, the outermost first. -/
  | tooDeep (limit : Nat) (chain : List String)
  deriving DecidableEq, Repr

namespace CompileError

/-- The names of all actions, as a message lists them. -/
def actionNames : String :=
  ", ".intercalate (Action.all.map Action.name)

/-- The message of a compile error, with a hint on a second line. -/
def message : CompileError → String
  | undefined name =>
    s!"compile error: call to undefined instruction '{name}'\n  hint: define it with " ++
      s!"'INSTRUCTION {name} IS ... END {name}' or call one of {actionNames}"
  | recursive chain =>
    "compile error: instruction '" ++ chain.headD "" ++ "' calls itself: " ++
      " -> ".intercalate chain ++
      "\n  hint: instructions are expanded inline, so recursion cannot be compiled; use a " ++
      "WHILE loop instead"
  | tooDeep limit _ =>
    s!"compile error: statements nested more than {limit} levels deep after inlining\n" ++
      "  hint: split deeply nested instructions into WHILE loops or flatter bodies"

end CompileError

namespace Statement

open Logged

mutual

/-- The code of a statement at the address `start`. The instructions in `chain`, the outermost
first, are those whose bodies are being inserted, and `levels` more branches, loops and calls may
stand inside one another. -/
def emit (defs : Definitions) (chain : List String) (levels start : Nat) (s : Statement) :
    Logged CompileError (List Instr) :=
  match s, levels with
  | block body, levels => emitAll defs chain levels start body
  | _, 0 => fail (.tooDeep maxDepth chain)
  | ifThen c body, levels + 1 => do
    let code ← emit defs chain levels (start + 2) body
    let stop := start + 2 + Instr.sizeAll code
    record (.patched (start + 1) stop)
    return .jumpUnless c stop :: code
  | ifElse c thenBody elseBody, levels + 1 => do
    let thenCode ← emit defs chain levels (start + 2) thenBody
    let slot := start + 2 + Instr.sizeAll thenCode + 1
    record (.patched (start + 1) (slot + 1))
    let elseCode ← emit defs chain levels (slot + 1) elseBody
    let stop := slot + 1 + Instr.sizeAll elseCode
    record (.patched slot stop)
    return .jumpUnless c (slot + 1) :: thenCode ++ .jump stop :: elseCode
  | whileDo c body, levels + 1 => do
    let code ← emit defs chain levels (start + 2) body
    let stop := start + 2 + Instr.sizeAll code + 2
    record (.patched (start + 1) stop)
    return .jumpUnless c stop :: code ++ [.jump start]
  | call name, levels + 1 =>
    match Action.ofName? name with
    | some action => return [.act action]
    | none =>
      match defs.find? name with
      | none => fail (.undefined name)
      | some body =>
        if name ∈ chain then fail (.recursive (chain.dropWhile (· ≠ name) ++ [name]))
        else do
          record (.inlining name start)
          emit defs (chain ++ [name]) levels start body
termination_by (levels, sizeOf s)

/-- The code of statements one after another, the first at the address `start`. -/
def emitAll (defs : Definitions) (chain : List String) (levels start : Nat)
    (body : List Statement) : Logged CompileError (List Instr) :=
  match body with
  | [] => return []
  | s :: rest => do
    let code ← emit defs chain levels start s
    let later ← emitAll defs chain levels (start + Instr.sizeAll code) rest
    return code ++ later
termination_by (levels, sizeOf body)

end

/-- An event reports that the body of the instruction called `name` is inserted. -/
def isInserted (events : List Event) (name : String) : Bool :=
  events.any fun e =>
    match e with
    | .inlining instruction _ => instruction == name
    | _ => false

/-- The defined instructions whose body no event reports as inserted. -/
def unusedNames (defs : Definitions) (events : List Event) : List String :=
  defs.names.filter fun name => !isInserted events name

/-- The complete code of a main body: its code from address zero, and a halt. Instructions that no
call leads to are reported, and the length of the code. -/
def compile (defs : Definitions) (body : Statement) : Logged CompileError Bytecode :=
  let work := body.emit defs [] maxDepth 0
  match work.outcome with
  | .error e => ⟨work.events, .error e⟩
  | .ok code =>
    let bc := Bytecode.ofInstrs (code ++ [.halt])
    ⟨work.events ++ (unusedNames defs work.events).map .unused ++ [.generated bc.size], .ok bc⟩

end Statement

namespace Program

/-- The code of a program. -/
def compile (p : Program) : Logged CompileError Bytecode :=
  p.body.compile p.definitions

/-- Reports that a program has been read. -/
def reportParsed (outcome : Except ParseError Program) : Logged ParseError Program :=
  match outcome with
  | .ok p => ⟨[.parsed p.name p.definitions.size], .ok p⟩
  | .error e => ⟨[], .error e⟩

end Program

/-- Why a source text has no code. -/
inductive BuildError where
  | parse (error : ParseError)
  | compile (error : CompileError)
  deriving DecidableEq, Repr

/-- The message of a build error. -/
def BuildError.message : BuildError → String
  | parse error => error.message
  | compile error => error.message

/-- The code of a source text. -/
def compile (source : String) : Logged BuildError Bytecode := do
  let p ← (Program.reportParsed (Program.parse source)).mapError .parse
  p.compile.mapError .compile

end RobotScript
