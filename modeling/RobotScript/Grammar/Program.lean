import RobotScript.Grammar.Block
import RobotScript.Program

/-!
# Reading programs

A program is written `PROGRAM name IS`, then its instructions, each
`INSTRUCTION name IS block END name`, then `BEGIN block END name`, and nothing after that. A closing
name repeats the opening one. No instruction has the name of an action or of an earlier
instruction. Whether the called instructions exist is not asked.

## Main definitions

* `ProgramState` — what has been read of a program, and what is due.
* `Reader.program` — reads a program up to the end of the input.
* `Program.parse` — the program of a source text.
-/

namespace RobotScript

/-- What has been read of a program, and what is due. `name` is the program's name, `defs` are its
complete instructions, and `instruction` is the name of the instruction being read. -/
inductive ProgramState where
  /-- The first word. -/
  | opening
  /-- The program's name. -/
  | name
  /-- The word after the program's name. -/
  | nameIs (name : String)
  /-- Another instruction or the main body. -/
  | definitions (name : String) (defs : Definitions)
  /-- The name of an instruction. -/
  | definitionName (name : String) (defs : Definitions)
  /-- The word after the name of an instruction. -/
  | definitionIs (name : String) (defs : Definitions) (instruction : String)
  /-- The body of an instruction. -/
  | definitionBody (name : String) (defs : Definitions) (instruction : String)
      (block : BlockState)
  /-- The closing name of an instruction. -/
  | definitionEnd (name : String) (defs : Definitions) (instruction : String) (body : Statement)
  /-- The main body. -/
  | mainBody (name : String) (defs : Definitions) (block : BlockState)
  /-- The closing name of the program. -/
  | mainEnd (name : String) (defs : Definitions) (body : Statement)
  /-- The end of the input. -/
  | complete (program : Program)

namespace ProgramState

/-- The block that a token ends, if it ends one. -/
def endedBlock? (block : BlockState) (token : Token) : Option Statement :=
  if token = .keyword .endKw then block.finished? else none

/-- The name can be given to an instruction beside those in `defs`. -/
def isFree (defs : Definitions) (name : String) : Bool :=
  !Action.isName name && !defs.contains name

/-- The state after a token, if it can stand here. -/
def step? : ProgramState → Token → Option ProgramState
  | opening, .keyword .programKw => some name
  | name, .ident n => some (nameIs n)
  | nameIs n, .keyword .isKw => some (definitions n .empty)
  | definitions n defs, .keyword .instructionKw => some (definitionName n defs)
  | definitions n defs, .keyword .beginKw => some (mainBody n defs .initial)
  | definitionName n defs, .ident i =>
    if isFree defs i then some (definitionIs n defs i) else none
  | definitionIs n defs i, .keyword .isKw => some (definitionBody n defs i .initial)
  | definitionBody n defs i block, token =>
    match block.step? token with
    | some block' => some (definitionBody n defs i block')
    | none => (endedBlock? block token).map (definitionEnd n defs i)
  | definitionEnd n defs i body, .ident closing =>
    if closing = i then some (definitions n (defs.insert i body)) else none
  | mainBody n defs block, token =>
    match block.step? token with
    | some block' => some (mainBody n defs block')
    | none => (endedBlock? block token).map (mainEnd n defs)
  | mainEnd n defs body, .ident closing =>
    if closing = n then some (complete ⟨n, defs, body⟩) else none
  | _, _ => none

/-- What is wrong with a closing name. -/
def closingFault (construct : Construct) (opened : String) : Token → Fault
  | .ident found => .mismatchedName construct opened found
  | token => .unexpected (.closingName opened) token

/-- What is wrong with a token that cannot stand here. -/
def fault : ProgramState → Token → Fault
  | opening, token => .unexpected (.keyword .programKw) token
  | name, token => .unexpected .programName token
  | nameIs _, token => .unexpected (.keyword .isKw) token
  | definitions _ _, token => .unexpected (.keyword .beginKw) token
  | definitionName _ _, .ident i =>
    if Action.isName i then .primitiveRedefined i else .duplicateInstruction i
  | definitionName _ _, token => .unexpected .instructionName token
  | definitionIs _ _ _, token => .unexpected (.keyword .isKw) token
  | definitionBody _ _ _ block, token => block.fault token
  | definitionEnd _ _ i _, token => closingFault .instruction i token
  | mainBody _ _ block, token => block.fault token
  | mainEnd n _ _, token => closingFault .program n token
  | complete _, token => .trailingInput token

end ProgramState

/-- Reads a program up to the end of the input. -/
def Reader.program : Reader ProgramState Program where
  initial := .opening
  result? s token :=
    match s, token with
    | .complete p, .eof => some p
    | _, _ => none
  step? := ProgramState.step?
  fault := ProgramState.fault

/-- The program of a source text. -/
def Program.parse (source : String) : Except ParseError Program :=
  match scanProgram source with
  | .error e => .error (.scan e)
  | .ok tokens => (Reader.program.run (.ofTokens tokens)).1

end RobotScript
