import RobotScript.Grammar.Reader
import RobotScript.Statement

/-!
# Reading statements

A block is a run of statements. A statement is the call of an instruction by its name, a branch
`IF c THEN block END IF` or `IF c THEN block ELSE block END IF`, or a loop
`WHILE c DO block END WHILE`. Branches and loops may stand inside one another up to a limit.

The reader keeps the branches and loops whose bodies are open, innermost first, with what has been
read of the blocks around them.

## Main definitions

* `BlockState` — what has been read of a block, and what is due.
* `BlockState.step?`, `BlockState.fault` — the next state, or what is wrong.
* `Reader.block` — reads statements for as long as they go on.
* `Reader.statement` — reads one statement.
-/

namespace RobotScript

/-- How many branches and loops may stand inside one another. -/
def maxNesting : Nat := 128

/-- A branch or loop with an open body. `before` holds the statements that stand before it in its
own block, the latest first. -/
inductive Frame where
  /-- A branch in its first body. -/
  | thenPart (condition : Condition) (before : List Statement)
  /-- A branch in its second body; the first holds `thenBody`, the latest first. -/
  | elsePart (condition : Condition) (thenBody before : List Statement)
  /-- A loop. -/
  | loop (condition : Condition) (before : List Statement)

/-- What is due next in a block. -/
inductive Due where
  /-- A statement, or what ends the block. -/
  | statement
  /-- The condition of a branch. -/
  | ifCondition
  /-- The word before the first body of a branch. -/
  | thenWord (condition : Condition)
  /-- The condition of a loop. -/
  | whileCondition
  /-- The word before the body of a loop. -/
  | doWord (condition : Condition)
  /-- The word that completes the branch `statement`. -/
  | closingIf (statement : Statement)
  /-- The word that completes the loop `statement`. -/
  | closingWhile (statement : Statement)

/-- What has been read of a block. -/
structure BlockState where
  /-- The open branches and loops, innermost first. -/
  frames : List Frame
  /-- The statements read of the innermost open block, the latest first. -/
  read : List Statement
  due : Due

/-- The block of statements that were read, the latest first. -/
def blockOf (read : List Statement) : Statement :=
  .block read.reverse

namespace Frame

/-- The word that may follow the innermost body besides a statement. -/
def closer : Frame → Expected
  | thenPart _ _ => .elseOrEnd
  | elsePart _ _ _ => .keyword .endKw
  | loop _ _ => .keyword .endKw

/-- The state after the end of the frame's body, of which `read` holds the statements. -/
def close (read : List Statement) (outer : List Frame) : Frame → BlockState
  | thenPart c before => ⟨outer, before, .closingIf (.ifThen c (blockOf read))⟩
  | elsePart c thenBody before =>
    ⟨outer, before, .closingIf (.ifElse c (blockOf thenBody) (blockOf read))⟩
  | loop c before => ⟨outer, before, .closingWhile (.whileDo c (blockOf read))⟩

end Frame

namespace BlockState

/-- Nothing has been read. -/
def initial : BlockState := ⟨[], [], .statement⟩

/-- The block that has been read, if nothing is open. -/
def finished? : BlockState → Option Statement
  | ⟨[], read, .statement⟩ => some (blockOf read)
  | _ => none

/-- The state after a token, if it can stand here. -/
def step? (s : BlockState) (token : Token) : Option BlockState :=
  match s.due with
  | .statement =>
    match token with
    | .ident name => some { s with read := .call name :: s.read }
    | .keyword .ifKw =>
      if s.frames.length < maxNesting then some { s with due := .ifCondition } else none
    | .keyword .whileKw =>
      if s.frames.length < maxNesting then some { s with due := .whileCondition } else none
    | .keyword .elseKw =>
      match s.frames with
      | .thenPart c before :: outer => some ⟨.elsePart c s.read before :: outer, [], .statement⟩
      | _ => none
    | .keyword .endKw =>
      match s.frames with
      | frame :: outer => some (frame.close s.read outer)
      | [] => none
    | _ => none
  | .ifCondition => token.condition?.map fun c => { s with due := .thenWord c }
  | .thenWord c =>
    if token = .keyword .thenKw then some ⟨.thenPart c s.read :: s.frames, [], .statement⟩
    else none
  | .whileCondition => token.condition?.map fun c => { s with due := .doWord c }
  | .doWord c =>
    if token = .keyword .doKw then some ⟨.loop c s.read :: s.frames, [], .statement⟩ else none
  | .closingIf statement =>
    if token = .keyword .ifKw then some ⟨s.frames, statement :: s.read, .statement⟩ else none
  | .closingWhile statement =>
    if token = .keyword .whileKw then some ⟨s.frames, statement :: s.read, .statement⟩ else none

/-- What is wrong with a token that cannot stand here. -/
def fault (s : BlockState) (token : Token) : Fault :=
  match s.due with
  | .statement =>
    if token.startsStatement then .tooDeep maxNesting
    else
      match s.frames with
      | frame :: _ => .unexpected frame.closer token
      | [] => .unexpected (.keyword .endKw) token
  | .ifCondition => .invalidCondition token
  | .thenWord _ => .unexpected (.keyword .thenKw) token
  | .whileCondition => .invalidCondition token
  | .doWord _ => .unexpected (.keyword .doKw) token
  | .closingIf _ => .unexpected (.keyword .ifKw) token
  | .closingWhile _ => .unexpected (.keyword .whileKw) token

end BlockState

namespace Reader

/-- Reads statements for as long as the next token can start one. -/
def block : Reader BlockState Statement where
  initial := .initial
  result? s token := if token.startsStatement then none else s.finished?
  step? := BlockState.step?
  fault := BlockState.fault

/-- Reads one statement. -/
def statement : Reader BlockState Statement where
  initial := .initial
  result? s _ :=
    match s with
    | ⟨[], [statement], .statement⟩ => some statement
    | _ => none
  step? := BlockState.step?
  fault s token :=
    match s with
    | ⟨[], [], .statement⟩ => .unexpected .statement token
    | s => s.fault token

end Reader

end RobotScript
