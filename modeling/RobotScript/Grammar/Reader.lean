import RobotScript.Grammar.Error

/-!
# Reading tokens one by one

A reader is an automaton over tokens. In each state it may be finished, depending on the token that
comes next, and leave that token alone; otherwise it moves to another state with that token, or the
token is at fault. Tokens are taken from a feed, which ends at the first end-of-input token. The
feed that is left after reading, whether it succeeded or not, can be read further.

## Main definitions

* `Feed` — the tokens still to be read.
* `Reader` — an automaton over tokens.
* `Reader.run` — its result on a feed, and the feed that is left.
-/

namespace RobotScript

/-- The tokens still to be read, and the place of the end of the input. -/
structure Feed where
  tokens : List Located
  stop : Position
  deriving DecidableEq, Repr

namespace Feed

/-- The token does not end the input. -/
def isInside (t : Located) : Bool :=
  t.token != .eof

/-- Where a token list ends: at its first end-of-input token. A list without one ends at its last
token, and the empty list where a source begins. -/
def stopOf (tokens : List Located) : Position :=
  match tokens.find? (fun t => !isInside t) with
  | some t => t.position
  | none => (tokens.getLast?.map Located.position).getD .start

/-- The feed of a token list: its tokens up to the first end of input. -/
def ofTokens (tokens : List Located) : Feed :=
  ⟨tokens.takeWhile isInside, stopOf tokens⟩

end Feed

/-- An automaton over tokens with states `σ` and results `α`. -/
structure Reader (σ α : Type) where
  /-- The state before the first token. -/
  initial : σ
  /-- The result of reading, if it is complete when this token comes next. -/
  result? : σ → Token → Option α
  /-- The state after reading this token, if it can stand here. -/
  step? : σ → Token → Option σ
  /-- What is wrong with this token, if it cannot stand here. -/
  fault : σ → Token → Fault

namespace Reader

variable {σ α : Type}

/-- The outcome of reading on from a state, and the tokens that are left. A token at fault is left
as well, unless its fault says otherwise. -/
def runFrom (r : Reader σ α) (stop : Position) (s : σ) :
    List Located → Except ParseError α × List Located
  | [] =>
    match r.result? s .eof with
    | some a => (.ok a, [])
    | none => (.error (.fault stop (r.fault s .eof)), [])
  | t :: rest =>
    match r.result? s t.token with
    | some a => (.ok a, t :: rest)
    | none =>
      match r.step? s t.token with
      | some s' => r.runFrom stop s' rest
      | none =>
        let f := r.fault s t.token
        (.error (.fault t.position f), if f.consumesToken then rest else t :: rest)

/-- The outcome of reading a feed, and the feed that is left. -/
def run (r : Reader σ α) (feed : Feed) : Except ParseError α × Feed :=
  let (outcome, rest) := r.runFrom feed.stop r.initial feed.tokens
  (outcome, { feed with tokens := rest })

end Reader

end RobotScript
