import Mathlib.Tactic
import RobotScript.Grammar.Program
import RobotScript.Proofs.BlockReading

/-!
# Reading by recursive descent

The readers are automata. Here the same language is read the other way round, by procedures that
call each other and share a cursor. The cursor goes through the token list, and it counts the
branches and loops that are open; a procedure that fails leaves it where it is, so what it counts
must be set right on the way out.

Each procedure is followed by a reader: it ends in an outcome, and the reader, from the state that
belongs to the place where the procedure begins, gets to the state that belongs to the place where
it ends, or fails with the same error.

## Main definitions

* `Cursor` — a place in a token list, and how many branches and loops are open.
* `Cursor.Advances` — one cursor comes after another.
* `Descent` — a procedure over a cursor.
* `Descent.program`, `Descent.block`, `Descent.statement` — read what their names say.
* `Descent.Follows` — a reader does what a procedure does.

## Main results

* `Cursor.advances_advance`: a cursor does not pass the end of the input.
* `Descent.Follows.bind`: **procedures one after another are followed one after another**.
* `Descent.Follows.take`: a token is passed where the reader accepts the same tokens.
* `Descent.Follows.nested`: opening and closing a branch or loop is nothing to the reader.
-/

namespace RobotScript

/-! ### Cursors -/

/-- A place in a token list. -/
structure Cursor where
  tokens : List Located
  /-- How many tokens have been passed. -/
  pos : Nat
  /-- The place of the token that was passed last. -/
  last : Option Position
  /-- How many branches and loops are open. -/
  depth : Nat
  deriving DecidableEq, Repr

namespace Cursor

/-- The beginning of a token list, with nothing open. -/
def start (tokens : List Located) : Cursor :=
  ⟨tokens, 0, none, 0⟩

/-- The token ahead, if the list has one. -/
def current? (c : Cursor) : Option Located :=
  c.tokens[c.pos]?

/-- The token ahead; beyond the list this is the end of the input. -/
def peek (c : Cursor) : Token :=
  (c.current?.map Located.token).getD .eof

/-- The place of the token ahead; beyond the list that of the token that was passed last. -/
def place (c : Cursor) : Position :=
  ((c.current?.map Located.position).or c.last).getD .start

/-- The cursor behind the token ahead. -/
def advance (c : Cursor) : Cursor :=
  match c.current? with
  | some t => { c with pos := c.pos + 1, last := some t.position }
  | none => c

/-- One more branch or loop is open. -/
def enter (c : Cursor) : Cursor :=
  { c with depth := c.depth + 1 }

/-- One branch or loop fewer is open. -/
def leave (c : Cursor) : Cursor :=
  { c with depth := c.depth - 1 }

/-! ### What is ahead of a cursor -/

/-- The tokens that have not been passed. -/
def rest (c : Cursor) : List Located :=
  c.tokens.drop c.pos

/-- The tokens ahead, up to the end of the input. -/
def ahead (c : Cursor) : List Located :=
  c.rest.takeWhile Feed.isInside

/-- Where the input ends, as far as it is ahead. Behind the last token that is where this token
is. -/
def stop (c : Cursor) : Position :=
  if c.rest = [] then c.last.getD .start else Feed.stopOf c.rest

/-- What a reader is given at the cursor. -/
def feed (c : Cursor) : Feed :=
  ⟨c.ahead, c.stop⟩

variable {c c' c'' : Cursor} {t : Located}

/-- The token ahead is the first of the rest. -/
theorem rest_of_current? (h : c.current? = some t) : c.rest = t :: c.advance.rest := by
  obtain ⟨hlt, rfl⟩ := List.getElem?_eq_some_iff.mp h
  rw [advance, h, rest, rest, List.drop_eq_getElem_cons hlt]

/-- If there is no token ahead, the rest is empty. -/
theorem rest_of_current?_none (h : c.current? = none) : c.rest = [] :=
  List.drop_eq_nil_of_le (List.getElem?_eq_none_iff.mp h)

/-- If the input does not end here, there is a token ahead. -/
theorem exists_current? (h : c.peek ≠ .eof) :
    ∃ t, c.current? = some t ∧ c.peek = t.token ∧ c.place = t.position ∧
      Feed.isInside t = true := by
  cases hcurrent : c.current? with
  | none =>
      rw [peek, hcurrent] at h
      exact absurd rfl h
  | some t =>
      rw [peek, hcurrent] at h
      refine ⟨t, rfl, by rw [peek, hcurrent]; rfl, by rw [place, hcurrent]; rfl, ?_⟩
      simpa [Feed.isInside] using h

/-- Where the input does not end, the token ahead is the first that a reader is given. -/
theorem ahead_of_inside (h : c.peek ≠ .eof) : c.ahead = ⟨c.peek, c.place⟩ :: c.advance.ahead := by
  obtain ⟨t, hcurrent, hpeek, hplace, hinside⟩ := exists_current? h
  rw [ahead, rest_of_current? hcurrent, List.takeWhile_cons_of_pos hinside, hpeek, hplace]
  rfl

/-- Where the input ends, a reader is given no tokens, and the end is here. -/
theorem ahead_of_eof (h : c.peek = .eof) : c.ahead = [] ∧ c.place = c.stop := by
  cases hcurrent : c.current? with
  | none => simp [ahead, place, stop, rest_of_current?_none hcurrent, hcurrent]
  | some t =>
      have htoken : t.token = .eof := by simpa [peek, hcurrent] using h
      simp [ahead, place, stop, Feed.stopOf, rest_of_current? hcurrent, hcurrent, Feed.isInside,
        htoken]

/-- Passing a token inside the input does not move its end. -/
theorem stop_advance (h : c.peek ≠ .eof) : c.advance.stop = c.stop := by
  obtain ⟨t, hcurrent, -, -, hinside⟩ := exists_current? h
  have hlast : c.advance.last = some t.position := by rw [advance, hcurrent]
  rw [stop, stop, rest_of_current? hcurrent, hlast]
  cases hrest : c.advance.rest with
  | nil => simp [Feed.stopOf, hinside]
  | cons u more => simp [Feed.stopOf, hinside]

/-- A token that ends the input. -/
def isEnd (t : Located) : Bool :=
  t.token == .eof

/-- The second cursor comes after the first in the same list. It has not passed the end of the
input, and as many branches and loops are open. -/
structure Advances (c c' : Cursor) : Prop where
  tokens : c'.tokens = c.tokens
  pos : c.pos ≤ c'.pos
  within : c.pos ≤ c.tokens.findIdx isEnd → c'.pos ≤ c.tokens.findIdx isEnd
  depth : c'.depth = c.depth
  stop : c'.stop = c.stop

theorem Advances.refl (c : Cursor) : c.Advances c :=
  ⟨rfl, Nat.le_refl _, id, rfl, rfl⟩

theorem Advances.trans (h : c.Advances c') (h' : c'.Advances c'') : c.Advances c'' where
  tokens := h'.tokens.trans h.tokens
  pos := h.pos.trans h'.pos
  within hpos := by
    have hpos' := h.within hpos
    rw [← h.tokens] at hpos' ⊢
    exact h'.within hpos'
  depth := h'.depth.trans h.depth
  stop := h'.stop.trans h.stop

/-- There is no more ahead of a later cursor. -/
theorem Advances.length_rest_le (h : c.Advances c') : c'.rest.length ≤ c.rest.length := by
  have hpos := h.pos
  rw [rest, rest, h.tokens, List.length_drop, List.length_drop]
  omega

/-- Passing a token inside the input. -/
theorem advances_advance (h : c.peek ≠ .eof) : c.Advances c.advance := by
  obtain ⟨t, hcurrent, -, -, hinside⟩ := exists_current? h
  have hadvance : c.advance = { c with pos := c.pos + 1, last := some t.position } := by
    rw [advance, hcurrent]
  refine ⟨by rw [hadvance], by rw [hadvance]; exact Nat.le_succ _, ?_, by rw [hadvance],
    stop_advance h⟩
  intro hpos
  obtain ⟨hlt, rfl⟩ := List.getElem?_eq_some_iff.mp hcurrent
  have hfirst : ∀ i (hi : i < c.tokens.length), i = c.tokens.findIdx isEnd →
      isEnd c.tokens[i] = true := by
    rintro _ _ rfl
    exact List.findIdx_getElem
  rw [hadvance]
  refine Nat.lt_of_le_of_ne hpos fun heq => ?_
  have hend := hfirst c.pos hlt heq
  rw [isEnd, beq_iff_eq] at hend
  simp [Feed.isInside, hend] at hinside

/-- Passing a token leaves fewer. -/
theorem length_rest_advance (h : c.peek ≠ .eof) : c.advance.rest.length < c.rest.length := by
  obtain ⟨t, hcurrent, -⟩ := exists_current? h
  rw [rest_of_current? hcurrent, List.length_cons]
  omega

end Cursor

/-! ### Procedures -/

/-- A procedure over a cursor. It leaves the cursor somewhere else, whether it fails or not. It has
no outcome if its fuel is used up. -/
abbrev Descent (β : Type) := ExceptT ParseError (StateT Cursor Option) β

namespace Descent

variable {β γ : Type}

/-- The outcome of the procedure at a cursor, and the cursor that it leaves. -/
def runAt (x : Descent β) (c : Cursor) : Option (Except ParseError β × Cursor) :=
  x.run.run c

/-- The fuel is used up. -/
def exhausted : Descent β :=
  ExceptT.mk fun _ => none

/-- Looks at the token ahead. -/
def peek : Descent Token :=
  return (← get).peek

/-- Looks at the place of the token ahead. -/
def place : Descent Position :=
  return (← get).place

/-- Fails at the token ahead. -/
def fail (blame : Token → Fault) : Descent β := do
  let c ← get
  throw (.fault c.place (blame c.peek))

/-- Passes the token ahead, if it is accepted. -/
def take (accept : Token → Option β) (blame : Token → Fault) : Descent β := do
  match accept (← peek) with
  | some b =>
    modify Cursor.advance
    return b
  | none => fail blame

/-- Accepts one token only. -/
def only (due : Token) (token : Token) : Option Unit :=
  if token = due then some () else none

/-- Passes a keyword. -/
def word (k : Keyword) : Descent Unit :=
  take (only (.keyword k)) (.unexpected (.keyword k))

/-- Passes a condition. -/
def condition : Descent Condition :=
  take Token.condition? .invalidCondition

/-- Does a procedure with one more branch or loop open. However the procedure ends, it is closed
then. -/
def nested (x : Descent β) : Descent β := do
  let c ← get
  if c.depth = maxNesting then throw (.fault c.place (.tooDeep maxNesting))
  else ExceptT.mk do
    modify Cursor.enter
    let outcome ← x.run
    modify Cursor.leave
    return outcome

/-- Reads what follows the first body of a branch, up to its end. -/
def alternative (block : Descent Statement) (c : Condition) (thenBody : Statement) :
    Descent Statement := do
  match ← peek with
  | .keyword .elseKw =>
    word .elseKw
    let elseBody ← block
    return .ifElse c thenBody elseBody
  | .keyword .endKw => return .ifThen c thenBody
  | _ => fail (.unexpected .elseOrEnd)

/-- Reads a branch. -/
def branch (block : Descent Statement) : Descent Statement := do
  word .ifKw
  let c ← condition
  word .thenKw
  let thenBody ← block
  let statement ← alternative block c thenBody
  word .endKw
  word .ifKw
  return statement

/-- Reads a loop. -/
def loop (block : Descent Statement) : Descent Statement := do
  word .whileKw
  let c ← condition
  word .doKw
  let body ← block
  word .endKw
  word .whileKw
  return .whileDo c body

/-- The name that a token is. -/
def ident? : Token → Option String
  | .ident name => some name
  | _ => none

/-- Passes a name. -/
def name (due : Expected) : Descent String :=
  take ident? (.unexpected due)

/-- Reads one statement, by a procedure for the blocks in it. -/
def statementWith (block : Descent Statement) : Descent Statement := do
  match ← peek with
  | .keyword .ifKw => nested (branch block)
  | .keyword .whileKw => nested (loop block)
  | .ident _ => .call <$> name .instructionName
  | _ => fail (.unexpected .statement)

/-- Reads statements for as long as the token ahead can start one. -/
def statements : Nat → Descent (List Statement)
  | 0 => exhausted
  | fuel + 1 => do
    if (← peek).startsStatement then
      let first ← statementWith (.block <$> statements fuel)
      let rest ← statements fuel
      return first :: rest
    else return []

/-- Reads a block, up to the word for its end and past it. -/
def endedBlock (fuel : Nat) : Descent Statement := do
  let body ← .block <$> statements fuel
  word .endKw
  return body

/-- Passes the name that closes what was opened with it. -/
def closingName (construct : Construct) (opened : String) : Descent Unit :=
  take (only (.ident opened)) (ProgramState.closingFault construct opened)

/-- What is wrong with the name of an instruction beside those in `defs`. -/
def nameFault? (defs : Definitions) (i : String) : Option Fault :=
  if Action.isName i then some (.primitiveRedefined i)
  else if defs.contains i then some (.duplicateInstruction i)
  else none

/-- Passes the name of an instruction. If something is wrong with it, it has been passed then, but
the error is at its place. -/
def newName (defs : Definitions) : Descent String := do
  let position ← place
  let i ← name .instructionName
  match nameFault? defs i with
  | some fault => throw (.fault position fault)
  | none => return i

/-- Reads an instruction, beside those in `defs`. -/
def instruction (fuel : Nat) (defs : Definitions) : Descent (String × Statement) := do
  word .instructionKw
  let i ← newName defs
  word .isKw
  let body ← endedBlock fuel
  closingName .instruction i
  return (i, body)

/-- Reads instructions for as long as there are more. -/
def instructions : Nat → Definitions → Descent Definitions
  | 0, _ => exhausted
  | fuel + 1, defs => do
    if (← peek) = .keyword .instructionKw then
      let (i, body) ← instruction fuel defs
      instructions fuel (defs.insert i body)
    else return defs

/-- Reads a program, and what is ahead then must be the end of the input. -/
def programWith (fuel : Nat) : Descent Program := do
  word .programKw
  let n ← name .programName
  word .isKw
  let defs ← instructions fuel .empty
  word .beginKw
  let body ← endedBlock fuel
  closingName .program n
  if (← peek) = .eof then return ⟨n, defs, body⟩ else fail .trailingInput

/-- Does a procedure with fuel for every token ahead. -/
def fueled (x : Nat → Descent β) : Descent β := do
  x ((← get).rest.length + 1)

/-- Reads a program. -/
def program : Descent Program :=
  fueled programWith

/-- Reads a block. -/
def block : Descent Statement :=
  fueled fun fuel => .block <$> statements fuel

/-- Reads one statement. -/
def statement : Descent Statement :=
  fueled fun fuel => statementWith (.block <$> statements fuel)

/-! ### Outcomes -/

variable {x : Descent β} {f : β → Descent γ} {c c' : Cursor}

/-- Where the first procedure succeeds, the second goes on. -/
theorem runAt_bind_of_ok {b : β} (h : x.runAt c = some (.ok b, c')) :
    (x >>= f).runAt c = (f b).runAt c' := by
  rw [runAt] at h
  simp [runAt, ExceptT.run_bind, h]

/-- Where the first procedure fails, the second is not begun. -/
theorem runAt_bind_of_error {e : ParseError} (h : x.runAt c = some (.error e, c')) :
    (x >>= f).runAt c = some (.error e, c') := by
  rw [runAt] at h
  simp [runAt, ExceptT.run_bind, h]

theorem runAt_pure (b : β) (c : Cursor) : (pure b : Descent β).runAt c = some (.ok b, c) := rfl

theorem runAt_peek (c : Cursor) : peek.runAt c = some (.ok c.peek, c) := rfl

theorem runAt_place (c : Cursor) : place.runAt c = some (.ok c.place, c) := rfl

theorem runAt_fail (blame : Token → Fault) (c : Cursor) :
    (fail blame : Descent β).runAt c = some (.error (.fault c.place (blame c.peek)), c) := rfl

theorem runAt_take_of_some {accept : Token → Option β} {blame : Token → Fault} {b : β}
    (h : accept c.peek = some b) : (take accept blame).runAt c = some (.ok b, c.advance) := by
  rw [take, runAt_bind_of_ok (runAt_peek c), h]
  rfl

theorem runAt_take_of_none {accept : Token → Option β} {blame : Token → Fault}
    (h : accept c.peek = none) :
    (take accept blame).runAt c = some (.error (.fault c.place (blame c.peek)), c) := by
  rw [take, runAt_bind_of_ok (runAt_peek c), h]
  rfl

theorem runAt_fueled (x : Nat → Descent β) (c : Cursor) :
    (fueled x).runAt c = (x (c.rest.length + 1)).runAt c := rfl

theorem runAt_nested_of_full (h : c.depth = maxNesting) :
    (nested x).runAt c = some (.error (.fault c.place (.tooDeep maxNesting)), c) := by
  change (if c.depth = maxNesting then _ else _ : Descent β).runAt c = _
  rw [if_pos h]
  rfl

theorem runAt_nested {outcome : Except ParseError β} (hroom : c.depth ≠ maxNesting)
    (h : x.runAt c.enter = some (outcome, c')) :
    (nested x).runAt c = some (outcome, c'.leave) := by
  change (if c.depth = maxNesting then _ else _ : Descent β).runAt c = _
  rw [if_neg hroom]
  change x.run.run c.enter = _ at h
  simp [runAt, h]

/-! ### Readers that follow a procedure -/

variable {σ α : Type} {r : Reader σ α} {s s' : σ} {mid post : β → σ → Cursor → Prop}

/-- The procedure has an outcome at the cursor `c`, and from the state `s` the reader does the same
with the tokens ahead. If the procedure succeeds, the reader gets to a state at the cursor that the
procedure leaves, as `post` says. If it fails, the reader fails with the same error and leaves the
same tokens. -/
inductive Follows (r : Reader σ α) (s : σ) (c : Cursor) (x : Descent β)
    (post : β → σ → Cursor → Prop) : Prop
  | ok {b : β} {s' : σ} {c' : Cursor} : x.runAt c = some (.ok b, c') → c.Advances c' →
      r.runFrom c.stop s c.ahead = r.runFrom c.stop s' c'.ahead → post b s' c' →
      Follows r s c x post
  | error {e : ParseError} {c' : Cursor} : x.runAt c = some (.error e, c') → c.Advances c' →
      r.runFrom c.stop s c.ahead = (.error e, c'.ahead) → Follows r s c x post

/-- The reader follows the procedure to the state that belongs to its result, and tokens have been
passed then. -/
abbrev Passes (r : Reader σ α) (s : σ) (c : Cursor) (x : Descent β) (next : β → σ) : Prop :=
  Follows r s c x fun b s' c' => s' = next b ∧ c'.rest.length < c.rest.length

/-- Nothing is read. -/
theorem Follows.pure {b : β} (h : post b s c) : Follows r s c (pure b) post :=
  .ok (runAt_pure b c) (.refl c) rfl h

/-- What holds at the end can be weakened. -/
theorem Follows.imp (h : Follows r s c x mid)
    (himp : ∀ b s' c', mid b s' c' → post b s' c') : Follows r s c x post := by
  cases h with
  | ok hrun hadvances hread hmid => exact .ok hrun hadvances hread (himp _ _ _ hmid)
  | error hrun hadvances hread => exact .error hrun hadvances hread

/-- **Procedures one after another are followed one after another.** -/
theorem Follows.bind {post : γ → σ → Cursor → Prop} (h : Follows r s c x mid)
    (hf : ∀ b s' c', c.Advances c' → mid b s' c' → Follows r s' c' (f b) post) :
    Follows r s c (x >>= f) post := by
  cases h with
  | error hrun hadvances hread => exact .error (runAt_bind_of_error hrun) hadvances hread
  | ok hrun hadvances hread hmid =>
      cases hf _ _ _ hadvances hmid with
      | ok hrun' hadvances' hread' hpost =>
          rw [hadvances.stop] at hread'
          exact .ok ((runAt_bind_of_ok hrun).trans hrun') (hadvances.trans hadvances')
            (hread.trans hread') hpost
      | error hrun' hadvances' hread' =>
          rw [hadvances.stop] at hread'
          exact .error ((runAt_bind_of_ok hrun).trans hrun') (hadvances.trans hadvances')
            (hread.trans hread')

/-- The result of a procedure is changed. -/
theorem Follows.map {g : β → γ} {post : γ → σ → Cursor → Prop} (h : Follows r s c x mid)
    (hpost : ∀ b s' c', mid b s' c' → post (g b) s' c') : Follows r s c (g <$> x) post := by
  rw [← bind_pure_comp]
  exact h.bind fun b s' c' _ hmid => .pure (hpost b s' c' hmid)

/-- Procedures with the same outcome are followed alike. -/
theorem Follows.of_runAt_eq {y : Descent β} (hrun : x.runAt c = y.runAt c)
    (h : Follows r s c y post) : Follows r s c x post := by
  cases h with
  | ok hrun' hadvances hread hpost => exact .ok (hrun.trans hrun') hadvances hread hpost
  | error hrun' hadvances hread => exact .error (hrun.trans hrun') hadvances hread

/-- A look at the token ahead. -/
theorem Follows.peek {f : Token → Descent β} (h : Follows r s c (f c.peek) post) :
    Follows r s c (peek >>= f) post :=
  .of_runAt_eq (runAt_bind_of_ok (runAt_peek c)) h

/-- The reader reads the token ahead. -/
theorem runFrom_of_step (hinside : c.peek ≠ .eof) (hresult : r.result? s c.peek = none)
    (hstep : r.step? s c.peek = some s') :
    r.runFrom c.stop s c.ahead = r.runFrom c.stop s' c.advance.ahead := by
  rw [Cursor.ahead_of_inside hinside, Reader.runFrom, hresult, hstep]

/-- The reader finds the token ahead at fault. -/
theorem runFrom_of_fault (hresult : r.result? s c.peek = none) (hstep : r.step? s c.peek = none)
    (hkeeps : (r.fault s c.peek).consumesToken = false) :
    r.runFrom c.stop s c.ahead = (.error (.fault c.place (r.fault s c.peek)), c.ahead) := by
  by_cases heof : c.peek = .eof
  · obtain ⟨hahead, hplace⟩ := Cursor.ahead_of_eof heof
    rw [heof] at hresult
    rw [hahead, Reader.runFrom, hresult, hplace, heof]
  · rw [Cursor.ahead_of_inside heof, Reader.runFrom, hresult, hstep]
    simp [hkeeps]

/-- A failure where the reader finds the token ahead at fault. -/
theorem Follows.fail {blame : Token → Fault} (hresult : r.result? s c.peek = none)
    (hstep : r.step? s c.peek = none) (hfault : r.fault s c.peek = blame c.peek)
    (hkeeps : (blame c.peek).consumesToken = false) : Follows r s c (fail blame) post := by
  rw [← hfault] at hkeeps
  refine .error (runAt_fail blame c) (.refl c) ?_
  rw [runFrom_of_fault hresult hstep hkeeps, hfault]

/-- A token is passed where the reader accepts the same tokens. -/
theorem Follows.take {accept : Token → Option β} {blame : Token → Fault} (next : β → σ)
    (heof : accept .eof = none) (hresult : r.result? s c.peek = none)
    (hstep : r.step? s c.peek = (accept c.peek).map next)
    (hfault : accept c.peek = none → r.fault s c.peek = blame c.peek)
    (hkeeps : (blame c.peek).consumesToken = false) :
    Passes r s c (take accept blame) next := by
  cases haccept : accept c.peek with
  | some b =>
      have hinside : c.peek ≠ .eof := by
        rintro hpeek
        rw [hpeek, heof] at haccept
        cases haccept
      rw [haccept] at hstep
      exact .ok (runAt_take_of_some haccept) (Cursor.advances_advance hinside)
        (runFrom_of_step hinside hresult hstep) ⟨rfl, Cursor.length_rest_advance hinside⟩
  | none =>
      rw [haccept] at hstep
      have hread := runFrom_of_fault hresult hstep ((hfault haccept).symm ▸ hkeeps)
      rw [hfault haccept] at hread
      exact .error (runAt_take_of_none haccept) (.refl c) hread

/-- A keyword is passed where the reader accepts only this one. -/
theorem Follows.word {k : Keyword} (hresult : r.result? s c.peek = none)
    (hstep : r.step? s c.peek = if c.peek = .keyword k then some s' else none)
    (hfault : c.peek ≠ .keyword k → r.fault s c.peek = .unexpected (.keyword k) c.peek) :
    Passes r s c (word k) fun _ => s' := by
  refine .take (fun _ => s') rfl hresult ?_ (fun hnone => hfault fun hpeek => ?_) rfl
  · rw [hstep, only]
    split_ifs <;> rfl
  · rw [only, if_pos hpeek] at hnone
    cases hnone

/-- Opening a branch or loop and closing it again is nothing to the reader. -/
theorem Follows.nested (hroom : c.depth ≠ maxNesting) (h : Follows r s c.enter x mid)
    (hpost : ∀ b s' c', mid b s' c' → post b s' c'.leave) : Follows r s c (nested x) post := by
  have hleave : ∀ {c' : Cursor}, c.enter.Advances c' → c.Advances c'.leave := fun h =>
    ⟨h.tokens, h.pos, h.within, by rw [Cursor.leave, h.depth]; rfl, h.stop⟩
  cases h with
  | ok hrun hadvances hread hmid =>
      exact .ok (runAt_nested hroom hrun) (hleave hadvances) hread (hpost _ _ _ hmid)
  | error hrun hadvances hread =>
      exact .error (runAt_nested hroom hrun) (hleave hadvances) hread

end Descent

end RobotScript
