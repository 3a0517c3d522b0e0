import Mathlib.Tactic
import RobotScript.Proofs.DescentReading

/-!
# Reading on after reading

One token list can be read by several calls, for a program, a block or a statement, each of which
begins where the call before has stopped, be it with a result or with an error. A call by recursive
descent leaves nothing behind but the place that it has reached: however deep inside branches and
loops it failed, nothing is open after it. So the next call does what it would do at the beginning
of the tokens that are left, and so does the reader.

## Main definitions

* `Call` — what is asked for.
* `Call.parse`, `Call.read` — a call by recursive descent, and by a reader.
* `Cursor.after?`, `Feed.after` — what is left after calls, by recursive descent and by readers.

## Main results

* `Descent.program_run_eq`, `Descent.block_run_eq`, `Descent.statement_run_eq`: **the procedures and
  the readers read the same**.
* `Call.exists_after?`: after any calls nothing is open, and the readers have the same left.
* `Call.parse_after_calls`: **a call after others is as good as the first**.
-/

namespace RobotScript

namespace Descent

variable {σ α : Type} {c : Cursor} {r : Reader σ α} {s : σ}

/-! ### The procedures and the readers -/

/-- The reader is finished before the token ahead. -/
theorem runFrom_of_result {a : α} (h : r.result? s c.peek = some a) :
    r.runFrom c.stop s c.ahead = (.ok a, c.ahead) := by
  by_cases heof : c.peek = .eof
  · rw [heof] at h
    rw [(Cursor.ahead_of_eof heof).1, Reader.runFrom, h]
  · rw [Cursor.ahead_of_inside heof, Reader.runFrom, h]

/-- A procedure that the reader follows to a result has the outcome of the reader, and leaves the
cursor at what the reader leaves. -/
theorem Follows.run_eq {x : Descent α}
    (h : Follows r r.initial c x fun a s' c' => r.result? s' c'.peek = some a) :
    ∃ outcome c', x.runAt c = some (outcome, c') ∧ c.Advances c' ∧
      r.run c.feed = (outcome, c'.feed) := by
  cases h with
  | ok hrun hadvances hread hresult =>
      rw [← hadvances.stop, runFrom_of_result hresult, hadvances.stop] at hread
      refine ⟨_, _, hrun, hadvances, ?_⟩
      rw [Reader.run, Cursor.feed, Cursor.feed, hadvances.stop]
      simp only [hread]
  | error hrun hadvances hread =>
      refine ⟨_, _, hrun, hadvances, ?_⟩
      rw [Reader.run, Cursor.feed, Cursor.feed, hadvances.stop]
      simp only [hread]

/-- **The procedure for programs is the reader of programs**, if nothing is open. -/
theorem program_run_eq (hdepth : c.depth = 0) :
    ∃ outcome c', program.runAt c = some (outcome, c') ∧ c.Advances c' ∧
      Reader.program.run c.feed = (outcome, c'.feed) := by
  have hprogram := follows_program hdepth (Nat.lt_succ_self _)
  refine Follows.run_eq (.of_runAt_eq (runAt_fueled _ c) (hprogram.imp ?_))
  rintro p _ c' ⟨rfl, hpeek⟩
  rw [hpeek]
  rfl

/-- **The procedure for blocks is the reader of blocks**, if nothing is open. -/
theorem block_run_eq (hdepth : c.depth = 0) :
    ∃ outcome c', block.runAt c = some (outcome, c') ∧ c.Advances c' ∧
      Reader.block.run c.feed = (outcome, c'.feed) := by
  have hstatements := hosts_block.follows_statements [] [] (fun _ _ hstart => if_pos hstart) hdepth
    (by omega) (Nat.lt_succ_self c.rest.length)
  refine Follows.run_eq (.of_runAt_eq (runAt_fueled _ c) (hstatements.asBlock.imp ?_))
  rintro _ _ c' ⟨read, rfl, rfl, hstart⟩
  simp [Reader.block, hstart, BlockState.finished?]

/-- **The procedure for a statement is the reader of single statements**, if nothing is open. -/
theorem statement_run_eq (hdepth : c.depth = 0) :
    ∃ outcome c', statement.runAt c = some (outcome, c') ∧ c.Advances c' ∧
      Reader.statement.run c.feed = (outcome, c'.feed) := by
  refine Follows.run_eq (.of_runAt_eq (runAt_fueled _ c) ?_)
  by_cases hstart : c.peek.startsStatement = true
  · have hstatement := hosts_statement.follows_statement
      (hosts_statement.readsBodies (c.rest.length + 1)) [] [] hstart rfl hdepth (by omega)
      (Nat.le_succ _)
    refine hstatement.imp ?_
    rintro statement _ c' ⟨rfl, -⟩
    rfl
  · -- no statement begins here
    refine .peek ?_
    split
    · next hpeek => simp [hpeek, Token.startsStatement] at hstart
    · next hpeek => simp [hpeek, Token.startsStatement] at hstart
    · next hpeek => simp [hpeek, Token.startsStatement] at hstart
    · exact .fail rfl (step?_of_nil (by simpa using hstart)) rfl rfl

end Descent

/-! ### Calls -/

/-- What is asked for. -/
inductive Call where
  | program
  | block
  | statement
  deriving DecidableEq, Repr

namespace Call

/-- What a call gives if it succeeds. -/
def Result : Call → Type
  | program => Program
  | block => Statement
  | statement => Statement

/-- A call by recursive descent. -/
def parse : (call : Call) → Descent call.Result
  | program => Descent.program
  | block => Descent.block
  | statement => Descent.statement

/-- A call by a reader. -/
def read : (call : Call) → Feed → Except ParseError call.Result × Feed
  | program => Reader.program.run
  | block => Reader.block.run
  | statement => Reader.statement.run

end Call

/-- The cursor after calls one after another, whatever comes of them. -/
def Cursor.after? (c : Cursor) : List Call → Option Cursor
  | [] => some c
  | call :: calls => (call.parse.runAt c).bind fun result => result.2.after? calls

/-- What is left of a feed after calls one after another, whatever comes of them. -/
def Feed.after (feed : Feed) (calls : List Call) : Feed :=
  calls.foldl (fun feed call => (call.read feed).2) feed

namespace Call

variable {c c' : Cursor}

/-- **A call has an outcome, and the reader has the same**, if nothing is open. The cursor goes on
to what the reader leaves, and nothing is open then. -/
theorem parse_eq_read (call : Call) (hdepth : c.depth = 0) :
    ∃ outcome c', call.parse.runAt c = some (outcome, c') ∧ c.Advances c' ∧
      call.read c.feed = (outcome, c'.feed) := by
  cases call with
  | program => exact Descent.program_run_eq hdepth
  | block => exact Descent.block_run_eq hdepth
  | statement => exact Descent.statement_run_eq hdepth

/-- **After any calls nothing is open, and the readers have the same left.** -/
theorem exists_after? (calls : List Call) (hdepth : c.depth = 0) :
    ∃ c', c.after? calls = some c' ∧ c.Advances c' ∧ c.feed.after calls = c'.feed := by
  induction calls generalizing c with
  | nil => exact ⟨c, rfl, .refl c, rfl⟩
  | cons call calls ih =>
      obtain ⟨outcome, c₁, hrun, hadvances₁, hread⟩ := call.parse_eq_read hdepth
      obtain ⟨c₂, hafter, hadvances₂, hfeed⟩ := ih (hadvances₁.depth.trans hdepth)
      refine ⟨c₂, ?_, hadvances₁.trans hadvances₂, ?_⟩
      · rw [Cursor.after?, hrun]
        exact hafter
      · rw [Feed.after, List.foldl_cons, hread]
        exact hfeed

end Call

namespace Cursor

/-- At the beginning of a token list a reader is given its feed. -/
theorem feed_start (tokens : List Located) : (start tokens).feed = .ofTokens tokens := by
  cases tokens with
  | nil => rfl
  | cons t rest => rfl

/-- If there is more ahead, a reader is given the feed of what is ahead. -/
theorem feed_of_rest_ne_nil {c : Cursor} (h : c.rest ≠ []) : c.feed = .ofTokens c.rest := by
  rw [feed, stop, if_neg h]
  rfl

end Cursor

/-- **A call after others is as good as the first.** Let a token list have an end of input, and let
there be any calls on it, one after another, whatever comes of them. Then nothing is open, and the
cursor is not behind the first end of input. The next call, for whatever it may ask, has an outcome,
does not go back, and has the same outcome on the tokens that are left, taken as a list of their
own; and all this is so by recursive descent as well as by the readers. -/
theorem Call.parse_after_calls {ts : List Located} (hend : ∃ t ∈ ts, t.token = .eof)
    (calls : List Call) :
    ∃ c, (Cursor.start ts).after? calls = some c ∧ c.tokens = ts ∧ c.depth = 0 ∧
      c.pos ≤ ts.findIdx Cursor.isEnd ∧
      (Feed.ofTokens ts).after calls = .ofTokens (ts.drop c.pos) ∧
      ∀ call : Call, ∃ outcome c' fresh,
        call.parse.runAt c = some (outcome, c') ∧ c.pos ≤ c'.pos ∧
        call.parse.runAt (.start (ts.drop c.pos)) = some (outcome, fresh) ∧
        (call.read ((Feed.ofTokens ts).after calls)).1 = outcome := by
  obtain ⟨c, hafter, hadvances, hfeed⟩ := exists_after? (c := .start ts) calls rfl
  have htokens : c.tokens = ts := hadvances.tokens
  have hwithin : c.pos ≤ ts.findIdx Cursor.isEnd := hadvances.within (Nat.zero_le _)
  -- the first end of input is still ahead
  have hrest : c.rest = ts.drop c.pos := congrArg (List.drop c.pos) htokens
  have hlength : ts.findIdx Cursor.isEnd < ts.length := by
    obtain ⟨t, hmem, htoken⟩ := hend
    exact List.findIdx_lt_length_of_exists ⟨t, hmem, by simp [Cursor.isEnd, htoken]⟩
  have hne : c.rest ≠ [] := by
    rw [hrest, ne_eq, List.drop_eq_nil_iff]
    omega
  have hleft : c.feed = .ofTokens (ts.drop c.pos) := by
    rw [Cursor.feed_of_rest_ne_nil hne, hrest]
  rw [Cursor.feed_start, hleft] at hfeed
  refine ⟨c, hafter, htokens, hadvances.depth, hwithin, hfeed, fun call => ?_⟩
  obtain ⟨outcome, c', hrun, hadvances', hread⟩ := call.parse_eq_read hadvances.depth
  obtain ⟨outcome', fresh, hrun', -, hread'⟩ :=
    call.parse_eq_read (c := .start (ts.drop c.pos)) rfl
  rw [hleft] at hread
  rw [Cursor.feed_start, hread] at hread'
  obtain ⟨rfl, -⟩ := Prod.mk.inj hread'
  exact ⟨outcome, c', fresh, hrun, hadvances'.pos, hrun', by rw [hfeed, hread]⟩

/-- A branch that breaks off after the body of a loop in it, and two calls. -/
def brokenOff : List Located :=
  [⟨.keyword .ifKw, ⟨1, 1⟩⟩, ⟨.condition .random, ⟨1, 4⟩⟩, ⟨.keyword .thenKw, ⟨1, 11⟩⟩,
    ⟨.keyword .whileKw, ⟨2, 3⟩⟩, ⟨.condition .always, ⟨2, 9⟩⟩, ⟨.keyword .doKw, ⟨2, 14⟩⟩,
    ⟨.ident "move", ⟨2, 17⟩⟩, ⟨.keyword .endKw, ⟨2, 22⟩⟩, ⟨.ident "hop", ⟨3, 1⟩⟩,
    ⟨.ident "turnleft", ⟨3, 5⟩⟩, ⟨.eof, ⟨4, 1⟩⟩]

/-- The calls for a statement and for a program fail, the first inside the loop. Nothing is open
after them, and the block of the two calls is read. -/
theorem Call.parse_after_calls_brokenOff :
    ∃ c c', (Cursor.start brokenOff).after? [.statement, .program] = some c ∧ c.depth = 0 ∧
      c.pos = 8 ∧
      Call.block.parse.runAt c = some (.ok (.block [.call "hop", .call "turnleft"]), c') := by
  have hend : ∃ t ∈ brokenOff, t.token = .eof := ⟨⟨.eof, ⟨4, 1⟩⟩, by simp [brokenOff], rfl⟩
  obtain ⟨c, hafter, -, hdepth, -, -, hnext⟩ := parse_after_calls hend [.statement, .program]
  have hcursor : (Cursor.start brokenOff).after? [.statement, .program] =
      some ⟨brokenOff, 8, some ⟨2, 22⟩, 0⟩ := by decide +kernel
  have hpos : c.pos = 8 := by
    rw [Option.some.inj (hafter.symm.trans hcursor)]
  obtain ⟨outcome, c', -, hrun, -, -, hread⟩ := hnext .block
  have hblock : (Call.block.read ((Feed.ofTokens brokenOff).after [.statement, .program])).1 =
      .ok (.block [.call "hop", .call "turnleft"]) := by cbv
  rw [← hread, hblock] at hrun
  exact ⟨c, c', hafter, hdepth, hpos, hrun⟩

end RobotScript
