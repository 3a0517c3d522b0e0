import RobotScript.Grammar.Block
import RobotScript.Proofs.Derivation
import RobotScript.Proofs.Reading

/-!
# Reading blocks by the grammar

The reader of blocks is an automaton with a stack of open branches and loops. Whatever it has read
at some moment is described by derivation trees: a block for each open body, and what there is of
the statement that is under way. Each step keeps such a description, so that a complete block has
been derived when nothing is open any more. In the other direction the reader gets through the yield
of every tree whose nesting leaves it room.

## Main definitions

* `BlockState.Step` — the transitions of the reader, one by one.
* `BlockState.Explains` — what has been read, as trees.

## Main results

* `BlockState.step?_eq_some_iff`: the reader makes those transitions and no others.
* `BlockState.Explains.step`, `BlockState.Explains.run`: **the description is kept**, by a step and
  by any number of steps.
* `BlockState.after?_tokens`: the reader gets through the yield of a statement.
* `BlockState.exists_finished_iff`: **exactly the yields of blocks are read as blocks**.
-/

namespace RobotScript

open StatementTree

namespace BlockState

/-! ### The transitions -/

/-- The transitions of the reader. -/
inductive Step : BlockState → Token → BlockState → Prop
  /-- A name is a call. -/
  | call (frames read name) :
      Step ⟨frames, read, .statement⟩ (.ident name) ⟨frames, .call name :: read, .statement⟩
  /-- A branch begins, if there is room for one. -/
  | ifWord (frames read) : frames.length < maxNesting →
      Step ⟨frames, read, .statement⟩ (.keyword .ifKw) ⟨frames, read, .ifCondition⟩
  | ifGuard (frames read) (g : Guard) :
      Step ⟨frames, read, .ifCondition⟩ g.token ⟨frames, read, .thenWord g.condition⟩
  | thenWord (frames read c) :
      Step ⟨frames, read, .thenWord c⟩ (.keyword .thenKw)
        ⟨.thenPart c read :: frames, [], .statement⟩
  | elseWord (frames read c before) :
      Step ⟨.thenPart c before :: frames, read, .statement⟩ (.keyword .elseKw)
        ⟨.elsePart c read before :: frames, [], .statement⟩
  /-- A loop begins, if there is room for one. -/
  | whileWord (frames read) : frames.length < maxNesting →
      Step ⟨frames, read, .statement⟩ (.keyword .whileKw) ⟨frames, read, .whileCondition⟩
  | whileGuard (frames read) (g : Guard) :
      Step ⟨frames, read, .whileCondition⟩ g.token ⟨frames, read, .doWord g.condition⟩
  | doWord (frames read c) :
      Step ⟨frames, read, .doWord c⟩ (.keyword .doKw) ⟨.loop c read :: frames, [], .statement⟩
  /-- The innermost open body ends. -/
  | endWord (frame frames read) :
      Step ⟨frame :: frames, read, .statement⟩ (.keyword .endKw) (frame.close read frames)
  | closingIf (frames read s) :
      Step ⟨frames, read, .closingIf s⟩ (.keyword .ifKw) ⟨frames, s :: read, .statement⟩
  | closingWhile (frames read s) :
      Step ⟨frames, read, .closingWhile s⟩ (.keyword .whileKw) ⟨frames, s :: read, .statement⟩

/-- A token that stands for a condition is a guard. -/
theorem exists_guard {token : Token} {c : Condition} (h : token.condition? = some c) :
    ∃ g : Guard, g.token = token ∧ g.condition = c := by
  cases token with
  | condition c' => exact ⟨.exact c', rfl, Option.some.inj h⟩
  | ident word => exact ⟨.ident word c h, rfl, rfl⟩
  | other word => exact ⟨.other word c h, rfl, rfl⟩
  | keyword k => cases h
  | comment text => cases h
  | newline => cases h
  | eof => cases h

/-- A guard stands for its condition. -/
theorem condition?_token (g : Guard) : g.token.condition? = some g.condition := by
  cases g with
  | exact c => rfl
  | ident word c spelled => exact spelled
  | other word c spelled => exact spelled

/-- Where a statement is due, these tokens can stand. -/
theorem step_of_statement {frames : List Frame} {read : List Statement} {token : Token}
    {s' : BlockState} (h : step? ⟨frames, read, .statement⟩ token = some s') :
    Step ⟨frames, read, .statement⟩ token s' := by
  cases token with
  | ident name =>
      obtain rfl := Option.some.inj h
      exact .call frames read name
  | keyword k =>
      cases k with
      | ifKw =>
          by_cases hroom : frames.length < maxNesting
          · simp only [step?, hroom, if_true, Option.some.injEq] at h
            obtain rfl := h
            exact .ifWord frames read hroom
          · simp [step?, hroom] at h
      | whileKw =>
          by_cases hroom : frames.length < maxNesting
          · simp only [step?, hroom, if_true, Option.some.injEq] at h
            obtain rfl := h
            exact .whileWord frames read hroom
          · simp [step?, hroom] at h
      | elseKw =>
          rcases frames with - | ⟨⟨c, before⟩ | ⟨c, thenBody, before⟩ | ⟨c, before⟩, outer⟩
          · cases h
          · obtain rfl := Option.some.inj h
            exact .elseWord outer read c before
          · cases h
          · cases h
      | endKw =>
          rcases frames with - | ⟨frame, outer⟩
          · cases h
          · obtain rfl := Option.some.inj h
            exact .endWord frame outer read
      | programKw => cases h
      | isKw => cases h
      | beginKw => cases h
      | instructionKw => cases h
      | thenKw => cases h
      | doKw => cases h
  | condition c => cases h
  | other text => cases h
  | comment text => cases h
  | newline => cases h
  | eof => cases h

/-- **The reader makes these transitions and no others.** -/
theorem step?_eq_some_iff {s s' : BlockState} {token : Token} :
    s.step? token = some s' ↔ Step s token s' := by
  constructor
  · intro h
    obtain ⟨frames, read, due⟩ := s
    cases due with
    | statement => exact step_of_statement h
    | ifCondition =>
        obtain ⟨c, hc, rfl⟩ := Option.map_eq_some_iff.mp h
        obtain ⟨g, rfl, rfl⟩ := exists_guard hc
        exact .ifGuard frames read g
    | whileCondition =>
        obtain ⟨c, hc, rfl⟩ := Option.map_eq_some_iff.mp h
        obtain ⟨g, rfl, rfl⟩ := exists_guard hc
        exact .whileGuard frames read g
    | thenWord c =>
        obtain ⟨rfl, rfl⟩ : token = .keyword .thenKw ∧ _ = s' := by simpa [step?] using h
        exact .thenWord frames read c
    | doWord c =>
        obtain ⟨rfl, rfl⟩ : token = .keyword .doKw ∧ _ = s' := by simpa [step?] using h
        exact .doWord frames read c
    | closingIf t =>
        obtain ⟨rfl, rfl⟩ : token = .keyword .ifKw ∧ _ = s' := by simpa [step?] using h
        exact .closingIf frames read t
    | closingWhile t =>
        obtain ⟨rfl, rfl⟩ : token = .keyword .whileKw ∧ _ = s' := by simpa [step?] using h
        exact .closingWhile frames read t
  · intro h
    cases h with
    | call | thenWord | elseWord | doWord | endWord | closingIf | closingWhile => rfl
    | ifWord frames read hroom => simp [step?, hroom]
    | whileWord frames read hroom => simp [step?, hroom]
    | ifGuard frames read g => simp [step?, condition?_token]
    | whileGuard frames read g => simp [step?, condition?_token]

/-- The reader is stuck where it has no transition. -/
theorem step?_eq_none_iff {s : BlockState} {token : Token} :
    s.step? token = none ↔ ∀ s', ¬ Step s token s' := by
  simp only [Option.eq_none_iff_forall_ne_some, ne_eq, step?_eq_some_iff]

/-- A block is not complete before a token with which it goes on. -/
theorem Step.result?_eq_none {s s' : BlockState} {token : Token} (h : Step s token s') :
    Reader.block.result? s token = none := by
  cases h with
  | call | ifWord | whileWord => rfl
  | ifGuard | whileGuard | thenWord | elseWord | doWord | endWord | closingIf | closingWhile =>
      simp [Reader.block, finished?]

/-- A run begins with a transition. -/
theorem after?_cons {s s' : BlockState} {token : Token} (h : Step s token s')
    (rest : List Token) :
    Reader.block.after? s (token :: rest) = Reader.block.after? s' rest :=
  Reader.after?_cons_of_step (step?_eq_some_iff.mpr h) rest

/-! ### From trees to runs -/

/-- The statements of a block, the latest first, make up the block. -/
theorem blockOf_reverse (body : List StatementTree) :
    blockOf (body.map statement).reverse = block body := by
  rw [blockOf, List.reverse_reverse, block]

/-- The reader gets through a block for which there is room, if it gets through each of its
statements. -/
theorem after?_blockTokens_of {body : List StatementTree}
    (ih : ∀ t ∈ body, ∀ frames, t.statement.nesting + frames.length ≤ maxNesting → ∀ read,
      Reader.block.after? ⟨frames, read, .statement⟩ t.tokens =
        some ⟨frames, t.statement :: read, .statement⟩)
    (frames : List Frame) (hroom : (block body).nesting + frames.length ≤ maxNesting)
    (read : List Statement) :
    Reader.block.after? ⟨frames, read, .statement⟩ (blockTokens body) =
      some ⟨frames, (body.map statement).reverse ++ read, .statement⟩ := by
  induction body generalizing read with
  | nil => rfl
  | cons t body ihBody =>
      rw [nesting_block_cons] at hroom
      have hhead := ih t List.mem_cons_self frames (by omega) read
      have htail := ihBody (fun u hu => ih u (List.mem_cons_of_mem t hu)) (by omega)
        (t.statement :: read)
      rw [blockTokens, List.flatMap_cons, Reader.after?_append_of hhead, ← blockTokens, htail]
      simp

/-- **The reader gets through the yield of a statement** and has then read the statement, if there
is room for its nesting. -/
theorem after?_tokens (t : StatementTree) (frames : List Frame)
    (hroom : t.statement.nesting + frames.length ≤ maxNesting) (read : List Statement) :
    Reader.block.after? ⟨frames, read, .statement⟩ t.tokens =
      some ⟨frames, t.statement :: read, .statement⟩ := by
  induction t using StatementTree.induction generalizing frames read with
  | call name =>
      rw [tokens, after?_cons (.call frames read name), statement]
      rfl
  | ifThen g body ih =>
      rw [statement, Statement.nesting, ← block] at hroom
      have hbody := after?_blockTokens_of ih (.thenPart g.condition read :: frames)
        (by rw [List.length_cons]; omega) []
      simp only [tokens, List.cons_append, List.nil_append]
      rw [after?_cons (.ifWord frames read (by omega)),
        after?_cons (.ifGuard frames read g),
        after?_cons (.thenWord frames read g.condition), ← blockTokens,
        Reader.after?_append_of hbody, List.append_nil, after?_cons (.endWord _ frames _),
        Frame.close, after?_cons (.closingIf frames read _), blockOf_reverse, statement]
      rfl
  | ifElse g thenBody elseBody ihThen ihElse =>
      rw [statement, Statement.nesting, ← block, ← block] at hroom
      have hthen := after?_blockTokens_of ihThen (.thenPart g.condition read :: frames)
        (by rw [List.length_cons]; omega) []
      have helse := after?_blockTokens_of ihElse
        (.elsePart g.condition (thenBody.map statement).reverse read :: frames)
        (by rw [List.length_cons]; omega) []
      simp only [tokens, List.append_assoc, List.cons_append, List.nil_append]
      rw [after?_cons (.ifWord frames read (by omega)),
        after?_cons (.ifGuard frames read g),
        after?_cons (.thenWord frames read g.condition), ← blockTokens,
        Reader.after?_append_of hthen, List.append_nil,
        after?_cons (.elseWord frames _ g.condition read), ← blockTokens,
        Reader.after?_append_of helse, List.append_nil, after?_cons (.endWord _ frames _),
        Frame.close, after?_cons (.closingIf frames read _), blockOf_reverse, blockOf_reverse,
        statement]
      rfl
  | whileDo g body ih =>
      rw [statement, Statement.nesting, ← block] at hroom
      have hbody := after?_blockTokens_of ih (.loop g.condition read :: frames)
        (by rw [List.length_cons]; omega) []
      simp only [tokens, List.cons_append, List.nil_append]
      rw [after?_cons (.whileWord frames read (by omega)),
        after?_cons (.whileGuard frames read g),
        after?_cons (.doWord frames read g.condition), ← blockTokens,
        Reader.after?_append_of hbody, List.append_nil, after?_cons (.endWord _ frames _),
        Frame.close, after?_cons (.closingWhile frames read _), blockOf_reverse, statement]
      rfl

/-! ### From runs to trees -/

/-- The statements that have been read inside `level` open bodies, the latest first, are those of
a block for which there is room. -/
structure ReadAs (level : Nat) (read : List Statement) (body : List StatementTree) : Prop where
  read_eq : read = (body.map statement).reverse
  room : (block body).nesting + level ≤ maxNesting

/-- Nothing has been read of a block. -/
theorem ReadAs.nil {level : Nat} (hlevel : level ≤ maxNesting) : ReadAs level [] [] :=
  ⟨rfl, by rw [nesting_block_nil]; omega⟩

/-- One more statement has been read. -/
theorem ReadAs.concat {level : Nat} {read : List Statement} {body : List StatementTree}
    (h : ReadAs level read body) {t : StatementTree}
    (ht : t.statement.nesting + level ≤ maxNesting) :
    ReadAs level (t.statement :: read) (body ++ [t]) := by
  obtain ⟨rfl, hroom⟩ := h
  refine ⟨by simp, ?_⟩
  rw [nesting_block_concat]
  omega

/-- The sequence that has been read is that of the block. -/
theorem ReadAs.blockOf_eq {level : Nat} {read : List Statement} {body : List StatementTree}
    (h : ReadAs level read body) : blockOf read = block body := by
  rw [h.read_eq, blockOf_reverse]

/-- What has been read up to the beginning of the innermost open body: for each open branch or loop
the block before it, its guard, and the first body of a branch in its second. -/
def Opened : List Frame → List Token → Prop
  | [], tokens => tokens = []
  | .thenPart c before :: outer, tokens =>
    ∃ opened body, ∃ g : Guard, Opened outer opened ∧ ReadAs outer.length before body ∧
      g.condition = c ∧ outer.length < maxNesting ∧
      tokens = opened ++ blockTokens body ++ [.keyword .ifKw, g.token, .keyword .thenKw]
  | .elsePart c thenRead before :: outer, tokens =>
    ∃ opened body thenBody, ∃ g : Guard, Opened outer opened ∧ ReadAs outer.length before body ∧
      ReadAs (outer.length + 1) thenRead thenBody ∧ g.condition = c ∧
      tokens = opened ++ blockTokens body ++ [.keyword .ifKw, g.token, .keyword .thenKw] ++
        blockTokens thenBody ++ [.keyword .elseKw]
  | .loop c before :: outer, tokens =>
    ∃ opened body, ∃ g : Guard, Opened outer opened ∧ ReadAs outer.length before body ∧
      g.condition = c ∧ outer.length < maxNesting ∧
      tokens = opened ++ blockTokens body ++ [.keyword .whileKw, g.token, .keyword .doKw]

/-- What has been read of a statement inside `level` open bodies, besides its own bodies while they
are open. -/
def Begun (level : Nat) : Due → List Token → Prop
  | .statement, tokens => tokens = []
  | .ifCondition, tokens => level < maxNesting ∧ tokens = [.keyword .ifKw]
  | .thenWord c, tokens =>
    level < maxNesting ∧ ∃ g : Guard, g.condition = c ∧ tokens = [.keyword .ifKw, g.token]
  | .whileCondition, tokens => level < maxNesting ∧ tokens = [.keyword .whileKw]
  | .doWord c, tokens =>
    level < maxNesting ∧ ∃ g : Guard, g.condition = c ∧ tokens = [.keyword .whileKw, g.token]
  | .closingIf s, tokens =>
    ∃ t : StatementTree, t.statement = s ∧ s.nesting + level ≤ maxNesting ∧
      t.tokens = tokens ++ [.keyword .ifKw]
  | .closingWhile s, tokens =>
    ∃ t : StatementTree, t.statement = s ∧ s.nesting + level ≤ maxNesting ∧
      t.tokens = tokens ++ [.keyword .whileKw]

/-- The tokens are what the reader has read in this state. -/
def Explains (s : BlockState) (tokens : List Token) : Prop :=
  ∃ opened body begun, Opened s.frames opened ∧ ReadAs s.frames.length s.read body ∧
    Begun s.frames.length s.due begun ∧ tokens = opened ++ blockTokens body ++ begun

/-- At first nothing has been read. -/
theorem explains_initial : initial.Explains [] :=
  ⟨[], [], [], rfl, .nil (Nat.zero_le _), rfl, rfl⟩

/-- A statement that has been read goes to the end of its block. -/
theorem Explains.concat {frames : List Frame} {read : List Statement} {opened : List Token}
    {body : List StatementTree} (hopened : Opened frames opened)
    (hread : ReadAs frames.length read body) {t : StatementTree}
    (ht : t.statement.nesting + frames.length ≤ maxNesting) :
    Explains ⟨frames, t.statement :: read, .statement⟩ (opened ++ blockTokens body ++ t.tokens) :=
  ⟨opened, body ++ [t], [], hopened, hread.concat ht, rfl, by simp [blockTokens]⟩

/-- The end of the innermost open body completes a branch or loop up to its last word. -/
theorem Explains.close {frame : Frame} {frames : List Frame} {read : List Statement}
    {tokens : List Token} (h : Explains ⟨frame :: frames, read, .statement⟩ tokens) :
    (frame.close read frames).Explains (tokens ++ [.keyword .endKw]) := by
  obtain ⟨opened, body, begun, hopened, hread, rfl, rfl⟩ := h
  have hblock : blockOf read = block body := hread.blockOf_eq
  have hroom : (block body).nesting + (frames.length + 1) ≤ maxNesting := hread.room
  cases frame with
  | thenPart c before =>
      obtain ⟨outer, around, g, houter, haround, rfl, -, rfl⟩ := hopened
      refine ⟨outer, around,
        [.keyword .ifKw, g.token, .keyword .thenKw] ++ blockTokens body ++ [.keyword .endKw],
        houter, haround, ⟨.ifThen g body, ?_, ?_, ?_⟩, by simp⟩
      · rw [statement, hblock, block]
      · change _ + frames.length ≤ maxNesting
        rw [Statement.nesting, hblock]
        omega
      · simp [tokens, blockTokens]
  | elsePart c thenRead before =>
      obtain ⟨outer, around, thenBody, g, houter, haround, hthen, rfl, rfl⟩ := hopened
      have hthenRoom := hthen.room
      refine ⟨outer, around,
        [.keyword .ifKw, g.token, .keyword .thenKw] ++ blockTokens thenBody ++ [.keyword .elseKw] ++
          blockTokens body ++ [.keyword .endKw],
        houter, haround, ⟨.ifElse g thenBody body, ?_, ?_, ?_⟩, by simp⟩
      · rw [statement, hblock, hthen.blockOf_eq, block, block]
      · change _ + frames.length ≤ maxNesting
        rw [Statement.nesting, hblock, hthen.blockOf_eq]
        omega
      · simp [tokens, blockTokens]
  | loop c before =>
      obtain ⟨outer, around, g, houter, haround, rfl, -, rfl⟩ := hopened
      refine ⟨outer, around,
        [.keyword .whileKw, g.token, .keyword .doKw] ++ blockTokens body ++ [.keyword .endKw],
        houter, haround, ⟨.whileDo g body, ?_, ?_, ?_⟩, by simp⟩
      · rw [statement, hblock, block]
      · change _ + frames.length ≤ maxNesting
        rw [Statement.nesting, hblock]
        omega
      · simp [tokens, blockTokens]

/-- **A step keeps the description** of what has been read. -/
theorem Explains.step {s s' : BlockState} {token : Token} {tokens : List Token}
    (h : s.Explains tokens) (hstep : Step s token s') : s'.Explains (tokens ++ [token]) := by
  cases hstep with
  | endWord frame frames read => exact h.close
  | call frames read name =>
      obtain ⟨opened, body, begun, hopened, hread, rfl, rfl⟩ := h
      have hroom : (block body).nesting + frames.length ≤ maxNesting := hread.room
      have hcall : (StatementTree.call name).statement.nesting + frames.length ≤ maxNesting := by
        rw [statement, Statement.nesting]
        omega
      simpa [statement, StatementTree.tokens] using Explains.concat hopened hread hcall
  | ifWord frames read hroom =>
      obtain ⟨opened, body, begun, hopened, hread, rfl, rfl⟩ := h
      exact ⟨opened, body, [.keyword .ifKw], hopened, hread, ⟨hroom, rfl⟩, by simp⟩
  | whileWord frames read hroom =>
      obtain ⟨opened, body, begun, hopened, hread, rfl, rfl⟩ := h
      exact ⟨opened, body, [.keyword .whileKw], hopened, hread, ⟨hroom, rfl⟩, by simp⟩
  | ifGuard frames read g =>
      obtain ⟨opened, body, begun, hopened, hread, ⟨hroom, rfl⟩, rfl⟩ := h
      exact ⟨opened, body, [.keyword .ifKw, g.token], hopened, hread, ⟨hroom, g, rfl, rfl⟩, by simp⟩
  | whileGuard frames read g =>
      obtain ⟨opened, body, begun, hopened, hread, ⟨hroom, rfl⟩, rfl⟩ := h
      exact ⟨opened, body, [.keyword .whileKw, g.token], hopened, hread, ⟨hroom, g, rfl, rfl⟩,
        by simp⟩
  | thenWord frames read c =>
      obtain ⟨opened, body, begun, hopened, hread, ⟨hroom, g, hg, rfl⟩, rfl⟩ := h
      exact ⟨_, [], [], ⟨opened, body, g, hopened, hread, hg, hroom, rfl⟩, .nil hroom, rfl,
        by simp [blockTokens]⟩
  | doWord frames read c =>
      obtain ⟨opened, body, begun, hopened, hread, ⟨hroom, g, hg, rfl⟩, rfl⟩ := h
      exact ⟨_, [], [], ⟨opened, body, g, hopened, hread, hg, hroom, rfl⟩, .nil hroom, rfl,
        by simp [blockTokens]⟩
  | elseWord frames read c before =>
      obtain ⟨_, thenBody, begun, hopened, hthen, rfl, rfl⟩ := h
      obtain ⟨opened, body, g, hopened, hread, hg, hroom, rfl⟩ := hopened
      exact ⟨_, [], [], ⟨opened, body, thenBody, g, hopened, hread, hthen, hg, rfl⟩, .nil hroom,
        rfl, by simp [blockTokens]⟩
  | closingIf frames read s =>
      obtain ⟨opened, body, begun, hopened, hread, ⟨t, rfl, hroom, htokens⟩, rfl⟩ := h
      rw [List.append_assoc, ← htokens]
      exact .concat hopened hread hroom
  | closingWhile frames read s =>
      obtain ⟨opened, body, begun, hopened, hread, ⟨t, rfl, hroom, htokens⟩, rfl⟩ := h
      rw [List.append_assoc, ← htokens]
      exact .concat hopened hread hroom

/-- **A run keeps the description.** -/
theorem Explains.run {s s' : BlockState} {tokens more : List Token} (h : s.Explains tokens)
    (hrun : Reader.block.after? s more = some s') : s'.Explains (tokens ++ more) :=
  Reader.after?_invariant (fun h hstep => h.step (step?_eq_some_iff.mp hstep)) h hrun

/-- Where nothing is open and no statement is under way, a block has been read. -/
theorem Explains.exists_block {s : BlockState} {tokens : List Token} {b : Statement}
    (h : s.Explains tokens) (hfinished : s.finished? = some b) :
    ∃ body, blockTokens body = tokens ∧ block body = b ∧ (block body).nesting ≤ maxNesting := by
  obtain ⟨opened, body, begun, hopened, hread, hbegun, rfl⟩ := h
  obtain ⟨_ | ⟨frame, frames⟩, read, due⟩ := s
  · cases due with
    | statement =>
        obtain rfl : opened = [] := hopened
        obtain rfl : begun = [] := hbegun
        obtain rfl : blockOf read = b := Option.some.inj hfinished
        exact ⟨body, by simp, hread.blockOf_eq.symm, hread.room⟩
    | ifCondition | thenWord | whileCondition | doWord | closingIf | closingWhile => cases hfinished
  · cases hfinished

/-- **Exactly the yields of blocks are read as blocks**, as far as there is room for their
nesting. -/
theorem exists_finished_iff {tokens : List Token} {b : Statement} :
    (∃ s, Reader.block.after? initial tokens = some s ∧ s.finished? = some b) ↔
      ∃ body, blockTokens body = tokens ∧ block body = b ∧ (block body).nesting ≤ maxNesting := by
  constructor
  · rintro ⟨s, hrun, hfinished⟩
    exact (explains_initial.run hrun).exists_block hfinished
  · rintro ⟨body, rfl, rfl, hroom⟩
    have hrun := after?_blockTokens_of (fun t _ => after?_tokens t) [] hroom []
    refine ⟨_, hrun, ?_⟩
    rw [List.append_nil, finished?, blockOf_reverse]

end BlockState

end RobotScript
