import RobotScript.Proofs.Descent
import RobotScript.Proofs.ProgramReading

/-!
# Recursive descent and the readers

The procedures of the recursive descent read what the readers read. Each procedure is followed by a
reader of which the states carry those of the reader of blocks: the readers of blocks and of single
statements themselves, and the reader of programs in the body of an instruction and in the main
body.

The depth of the cursor is the number of frames of the reader where a statement is due. Inside a
branch or loop it is one more already before the body begins, and still after the body has ended.

## Main definitions

* `Descent.Hosts` — a reader does the work of the reader of blocks.
* `Descent.HostsBody` — the reader of programs reads a block, up to its end.

## Main results

* `Descent.Hosts.follows_statement`, `Descent.Hosts.follows_statements`: **readers follow the
  procedures for statements**, one and in a row.
* `Descent.follows_instructions`, `Descent.follows_program`: **the reader of programs follows the
  procedures for instructions and programs**.
-/

namespace RobotScript

namespace Descent

variable {β σ α : Type} {c : Cursor} {r : Reader σ α} {s : σ} {fuel : Nat}

/-! ### Statements -/

section Statements

/-- The reader does the work of a reader of blocks in the states that `carry` makes of the states
of that one: it makes the same steps there, and as long as a block is under way it has no result and
finds the same tokens at fault. -/
structure Hosts (r : Reader σ α) (carry : BlockState → σ) : Prop where
  step : ∀ {b b' : BlockState} {token : Token}, b.step? token = some b' →
    r.step? (carry b) token = some (carry b')
  result : ∀ {b : BlockState}, b.finished? = none → ∀ token, r.result? (carry b) token = none
  stuck : ∀ {b : BlockState} {token : Token}, b.finished? = none → b.step? token = none →
    r.step? (carry b) token = none
  fault : ∀ {b : BlockState}, b.finished? = none → ∀ token,
    r.fault (carry b) token = b.fault token

variable {carry : BlockState → σ}

/-- While a statement is under way, so is the block. -/
theorem finished?_of_due {b : BlockState} (h : b.due ≠ .statement) : b.finished? = none := by
  obtain ⟨_ | ⟨frame, frames⟩, read, due⟩ := b
  · cases due with
    | statement => exact absurd rfl h
    | ifCondition | thenWord | whileCondition | doWord | closingIf | closingWhile => rfl
  · rfl

/-- A token is passed in a block that is under way. -/
theorem Hosts.take (h : Hosts r carry) {b : BlockState} {accept : Token → Option β}
    {blame : Token → Fault} (next : β → BlockState) (hopen : b.finished? = none)
    (heof : accept .eof = none) (hstep : b.step? c.peek = (accept c.peek).map next)
    (hfault : accept c.peek = none → b.fault c.peek = blame c.peek)
    (hkeeps : (blame c.peek).consumesToken = false) :
    Passes r (carry b) c (take accept blame) fun a => carry (next a) := by
  refine .take (fun a => carry (next a)) heof (h.result hopen _) ?_
    (fun hnone => (h.fault hopen _).trans (hfault hnone)) hkeeps
  cases haccept : accept c.peek with
  | none =>
      rw [haccept] at hstep
      exact h.stuck hopen hstep
  | some a =>
      rw [haccept] at hstep
      exact h.step hstep

/-- A keyword is passed in a block that is under way, where only this one can stand. -/
theorem Hosts.word (h : Hosts r carry) {b next : BlockState} {k : Keyword}
    (hopen : b.finished? = none)
    (hstep : b.step? c.peek = if c.peek = .keyword k then some next else none)
    (hfault : c.peek ≠ .keyword k → b.fault c.peek = .unexpected (.keyword k) c.peek) :
    Passes r (carry b) c (word k) fun _ => carry next := by
  refine .word (h.result hopen _) ?_ fun hne => (h.fault hopen _).trans (hfault hne)
  split_ifs at hstep ⊢
  · exact h.step hstep
  · exact h.stuck hopen hstep

/-- The keyword ahead is passed, and the reader makes a step with it. -/
theorem Hosts.start (h : Hosts r carry) {b : BlockState} (next : BlockState) {k : Keyword}
    (hpeek : c.peek = .keyword k) (hresult : r.result? (carry b) c.peek = none)
    (hstep : b.step? (.keyword k) = some next) :
    Passes r (carry b) c (Descent.word k) fun _ => carry next := by
  refine .word hresult ?_ fun hne => absurd hpeek hne
  rw [if_pos hpeek, hpeek]
  exact h.step hstep

/-- Where an open body cannot go on, and not be followed by another, only its end can stand. -/
theorem step?_of_ended {frame : Frame} {frames : List Frame} {read : List Statement}
    {token : Token} (hstart : token.startsStatement = false)
    (hend : frame.closer = .keyword .endKw ∨ token = .keyword .endKw) :
    BlockState.step? ⟨frame :: frames, read, .statement⟩ token =
      if token = .keyword .endKw then some (frame.close read frames) else none := by
  split_ifs with htoken
  · rw [htoken]
    rfl
  · refine BlockState.step?_eq_none_iff.mpr fun b' hstep => ?_
    cases hstep with
    | call | ifWord | whileWord => cases hstart
    | elseWord => rcases hend with h | h <;> cases h
    | endWord => exact htoken rfl

/-- Where nothing is open, only a statement can stand. -/
theorem step?_of_nil {read : List Statement} {token : Token}
    (hstart : token.startsStatement = false) :
    BlockState.step? ⟨[], read, .statement⟩ token = none := by
  refine BlockState.step?_eq_none_iff.mpr fun b' hstep => ?_
  cases hstep with
  | call | ifWord | whileWord => cases hstart

/-- The end of an open body is passed. -/
theorem Hosts.close (h : Hosts r carry) {frame : Frame} {frames : List Frame}
    {read : List Statement} (hstart : c.peek.startsStatement = false)
    (hend : frame.closer = .keyword .endKw ∨ c.peek = .keyword .endKw) :
    Passes r (carry ⟨frame :: frames, read, .statement⟩) c (Descent.word .endKw) fun _ =>
      carry (frame.close read frames) := by
  refine h.word rfl (step?_of_ended hstart hend) fun hne => ?_
  rw [BlockState.fault]
  simp only [hstart, hend.resolve_right hne, Bool.false_eq_true, if_false]

/-- The procedure reads the bodies of branches and loops, if fewer tokens than the fuel are
ahead. -/
def ReadsBodies (r : Reader σ α) (carry : BlockState → σ) (fuel : Nat)
    (block : Descent Statement) : Prop :=
  ∀ (c : Cursor) (frame : Frame) (frames : List Frame), c.depth = frames.length + 1 →
    c.depth ≤ maxNesting → c.rest.length < fuel →
    Follows r (carry ⟨frame :: frames, [], .statement⟩) c block fun b s' c' =>
      ∃ read, b = blockOf read ∧ s' = carry ⟨frame :: frames, read, .statement⟩ ∧
        c'.peek.startsStatement = false

variable {block : Descent Statement} {frames : List Frame} {read : List Statement}

/-- What follows the first body of a branch. -/
theorem Hosts.alternative (h : Hosts r carry) (hblock : ReadsBodies r carry fuel block)
    {g : Condition} {before : List Statement} (hstart : c.peek.startsStatement = false)
    (hdepth : c.depth = frames.length + 1) (hmax : c.depth ≤ maxNesting)
    (hfuel : c.rest.length < fuel) :
    Follows r (carry ⟨.thenPart g before :: frames, read, .statement⟩) c
      (Descent.alternative block g (blockOf read)) fun statement s' c' =>
      ∃ frame body, s' = carry ⟨frame :: frames, body, .statement⟩ ∧
        frame.close body frames = ⟨frames, before, .closingIf statement⟩ ∧
        c'.peek.startsStatement = false ∧
        (frame.closer = .keyword .endKw ∨ c'.peek = .keyword .endKw) := by
  refine .peek ?_
  split
  · -- a second body
    rename_i hpeek
    refine (h.start _ hpeek (h.result rfl _) rfl).bind ?_
    rintro - _ c₁ h₁ ⟨rfl, hlt⟩
    have hdepth₁ := h₁.depth
    refine (hblock c₁ _ frames (by omega) (by omega) (by omega)).bind ?_
    rintro _ _ c₂ - ⟨body, rfl, rfl, hstart₂⟩
    exact .pure ⟨.elsePart g read before, body, rfl, rfl, hstart₂, .inl rfl⟩
  · -- the end
    rename_i hpeek
    exact .pure ⟨.thenPart g before, read, rfl, rfl, hstart, .inr hpeek⟩
  · -- neither
    rename_i helse hend
    refine .fail (h.result rfl _) (h.stuck rfl ?_) ((h.fault rfl _).trans ?_) rfl
    · refine BlockState.step?_eq_none_iff.mpr fun b' hstep => ?_
      generalize c.peek = token at hstart helse hend hstep
      cases hstep with
      | call | ifWord | whileWord => cases hstart
      | elseWord => exact helse rfl
      | endWord => exact hend rfl
    · simp only [BlockState.fault, hstart, Bool.false_eq_true, if_false, Frame.closer]

/-- A branch is read. -/
theorem Hosts.branch (h : Hosts r carry) (hblock : ReadsBodies r carry fuel block)
    (hpeek : c.peek = .keyword .ifKw)
    (hresult : r.result? (carry ⟨frames, read, .statement⟩) c.peek = none)
    (hdepth : c.depth = frames.length + 1) (hmax : c.depth ≤ maxNesting)
    (hfuel : c.rest.length ≤ fuel) :
    Passes r (carry ⟨frames, read, .statement⟩) c (Descent.branch block) fun t =>
      carry ⟨frames, t :: read, .statement⟩ := by
  -- one step of the reader for each word; the cursors between them are as deep as the bodies
  have hroom : frames.length < maxNesting := by omega
  refine (h.start ⟨frames, read, .ifCondition⟩ hpeek hresult
    (by simp [BlockState.step?, hroom])).bind ?_
  rintro - _ c₁ h₁ ⟨rfl, hlt₁⟩
  refine (h.take (fun g => ⟨frames, read, .thenWord g⟩) (finished?_of_due (by simp)) rfl rfl
    (fun _ => rfl) rfl).bind ?_
  rintro g _ c₂ h₂ ⟨rfl, hlt₂⟩
  refine (h.word (finished?_of_due (by simp)) rfl fun _ => rfl).bind ?_
  rintro - _ c₃ h₃ ⟨rfl, hlt₃⟩
  have hdepth₃ := ((h₁.trans h₂).trans h₃).depth
  refine (hblock c₃ _ frames (by omega) (by omega) (by omega)).bind ?_
  rintro _ _ c₄ h₄ ⟨thenRead, rfl, rfl, hstart₄⟩
  have hdepth₄ := h₄.depth
  have hle₄ := h₄.length_rest_le
  refine (h.alternative hblock hstart₄ (by omega) (by omega) (by omega)).bind ?_
  rintro statement _ c₅ h₅ ⟨frame, body, rfl, hclose, hstart₅, hend⟩
  have hle₅ := h₅.length_rest_le
  refine (h.close hstart₅ hend).bind ?_
  rintro - _ c₆ - ⟨rfl, hlt₆⟩
  rw [hclose]
  refine (h.word (finished?_of_due (by simp)) rfl fun _ => rfl).bind ?_
  rintro - _ c₇ - ⟨rfl, hlt₇⟩
  exact .pure ⟨rfl, by omega⟩

/-- A loop is read. -/
theorem Hosts.loop (h : Hosts r carry) (hblock : ReadsBodies r carry fuel block)
    (hpeek : c.peek = .keyword .whileKw)
    (hresult : r.result? (carry ⟨frames, read, .statement⟩) c.peek = none)
    (hdepth : c.depth = frames.length + 1) (hmax : c.depth ≤ maxNesting)
    (hfuel : c.rest.length ≤ fuel) :
    Passes r (carry ⟨frames, read, .statement⟩) c (Descent.loop block) fun t =>
      carry ⟨frames, t :: read, .statement⟩ := by
  have hroom : frames.length < maxNesting := by omega
  refine (h.start ⟨frames, read, .whileCondition⟩ hpeek hresult
    (by simp [BlockState.step?, hroom])).bind ?_
  rintro - _ c₁ h₁ ⟨rfl, hlt₁⟩
  refine (h.take (fun g => ⟨frames, read, .doWord g⟩) (finished?_of_due (by simp)) rfl rfl
    (fun _ => rfl) rfl).bind ?_
  rintro g _ c₂ h₂ ⟨rfl, hlt₂⟩
  refine (h.word (finished?_of_due (by simp)) rfl fun _ => rfl).bind ?_
  rintro - _ c₃ h₃ ⟨rfl, hlt₃⟩
  have hdepth₃ := ((h₁.trans h₂).trans h₃).depth
  refine (hblock c₃ _ frames (by omega) (by omega) (by omega)).bind ?_
  rintro _ _ c₄ h₄ ⟨body, rfl, rfl, hstart₄⟩
  have hle₄ := h₄.length_rest_le
  refine (h.close hstart₄ (.inl rfl)).bind ?_
  rintro - _ c₅ - ⟨rfl, hlt₅⟩
  rw [Frame.close]
  refine (h.word (finished?_of_due (by simp)) rfl fun _ => rfl).bind ?_
  rintro - _ c₆ - ⟨rfl, hlt₆⟩
  exact .pure ⟨rfl, by omega⟩

/-- A branch or loop is read, or there is no room for one. -/
theorem Hosts.nested (h : Hosts r carry) {x : Descent Statement}
    (hpeek : c.peek = .keyword .ifKw ∨ c.peek = .keyword .whileKw)
    (hdepth : c.depth = frames.length)
    (hx : c.depth ≠ maxNesting →
      Passes r (carry ⟨frames, read, .statement⟩) c.enter x fun t =>
        carry ⟨frames, t :: read, .statement⟩) :
    Passes r (carry ⟨frames, read, .statement⟩) c (Descent.nested x) fun t =>
      carry ⟨frames, t :: read, .statement⟩ := by
  by_cases hfull : c.depth = maxNesting
  · -- where there is no room, the reader has something open
    have hlength : frames.length = maxNesting := hdepth.symm.trans hfull
    have hopen : BlockState.finished? ⟨frames, read, .statement⟩ = none := by
      cases frames with
      | nil => cases hlength
      | cons frame frames => rfl
    have hstep : BlockState.step? ⟨frames, read, .statement⟩ c.peek = none := by
      rcases hpeek with hpeek | hpeek <;> simp [hpeek, BlockState.step?, hlength]
    have hfault : r.fault (carry ⟨frames, read, .statement⟩) c.peek = .tooDeep maxNesting := by
      rw [h.fault hopen]
      rcases hpeek with hpeek | hpeek <;> rw [hpeek] <;> rfl
    refine .error (runAt_nested_of_full hfull) (.refl c) ?_
    rw [runFrom_of_fault (h.result hopen _) (h.stuck hopen hstep) (by rw [hfault]; rfl), hfault]
  · exact .nested hfull (hx hfull) fun _ _ _ hpost => hpost

/-- **Readers follow the procedure for a statement**, by a procedure for the bodies in it. -/
theorem Hosts.follows_statement (h : Hosts r carry) (hblock : ReadsBodies r carry fuel block)
    (frames : List Frame) (read : List Statement) (hstart : c.peek.startsStatement = true)
    (hresult : r.result? (carry ⟨frames, read, .statement⟩) c.peek = none)
    (hdepth : c.depth = frames.length) (hmax : c.depth ≤ maxNesting)
    (hfuel : c.rest.length ≤ fuel) :
    Passes r (carry ⟨frames, read, .statement⟩) c (statementWith block) fun t =>
      carry ⟨frames, t :: read, .statement⟩ := by
  refine .peek ?_
  split
  · rename_i hpeek
    refine h.nested (.inl hpeek) hdepth fun hroom => ?_
    have henter : c.enter.depth ≤ maxNesting := Nat.lt_of_le_of_ne hmax hroom
    exact h.branch hblock hpeek hresult (congrArg (· + 1) hdepth) henter hfuel
  · rename_i hpeek
    refine h.nested (.inr hpeek) hdepth fun hroom => ?_
    have henter : c.enter.depth ≤ maxNesting := Nat.lt_of_le_of_ne hmax hroom
    exact h.loop hblock hpeek hresult (congrArg (· + 1) hdepth) henter hfuel
  · rename_i called hpeek
    refine .map ?_ fun _ _ _ hpost => hpost
    refine .take (fun called => carry ⟨frames, .call called :: read, .statement⟩) rfl hresult ?_
      (fun hnone => ?_) rfl
    · rw [hpeek]
      exact h.step rfl
    · rw [hpeek] at hnone
      cases hnone
  · rename_i hif hwhile hident
    generalize c.peek = token at hstart hif hwhile hident
    cases token with
    | keyword k =>
        cases k with
        | ifKw => exact absurd rfl hif
        | whileKw => exact absurd rfl hwhile
        | elseKw | endKw | programKw | isKw | beginKw | instructionKw | thenKw | doKw => cases hstart
    | ident called => exact absurd rfl (hident called)
    | condition | other | comment | newline | eof => cases hstart

/-- The statements in a row that are read make up a block. -/
theorem Follows.asBlock
    (h : Follows r (carry ⟨frames, [], .statement⟩) c (statements fuel) fun body s' c' =>
      s' = carry ⟨frames, body.reverse ++ [], .statement⟩ ∧ c'.peek.startsStatement = false) :
    Follows r (carry ⟨frames, [], .statement⟩) c (.block <$> statements fuel) fun b s' c' =>
      ∃ read, b = blockOf read ∧ s' = carry ⟨frames, read, .statement⟩ ∧
        c'.peek.startsStatement = false := by
  refine h.map ?_
  rintro body _ _ ⟨rfl, hstart⟩
  exact ⟨body.reverse, by rw [blockOf, List.reverse_reverse], by rw [List.append_nil], hstart⟩

/-- **Readers follow the procedure for statements in a row**, if there is fuel for every token
ahead. -/
theorem Hosts.follows_statements (h : Hosts r carry) (frames : List Frame)
    (read : List Statement)
    (hresult : ∀ read token, token.startsStatement = true →
      r.result? (carry ⟨frames, read, .statement⟩) token = none)
    (hdepth : c.depth = frames.length) (hmax : c.depth ≤ maxNesting)
    (hfuel : c.rest.length < fuel) :
    Follows r (carry ⟨frames, read, .statement⟩) c (statements fuel) fun body s' c' =>
      s' = carry ⟨frames, body.reverse ++ read, .statement⟩ ∧
        c'.peek.startsStatement = false := by
  induction fuel generalizing c frames read with
  | zero => omega
  | succ fuel ih =>
      refine .peek ?_
      split
      · rename_i hstart
        -- the bodies inside have more open, and so no result before their end
        have hbodies : ReadsBodies r carry fuel (.block <$> statements fuel) :=
          fun _ _ _ hdepth hmax hfuel =>
            .asBlock (ih (_ :: _) [] (fun _ _ _ => h.result rfl _) hdepth hmax hfuel)
        refine (h.follows_statement hbodies frames read hstart (hresult _ _ hstart) hdepth hmax
          (by omega)).bind ?_
        rintro first _ c₁ h₁ ⟨rfl, hlt₁⟩
        have hdepth₁ := h₁.depth
        refine (ih frames (first :: read) hresult (by omega) (by omega) (by omega)).bind ?_
        rintro rest _ c₂ - ⟨rfl, hstart₂⟩
        exact .pure ⟨by simp, hstart₂⟩
      · rename_i hstart
        exact .pure ⟨rfl, by simpa using hstart⟩

/-- The procedure for blocks reads the bodies of branches and loops. -/
theorem Hosts.readsBodies (h : Hosts r carry) (fuel : Nat) :
    ReadsBodies r carry fuel (.block <$> statements fuel) :=
  fun _ _ _ hdepth hmax hfuel =>
    .asBlock (h.follows_statements (_ :: _) [] (fun _ _ _ => h.result rfl _) hdepth hmax hfuel)

end Statements

/-- The reader of blocks does its own work. -/
theorem hosts_block : Hosts Reader.block id where
  step h := h
  result hopen token := by
    simp [Reader.block, hopen]
  stuck _ h := h
  fault _ _ := rfl

/-- The reader of single statements does the work of a reader of blocks inside a statement. -/
theorem hosts_statement : Hosts Reader.statement id where
  step h := h
  result hopen token := by
    simp only [Reader.statement, id]
    split
    · cases hopen
    · rfl
  stuck _ h := h
  fault hopen token := by
    simp only [Reader.statement, id]
    split
    · cases hopen
    · rfl

/-! ### Programs -/

open ProgramState in
/-- In the states that `carry` makes of the states of a reader of blocks, the reader of programs
reads a block, and after its end it is in the state that `closed` makes of the block. -/
structure HostsBody (carry : BlockState → ProgramState) (closed : Statement → ProgramState) :
    Prop where
  step?_eq : ∀ b token, (carry b).step? token =
    match b.step? token with
    | some b' => some (carry b')
    | none => (endedBlock? b token).map closed
  result : ∀ b token, Reader.program.result? (carry b) token = none
  fault : ∀ b token, (carry b).fault token = b.fault token

/-- The body of an instruction. -/
theorem hostsBody_definition (n : String) (defs : Definitions) (i : String) :
    HostsBody (.definitionBody n defs i) (.definitionEnd n defs i) :=
  ⟨fun _ _ => rfl, fun _ _ => rfl, fun _ _ => rfl⟩

/-- The main body. -/
theorem hostsBody_main (n : String) (defs : Definitions) :
    HostsBody (.mainBody n defs) (.mainEnd n defs) :=
  ⟨fun _ _ => rfl, fun _ _ => rfl, fun _ _ => rfl⟩

/-- Inside its block the reader of programs does the work of a reader of blocks. -/
theorem HostsBody.hosts {carry : BlockState → ProgramState} {closed : Statement → ProgramState}
    (h : HostsBody carry closed) : Hosts Reader.program carry where
  step {b b' token} hstep := by
    change (carry b).step? token = _
    rw [h.step?_eq, hstep]
  result _ := h.result _
  stuck {b token} hopen hstep := by
    change (carry b).step? token = _
    rw [h.step?_eq, hstep, ProgramState.endedBlock?, hopen, ite_self]
    rfl
  fault _ := h.fault _

/-- A block in a program is read, and the word for its end. -/
theorem HostsBody.follows_endedBlock {carry : BlockState → ProgramState}
    {closed : Statement → ProgramState} (h : HostsBody carry closed) (hdepth : c.depth = 0)
    (hfuel : c.rest.length < fuel) :
    Passes Reader.program (carry .initial) c (endedBlock fuel) closed := by
  refine (Follows.asBlock (h.hosts.follows_statements [] [] (fun _ _ _ => h.result _ _) hdepth
    (by omega) hfuel)).bind ?_
  rintro _ _ c₁ h₁ ⟨read, rfl, rfl, hstart₁⟩
  have hle₁ := h₁.length_rest_le
  have hstep : (carry ⟨[], read, .statement⟩).step? c₁.peek =
      if c₁.peek = .keyword .endKw then some (closed (blockOf read)) else none := by
    rw [h.step?_eq, step?_of_nil hstart₁]
    simp only [ProgramState.endedBlock?]
    split_ifs <;> rfl
  refine (Follows.word (h.result _ _) hstep fun hne => ?_).bind ?_
  · change (carry _).fault _ = _
    rw [h.fault]
    simp only [BlockState.fault, hstart₁, Bool.false_eq_true, if_false]
  · rintro - _ c₂ - ⟨rfl, hlt₂⟩
    exact .pure ⟨rfl, by omega⟩

section

variable {s next : ProgramState}

/-- A keyword of a program is passed, where no other token can stand. -/
theorem follows_keyword {k : Keyword} (hresult : ∀ token, Reader.program.result? s token = none)
    (hstep : s.step? (.keyword k) = some next)
    (honly : ∀ token s', c.peek = token → ProgramState.Step s token s' → token = .keyword k)
    (hfault : ∀ token, s.fault token = .unexpected (.keyword k) token) :
    Passes Reader.program s c (word k) fun _ => next := by
  refine .word (hresult _) ?_ fun _ => hfault _
  change s.step? c.peek = _
  split_ifs with hpeek
  · rw [hpeek, hstep]
  · exact ProgramState.step?_eq_none_iff.mpr fun s' h => hpeek (honly _ s' rfl h)

/-- A closing name is passed. -/
theorem follows_closingName {construct : Construct} {opened : String}
    (hresult : ∀ token, Reader.program.result? s token = none)
    (hstep : s.step? (.ident opened) = some next)
    (honly : ∀ token s', ProgramState.Step s token s' → token = .ident opened)
    (hfault : ∀ token, s.fault token = ProgramState.closingFault construct opened token) :
    Passes Reader.program s c (closingName construct opened) fun _ => next := by
  refine .take (fun _ => next) rfl (hresult _) ?_ (fun _ => hfault _) ?_
  · change s.step? c.peek = _
    rw [only]
    split_ifs with hpeek
    · rw [hpeek, hstep]
      rfl
    · exact ProgramState.step?_eq_none_iff.mpr fun s' h => hpeek (honly _ s' h)
  · cases c.peek <;> rfl

end

/-- The reader finds the token ahead at fault when it has passed it. -/
theorem runFrom_of_passed (hinside : c.peek ≠ .eof) (hresult : r.result? s c.peek = none)
    (hstep : r.step? s c.peek = none) (hpasses : (r.fault s c.peek).consumesToken = true) :
    r.runFrom c.stop s c.ahead = (.error (.fault c.place (r.fault s c.peek)), c.advance.ahead) := by
  rw [Cursor.ahead_of_inside hinside, Reader.runFrom, hresult, hstep]
  simp [hpasses]

/-- The reader makes a step with a name that nothing is wrong with. -/
theorem step?_definitionName {n i : String} {defs : Definitions} (h : nameFault? defs i = none) :
    ProgramState.step? (.definitionName n defs) (.ident i) = some (.definitionIs n defs i) := by
  unfold nameFault? at h
  split_ifs at h with haction hdefined
  exact if_pos (by simp [ProgramState.isFree, haction, hdefined])

/-- The reader finds the same wrong with a name, and has passed it then. -/
theorem fault_definitionName {n i : String} {defs : Definitions} {fault : Fault}
    (h : nameFault? defs i = some fault) :
    ProgramState.step? (.definitionName n defs) (.ident i) = none ∧
      ProgramState.fault (.definitionName n defs) (.ident i) = fault ∧
      fault.consumesToken = true := by
  unfold nameFault? at h
  split_ifs at h with haction hdefined
  · obtain rfl := Option.some.inj h
    exact ⟨if_neg (by simp [ProgramState.isFree, haction]), if_pos haction, rfl⟩
  · obtain rfl := Option.some.inj h
    exact ⟨if_neg (by simp [ProgramState.isFree, hdefined]), if_neg haction, rfl⟩

/-- The name of an instruction is passed, whatever is wrong with it. -/
theorem follows_newName (n : String) (defs : Definitions) :
    Passes Reader.program (.definitionName n defs) c (newName defs) (.definitionIs n defs) := by
  have hplace : (newName defs).runAt c = _ := runAt_bind_of_ok (runAt_place c)
  cases hpeek : c.peek with
  | ident i =>
      have hinside : c.peek ≠ .eof := by simp [hpeek]
      have hname : (name .instructionName).runAt c = some (.ok i, c.advance) :=
        runAt_take_of_some (by rw [hpeek]; rfl)
      have hrun := hplace.trans (runAt_bind_of_ok hname)
      have hadvances := Cursor.advances_advance hinside
      cases hcheck : nameFault? defs i with
      | none =>
          rw [hcheck] at hrun
          have hstep := step?_definitionName (n := n) hcheck
          rw [← hpeek] at hstep
          exact .ok hrun hadvances (runFrom_of_step hinside rfl hstep)
            ⟨rfl, Cursor.length_rest_advance hinside⟩
      | some fault =>
          rw [hcheck] at hrun
          obtain ⟨hstep, hfault, hpasses⟩ := fault_definitionName (n := n) hcheck
          rw [← hpeek] at hstep hfault
          rw [← hfault] at hrun hpasses
          exact .error hrun hadvances (runFrom_of_passed hinside rfl hstep hpasses)
  | keyword | condition | other | comment | newline | eof =>
      have hname : (name .instructionName).runAt c = _ :=
        runAt_take_of_none (by rw [hpeek]; rfl)
      refine .of_runAt_eq (hplace.trans (runAt_bind_of_error hname)) (.fail rfl ?_ ?_ rfl)
      · rw [hpeek]
        rfl
      · rw [hpeek]
        rfl

/-- An instruction is read. -/
theorem follows_instruction (n : String) (defs : Definitions)
    (hpeek : c.peek = .keyword .instructionKw) (hdepth : c.depth = 0)
    (hfuel : c.rest.length ≤ fuel) :
    Passes Reader.program (.definitions n defs) c (instruction fuel defs) fun d =>
      .definitions n (defs.insert d.1 d.2) := by
  refine (Follows.word rfl (by rw [if_pos hpeek, hpeek]; rfl) fun hne => absurd hpeek hne).bind ?_
  rintro - _ c₁ h₁ ⟨rfl, hlt₁⟩
  refine (follows_newName n defs).bind ?_
  rintro i _ c₂ h₂ ⟨rfl, hlt₂⟩
  refine (follows_keyword (fun _ => rfl) rfl ?_ fun _ => rfl).bind ?_
  · rintro _ _ - ⟨⟩
    rfl
  rintro - _ c₃ h₃ ⟨rfl, hlt₃⟩
  have hdepth₃ := ((h₁.trans h₂).trans h₃).depth
  refine ((hostsBody_definition n defs i).follows_endedBlock (by omega) (by omega)).bind ?_
  rintro body _ c₄ - ⟨rfl, hlt₄⟩
  have hclosing := ProgramState.step?_eq_some_iff.mpr (.instructionClosing n defs i body)
  refine (follows_closingName (fun _ => rfl) hclosing ?_ fun _ => rfl).bind ?_
  · rintro _ _ ⟨⟩
    rfl
  rintro - _ c₅ - ⟨rfl, hlt₅⟩
  exact .pure ⟨rfl, by omega⟩

/-- **The reader of programs follows the procedure for instructions in a row.** -/
theorem follows_instructions (n : String) (defs : Definitions) (hdepth : c.depth = 0)
    (hfuel : c.rest.length < fuel) :
    Follows Reader.program (.definitions n defs) c (instructions fuel defs) fun defs' s' c' =>
      s' = .definitions n defs' ∧ c'.peek ≠ .keyword .instructionKw := by
  induction fuel generalizing c defs with
  | zero => omega
  | succ fuel ih =>
      refine .peek ?_
      split
      · rename_i hpeek
        refine (follows_instruction n defs hpeek hdepth (by omega)).bind ?_
        rintro ⟨i, body⟩ _ c₁ h₁ ⟨rfl, hlt₁⟩
        have hdepth₁ := h₁.depth
        exact ih _ (by omega) (by omega)
      · rename_i hpeek
        exact .pure ⟨rfl, hpeek⟩

/-- **The reader of programs follows the procedure for programs.** -/
theorem follows_program (hdepth : c.depth = 0) (hfuel : c.rest.length < fuel) :
    Follows Reader.program .opening c (programWith fuel) fun p s' c' =>
      s' = .complete p ∧ c'.peek = .eof := by
  refine (follows_keyword (fun _ => rfl) rfl ?_ fun _ => rfl).bind ?_
  · rintro _ _ - ⟨⟩
    rfl
  rintro - _ c₁ h₁ ⟨rfl, hlt₁⟩
  refine (Follows.take .nameIs rfl rfl ?_ (fun _ => rfl) rfl).bind ?_
  · change ProgramState.step? .name c₁.peek = _
    cases c₁.peek <;> rfl
  rintro n _ c₂ h₂ ⟨rfl, hlt₂⟩
  refine (follows_keyword (fun _ => rfl) rfl ?_ fun _ => rfl).bind ?_
  · rintro _ _ - ⟨⟩
    rfl
  rintro - _ c₃ h₃ ⟨rfl, hlt₃⟩
  have hdepth₃ := ((h₁.trans h₂).trans h₃).depth
  refine (follows_instructions n .empty (by omega) (by omega)).bind ?_
  rintro defs _ c₄ h₄ ⟨rfl, hpeek₄⟩
  have hle₄ := h₄.length_rest_le
  refine (follows_keyword (fun _ => rfl) rfl ?_ fun _ => rfl).bind ?_
  · rintro _ _ hpeek ⟨⟩
    · exact absurd hpeek hpeek₄
    · rfl
  rintro - _ c₅ h₅ ⟨rfl, hlt₅⟩
  have hdepth₅ := (h₄.trans h₅).depth
  refine ((hostsBody_main n defs).follows_endedBlock (by omega) (by omega)).bind ?_
  rintro body _ c₆ - ⟨rfl, -⟩
  have hclosing := ProgramState.step?_eq_some_iff.mpr (.mainClosing n defs body)
  refine (follows_closingName (fun _ => rfl) hclosing ?_ fun _ => rfl).bind ?_
  · rintro _ _ ⟨⟩
    rfl
  rintro - _ c₇ - ⟨rfl, -⟩
  refine .peek ?_
  split_ifs with hpeek₇
  · exact .pure ⟨rfl, hpeek₇⟩
  · have hstuck : ∀ token, ProgramState.step? (.complete ⟨n, defs, body⟩) token = none :=
      fun _ => ProgramState.step?_eq_none_iff.mpr (by rintro _ ⟨⟩)
    exact .fail (Reader.program_result?_of_ne_eof hpeek₇ _) (hstuck c₇.peek) rfl rfl

end Descent

end RobotScript
