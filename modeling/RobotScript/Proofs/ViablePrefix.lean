import Mathlib.Data.List.TakeWhile
import Mathlib.Tactic
import RobotScript.Proofs.ProgramReading

/-!
# Errors stand at the first token that cannot be continued

Reading stops at the first token that has no place where it stands. That the reader has no place for
it does not say by itself that there is none: a reader could go on too long, and find a token at
fault when no program could have begun with the tokens before it. Here it is shown that this does
not happen. Whatever the reader has read, it can be completed to a program, by closing what is open.
So the tokens before the one at fault are the beginning of a program, and with it they are not.

## Main definitions

* `EndsOnce` — the token lists whose last token is their only end of input.

## Main results

* `BlockState.completable`, `ProgramState.completable`: **every state of the readers can be
  completed**.
* `Reader.program_run_iff_after?`: a token list is accepted if its tokens before the first end of
  input are read as a program.
* `Reader.program_error_at_first_dead_token`: **errors stand at the first token that cannot be
  continued**.
-/

namespace RobotScript

/-! ### Completing a block -/

namespace BlockState

/-- A transition to a state that can be completed. -/
theorem completable_of_step {s s' : BlockState} {token : Token} (h : Step s token s')
    (h' : Reader.block.Completable s') : Reader.block.Completable s :=
  .of_step (step?_eq_some_iff.mpr h) h'

/-- Where a statement is due, the open bodies can be ended, from the innermost outwards. -/
theorem completable_statement (frames : List Frame) (read : List Statement) :
    Reader.block.Completable ⟨frames, read, .statement⟩ := by
  induction frames generalizing read with
  | nil => exact .of_result rfl
  | cons frame frames ih =>
      refine completable_of_step (.endWord frame frames read) ?_
      cases frame with
      | thenPart c before => exact completable_of_step (.closingIf _ _ _) (ih _)
      | elsePart c thenBody before => exact completable_of_step (.closingIf _ _ _) (ih _)
      | loop c before => exact completable_of_step (.closingWhile _ _ _) (ih _)

/-- **Every state of the reader of blocks can be completed**: a branch or loop that has begun gets a
condition and an empty body, and then the open bodies are ended. -/
theorem completable (s : BlockState) : Reader.block.Completable s := by
  obtain ⟨frames, read, due⟩ := s
  have hthen : ∀ c, Reader.block.Completable ⟨frames, read, .thenWord c⟩ := fun c =>
    completable_of_step (.thenWord frames read c) (completable_statement _ _)
  have hdo : ∀ c, Reader.block.Completable ⟨frames, read, .doWord c⟩ := fun c =>
    completable_of_step (.doWord frames read c) (completable_statement _ _)
  cases due with
  | statement => exact completable_statement frames read
  | ifCondition => exact completable_of_step (.ifGuard frames read (.exact .always)) (hthen _)
  | thenWord c => exact hthen c
  | whileCondition => exact completable_of_step (.whileGuard frames read (.exact .always)) (hdo _)
  | doWord c => exact hdo c
  | closingIf s => exact completable_of_step (.closingIf frames read s) (completable_statement _ _)
  | closingWhile s =>
      exact completable_of_step (.closingWhile frames read s) (completable_statement _ _)

/-- The reader does not read past the end of the input. -/
theorem step?_eof (s : BlockState) : s.step? .eof = none := by
  obtain ⟨frames, read, due⟩ := s
  cases due <;> rfl

/-- A block can be brought to where it can end. -/
theorem exists_finished (s : BlockState) :
    ∃ tokens s' b, Reader.block.after? s tokens = some s' ∧ s'.finished? = some b := by
  obtain ⟨tokens, s', hrun, hresult⟩ := s.completable
  obtain ⟨b, hb⟩ := Option.isSome_iff_exists.mp hresult
  exact ⟨tokens, s', b, hrun, hb⟩

end BlockState

/-! ### Completing a program -/

namespace ProgramState

/-- A transition to a state that can be completed. -/
theorem completable_of_step {s s' : ProgramState} {token : Token} (h : Step s token s')
    (h' : Reader.program.Completable s') : Reader.program.Completable s :=
  .of_step (step?_eq_some_iff.mpr h) h'

/-- There is always one more name for an instruction. -/
theorem exists_isFree (defs : Definitions) : ∃ i, isFree defs i = true := by
  obtain ⟨i, hi⟩ :=
    Infinite.exists_notMem_finset (Action.all.map Action.name ++ defs.names).toFinset
  rw [List.mem_toFinset, List.mem_append, not_or] at hi
  obtain ⟨hact, hdefs⟩ := hi
  have hname : Action.isName i = false := by
    by_contra hsome
    obtain ⟨action, haction⟩ := Option.isSome_iff_exists.mp (Bool.of_not_eq_false hsome)
    exact hact (List.mem_map.mpr ⟨action, action.mem_all, Action.name_of_ofName? haction⟩)
  have hnew : defs.contains i = false :=
    Bool.eq_false_iff.mpr fun hcontains => hdefs ((defs.contains_iff_mem_names i).mp hcontains)
  exact ⟨i, by rw [isFree, hname, hnew]; rfl⟩

/-- The main body can be ended, and the program closed. -/
theorem completable_mainBody (n : String) (defs : Definitions) (block : BlockState) :
    Reader.program.Completable (mainBody n defs block) := by
  obtain ⟨tokens, block', b, hrun, hfinished⟩ := block.exists_finished
  have hcarried : Reader.program.after? (mainBody n defs block) tokens =
      some (mainBody n defs block') :=
    Reader.after?_of_steps (fun h => step?_eq_some_iff.mpr (.inMain n defs h)) hrun
  exact .of_after? hcarried (completable_of_step (.mainEnd n defs hfinished)
    (completable_of_step (.mainClosing n defs b) (.of_result rfl)))

/-- After an instruction the main body can follow. -/
theorem completable_definitions (n : String) (defs : Definitions) :
    Reader.program.Completable (definitions n defs) :=
  completable_of_step (.beginWord n defs) (completable_mainBody n defs .initial)

/-- The body of an instruction can be ended, and the instruction closed. -/
theorem completable_definitionBody (n : String) (defs : Definitions) (i : String)
    (block : BlockState) : Reader.program.Completable (definitionBody n defs i block) := by
  obtain ⟨tokens, block', b, hrun, hfinished⟩ := block.exists_finished
  have hcarried : Reader.program.after? (definitionBody n defs i block) tokens =
      some (definitionBody n defs i block') :=
    Reader.after?_of_steps (fun h => step?_eq_some_iff.mpr (.inInstruction n defs i h)) hrun
  exact .of_after? hcarried (completable_of_step (.instructionEnd n defs i hfinished)
    (completable_of_step (.instructionClosing n defs i b) (completable_definitions _ _)))

/-- **Every state of the reader of programs can be completed**: what is open is closed, and what is
due is given the shortest form it can have. -/
theorem completable (s : ProgramState) : Reader.program.Completable s := by
  have his : ∀ n defs i, Reader.program.Completable (definitionIs n defs i) := fun n defs i =>
    completable_of_step (.instructionIs n defs i) (completable_definitionBody n defs i .initial)
  have hnameIs : ∀ n, Reader.program.Completable (nameIs n) := fun n =>
    completable_of_step (.isWord n) (completable_definitions n .empty)
  have hname : Reader.program.Completable name :=
    completable_of_step (.programName "robot") (hnameIs _)
  cases s with
  | opening => exact completable_of_step .programWord hname
  | name => exact hname
  | nameIs n => exact hnameIs n
  | definitions n defs => exact completable_definitions n defs
  | definitionName n defs =>
      obtain ⟨i, hfree⟩ := exists_isFree defs
      exact completable_of_step (.instructionName n defs i hfree) (his n defs i)
  | definitionIs n defs i => exact his n defs i
  | definitionBody n defs i block => exact completable_definitionBody n defs i block
  | definitionEnd n defs i b =>
      exact completable_of_step (.instructionClosing n defs i b) (completable_definitions _ _)
  | mainBody n defs block => exact completable_mainBody n defs block
  | mainEnd n defs b => exact completable_of_step (.mainClosing n defs b) (.of_result rfl)
  | complete p => exact .of_result rfl

/-- The reader does not read past the end of the input. -/
theorem step?_eof (s : ProgramState) : s.step? .eof = none := by
  cases s with
  | definitionBody n defs i block => simp [step?, block.step?_eof, endedBlock?]
  | mainBody n defs block => simp [step?, block.step?_eof, endedBlock?]
  | opening | name | nameIs | definitions | definitionName | definitionIs | definitionEnd
  | mainEnd | complete => rfl

end ProgramState

/-! ### Acceptance -/

/-- The last token of the list, and no other, is the end of the input. -/
def EndsOnce (ts : List Located) : Prop :=
  ∃ tokens stop, ts = tokens ++ [⟨.eof, stop⟩] ∧ ∀ t ∈ tokens, t.token ≠ .eof

/-- The feed of a token list that ends with its only end of input ends there. -/
theorem Feed.stop_ofTokens {tokens : List Located} (h : ∀ t ∈ tokens, t.token ≠ .eof)
    (stop : Position) : (Feed.ofTokens (tokens ++ [⟨.eof, stop⟩])).stop = stop := by
  have hnone : tokens.find? (fun t => !isInside t) = none := by
    simpa [isInside] using h
  rw [ofTokens, stopOf, List.find?_append, hnone]
  rfl

/-- Tokens before the first end of input are those before it. -/
theorem takeWhile_append_eof {tokens : List Token} (h : .eof ∉ tokens) (rest : List Token) :
    (tokens ++ rest).takeWhile (· != .eof) = tokens ++ rest.takeWhile (· != .eof) :=
  List.takeWhile_append_of_pos fun token hmem => by
    simpa using fun heq : token = .eof => h (heq ▸ hmem)

namespace Reader

/-- A token list is accepted if its tokens before the first end of input are read as a program. -/
theorem program_run_iff_after? {ts : List Located} {p : Program} :
    (Reader.program.run (.ofTokens ts)).1 = .ok p ↔
      Reader.program.after? .opening ((ts.map Located.token).takeWhile (· != .eof)) =
        some (.complete p) := by
  have hinside : ∀ t ∈ ts.takeWhile Feed.isInside, t.token ≠ .eof := fun t ht => by
    simpa [Feed.isInside] using List.mem_takeWhile_imp ht
  rw [List.takeWhile_map, run]
  change (Reader.program.runFrom _ .opening (ts.takeWhile Feed.isInside)).1 = .ok p ↔
    Reader.program.after? .opening ((ts.takeWhile Feed.isInside).map Located.token) = _
  rw [runFrom_eq_ok_iff fun t ht => program_result?_of_ne_eof (hinside t ht)]
  constructor
  · rintro ⟨s, hrun, hresult⟩
    rwa [← program_result?_eof_iff.mp hresult]
  · intro hrun
    exact ⟨_, hrun, program_result?_eof_iff.mpr rfl⟩

/-- What has been read is the beginning of a token list that is accepted. -/
theorem exists_accepted_of_after? {before : List Located} {s : ProgramState}
    (h : Reader.program.after? .opening (before.map Located.token) = some s) :
    ∃ rest p, EndsOnce (before ++ rest) ∧
      (Reader.program.run (.ofTokens (before ++ rest))).1 = .ok p := by
  obtain ⟨more, s', hmore, hresult⟩ := s.completable
  obtain ⟨p, hp⟩ := Option.isSome_iff_exists.mp hresult
  obtain rfl := program_result?_eof_iff.mp hp
  have hrun : Reader.program.after? .opening (before.map Located.token ++ more) =
      some (.complete p) := by
    rw [after?_append_of h, hmore]
  have heof : .eof ∉ before.map Located.token ++ more :=
    not_mem_of_after? ProgramState.step?_eof hrun
  let added : List Located := more.map (⟨·, .start⟩)
  have htokens : (before ++ added).map Located.token = before.map Located.token ++ more := by
    simp [added, Function.comp_def]
  refine ⟨added ++ [⟨.eof, .start⟩], p, ⟨before ++ added, .start, by simp, ?_⟩, ?_⟩
  · intro t ht htoken
    rw [← htokens, ← htoken] at heof
    exact heof (List.mem_map_of_mem ht)
  · rw [program_run_iff_after?, ← List.append_assoc, List.map_append, htokens,
      takeWhile_append_eof heof]
    simpa using hrun

/-- What begins with a token at which reading stops is not accepted. -/
theorem not_accepted_of_stops {before : List Token} {s : ProgramState} {token : Token}
    (h : Reader.program.after? .opening before = some s)
    (hstep : Reader.program.step? s token = none) (hresult : Reader.program.result? s token = none)
    {ts : List Located} (hbegin : before ++ [token] <+: ts.map Located.token) (p : Program) :
    (Reader.program.run (.ofTokens ts)).1 ≠ .ok p := by
  intro haccepted
  obtain ⟨more, hmore⟩ := hbegin
  have heof : .eof ∉ before := not_mem_of_after? ProgramState.step?_eof h
  rw [program_run_iff_after?, ← hmore, List.append_assoc, takeWhile_append_eof heof,
    after?_append_of h, List.singleton_append] at haccepted
  by_cases htoken : token = .eof
  · subst htoken
    rw [List.takeWhile_cons_of_neg (by simp)] at haccepted
    obtain rfl : s = .complete p := Option.some.inj haccepted
    rw [program_result?_eof_iff.mpr rfl] at hresult
    cases hresult
  · rw [List.takeWhile_cons_of_pos (by simpa using htoken), after?_cons_of_none hstep] at haccepted
    cases haccepted

/-- **Errors stand at the first token that cannot be continued.** If a token list, of which only the
last is the end of the input, is not read as a program, then the error has the place of one of its
tokens. The tokens before that one are the beginning of a token list that is read as a program, and
no token list that begins with them and that one is. -/
theorem program_error_at_first_dead_token {ts : List Located} (hts : EndsOnce ts) {e : ParseError}
    (he : (Reader.program.run (.ofTokens ts)).1 = .error e) :
    ∃ i t, ts[i]? = some t ∧ e.position = t.position ∧
      (∃ rest p, EndsOnce (ts.take i ++ rest) ∧
        (Reader.program.run (.ofTokens (ts.take i ++ rest))).1 = .ok p) ∧
      ∀ ts' : List Located, (ts.take (i + 1)).map Located.token <+: ts'.map Located.token →
        ∀ p, (Reader.program.run (.ofTokens ts')).1 ≠ .ok p := by
  obtain ⟨tokens, stop, rfl, hinside⟩ := hts
  rw [run, Feed.tokens_ofTokens hinside, Feed.stop_ofTokens hinside] at he
  obtain ⟨before, t, after, s, hsplit, hrun, hstep, hresult, rfl⟩ :=
    exists_fault_of_runFrom ProgramState.step?_eof he
  rw [hsplit]
  refine ⟨before.length, t, by simp, rfl, ?_, ?_⟩
  · rw [List.take_left]
    exact exists_accepted_of_after? hrun
  · intro ts' hbegin p
    rw [List.take_length_add_append, List.map_append] at hbegin
    exact not_accepted_of_stops hrun hstep hresult hbegin p

/-- The tokens of a program that defines an instruction twice, on three lines. -/
def hopTwice : List Located :=
  [⟨.keyword .programKw, ⟨1, 1⟩⟩, ⟨.ident "hopper", ⟨1, 9⟩⟩, ⟨.keyword .isKw, ⟨1, 16⟩⟩,
    ⟨.keyword .instructionKw, ⟨2, 1⟩⟩, ⟨.ident "hop", ⟨2, 13⟩⟩, ⟨.keyword .isKw, ⟨2, 17⟩⟩,
    ⟨.ident "move", ⟨2, 20⟩⟩, ⟨.keyword .endKw, ⟨2, 25⟩⟩, ⟨.ident "hop", ⟨2, 29⟩⟩,
    ⟨.keyword .instructionKw, ⟨3, 1⟩⟩, ⟨.ident "hop", ⟨3, 13⟩⟩, ⟨.keyword .isKw, ⟨3, 17⟩⟩,
    ⟨.eof, ⟨3, 19⟩⟩]

/-- Reading stops at the second use of the name. The tokens before it are the beginning of a
program, and with it they are not. -/
theorem program_error_at_first_dead_token_hopTwice :
    EndsOnce hopTwice ∧
    (Reader.program.run (.ofTokens hopTwice)).1 =
      .error (.fault ⟨3, 13⟩ (.duplicateInstruction "hop")) ∧
    ∃ i t, hopTwice[i]? = some t ∧ t.position = ⟨3, 13⟩ ∧
      (∃ rest p, EndsOnce (hopTwice.take i ++ rest) ∧
        (Reader.program.run (.ofTokens (hopTwice.take i ++ rest))).1 = .ok p) ∧
      ∀ ts' : List Located, (hopTwice.take (i + 1)).map Located.token <+: ts'.map Located.token →
        ∀ p, (Reader.program.run (.ofTokens ts')).1 ≠ .ok p := by
  have hends : EndsOnce hopTwice := ⟨hopTwice.dropLast, ⟨3, 19⟩, rfl, by decide⟩
  have hrun : (Reader.program.run (.ofTokens hopTwice)).1 =
      .error (.fault ⟨3, 13⟩ (.duplicateInstruction "hop")) := by cbv
  obtain ⟨i, t, hget, hposition, hviable, hdead⟩ := program_error_at_first_dead_token hends hrun
  exact ⟨hends, hrun, i, t, hget, hposition.symm, hviable, hdead⟩

end Reader

end RobotScript
