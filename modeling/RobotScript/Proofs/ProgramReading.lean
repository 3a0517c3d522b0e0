import Mathlib.Tactic
import RobotScript.Grammar.Program
import RobotScript.Proofs.BlockReading
import RobotScript.Proofs.Lookup

/-!
# Reading programs by the grammar

The reader of programs goes through the parts of a program in turn and leaves the blocks to the
reader of blocks. The same argument as there shows that it accepts exactly the grammar: each of its
states is described by the derivation trees of what has been read, and it gets through the yield of
every tree that keeps the rules about names and nesting. Those rules are checked at different
moments, a name when its instruction begins and the nesting when a branch or loop begins; in a tree
they are simply properties of the whole.

## Main definitions

* `ProgramState.Step` — the transitions of the reader, one by one.
* `ProgramState.Explains` — what has been read, as trees.

## Main results

* `ProgramState.step?_eq_some_iff`: the reader makes those transitions and no others.
* `ProgramState.Explains.step`, `ProgramState.Explains.run`: **the description is kept**.
* `ProgramState.after?_tokens`: the reader gets through the yield of a program.
* `ProgramState.after?_eq_complete_iff`: exactly the yields of valid trees are read as programs.
* `Reader.program_run_eq_ok_iff`: **the reader accepts exactly the grammar**, and a token list has
  one derivation at most.
-/

namespace RobotScript

open StatementTree (block blockTokens)
open ProgramTree (ValidInstructions Defines instructionTokens)

/-- A block that has been read ends at the word for the end. -/
theorem BlockState.step?_endKw_of_finished {block : BlockState} {body : Statement}
    (h : block.finished? = some body) : block.step? (.keyword .endKw) = none := by
  obtain ⟨_ | ⟨frame, frames⟩, read, due⟩ := block
  · cases due with
    | statement => rfl
    | ifCondition | thenWord | whileCondition | doWord | closingIf | closingWhile => cases h
  · cases h

namespace ProgramState

/-! ### The transitions -/

/-- The transitions of the reader. -/
inductive Step : ProgramState → Token → ProgramState → Prop
  | programWord : Step .opening (.keyword .programKw) .name
  | programName (n) : Step .name (.ident n) (.nameIs n)
  | isWord (n) : Step (.nameIs n) (.keyword .isKw) (.definitions n .empty)
  | instructionWord (n defs) :
      Step (.definitions n defs) (.keyword .instructionKw) (.definitionName n defs)
  /-- An instruction begins, if its name is free. -/
  | instructionName (n defs i) : isFree defs i →
      Step (.definitionName n defs) (.ident i) (.definitionIs n defs i)
  | instructionIs (n defs i) :
      Step (.definitionIs n defs i) (.keyword .isKw) (.definitionBody n defs i .initial)
  | inInstruction (n defs i) {block block' : BlockState} {token : Token} :
      block.step? token = some block' →
      Step (.definitionBody n defs i block) token (.definitionBody n defs i block')
  | instructionEnd (n defs i) {block : BlockState} {body : Statement} :
      block.finished? = some body →
      Step (.definitionBody n defs i block) (.keyword .endKw) (.definitionEnd n defs i body)
  | instructionClosing (n defs i body) :
      Step (.definitionEnd n defs i body) (.ident i) (.definitions n (defs.insert i body))
  | beginWord (n defs) :
      Step (.definitions n defs) (.keyword .beginKw) (.mainBody n defs .initial)
  | inMain (n defs) {block block' : BlockState} {token : Token} :
      block.step? token = some block' →
      Step (.mainBody n defs block) token (.mainBody n defs block')
  | mainEnd (n defs) {block : BlockState} {body : Statement} :
      block.finished? = some body →
      Step (.mainBody n defs block) (.keyword .endKw) (.mainEnd n defs body)
  | mainClosing (n defs body) :
      Step (.mainEnd n defs body) (.ident n) (.complete ⟨n, defs, body⟩)

/-- A block ends at the word for the end, when it has been read. -/
theorem endedBlock?_eq_some_iff {block : BlockState} {token : Token} {body : Statement} :
    endedBlock? block token = some body ↔
      token = .keyword .endKw ∧ block.finished? = some body := by
  by_cases htoken : token = .keyword .endKw
  · simp [endedBlock?, htoken]
  · simp [endedBlock?, htoken]

/-- **The reader makes these transitions and no others.** -/
theorem step?_eq_some_iff {s s' : ProgramState} {token : Token} :
    s.step? token = some s' ↔ Step s token s' := by
  constructor
  · intro h
    unfold step? at h
    split at h
    · obtain rfl := Option.some.inj h
      exact .programWord
    · obtain rfl := Option.some.inj h
      exact .programName _
    · obtain rfl := Option.some.inj h
      exact .isWord _
    · obtain rfl := Option.some.inj h
      exact .instructionWord _ _
    · obtain rfl := Option.some.inj h
      exact .beginWord _ _
    · -- the name of an instruction
      split at h
      · rename_i hfree
        obtain rfl := Option.some.inj h
        exact .instructionName _ _ _ hfree
      · cases h
    · obtain rfl := Option.some.inj h
      exact .instructionIs _ _ _
    · -- in the body of an instruction
      split at h
      · rename_i hstep
        obtain rfl := Option.some.inj h
        exact .inInstruction _ _ _ hstep
      · obtain ⟨body, hended, rfl⟩ := Option.map_eq_some_iff.mp h
        obtain ⟨rfl, hfinished⟩ := endedBlock?_eq_some_iff.mp hended
        exact .instructionEnd _ _ _ hfinished
    · -- the closing name of an instruction
      split at h
      · rename_i hclosing
        obtain rfl := hclosing
        obtain rfl := Option.some.inj h
        exact .instructionClosing _ _ _ _
      · cases h
    · -- in the main body
      split at h
      · rename_i hstep
        obtain rfl := Option.some.inj h
        exact .inMain _ _ hstep
      · obtain ⟨body, hended, rfl⟩ := Option.map_eq_some_iff.mp h
        obtain ⟨rfl, hfinished⟩ := endedBlock?_eq_some_iff.mp hended
        exact .mainEnd _ _ hfinished
    · -- the closing name of the program
      split at h
      · rename_i hclosing
        obtain rfl := hclosing
        obtain rfl := Option.some.inj h
        exact .mainClosing _ _ _
      · cases h
    · cases h
  · intro h
    cases h with
    | programWord | programName | isWord | instructionWord | instructionIs | beginWord => rfl
    | instructionName n defs i hfree => simp [step?, hfree]
    | inInstruction n defs i hstep => simp [step?, hstep]
    | instructionEnd n defs i hfinished =>
        simp [step?, BlockState.step?_endKw_of_finished hfinished, endedBlock?, hfinished]
    | instructionClosing n defs i body => simp [step?]
    | inMain n defs hstep => simp [step?, hstep]
    | mainEnd n defs hfinished =>
        simp [step?, BlockState.step?_endKw_of_finished hfinished, endedBlock?, hfinished]
    | mainClosing n defs body => simp [step?]

/-- The reader is stuck where it has no transition. -/
theorem step?_eq_none_iff {s : ProgramState} {token : Token} :
    s.step? token = none ↔ ∀ s', ¬ Step s token s' := by
  simp only [Option.eq_none_iff_forall_ne_some, ne_eq, step?_eq_some_iff]

/-- A run begins with a transition. -/
theorem after?_cons {s s' : ProgramState} {token : Token} (h : Step s token s')
    (rest : List Token) :
    Reader.program.after? s (token :: rest) = Reader.program.after? s' rest :=
  Reader.after?_cons_of_step (step?_eq_some_iff.mpr h) rest

/-! ### Instructions one after another -/

/-- A name is free exactly if it is no action and no instruction has it. -/
theorem isFree_iff {instructions : List (String × List StatementTree)} {defs : Definitions}
    (h : Defines instructions defs) {i : String} :
    isFree defs i = true ↔ Action.isName i = false ∧ i ∉ instructions.map Prod.fst := by
  have hcontains : defs.contains i = true ↔ i ∈ instructions.map Prod.fst := by
    rw [Definitions.contains, Option.isSome_iff_exists, List.mem_map]
    constructor
    · rintro ⟨body, hfind⟩
      obtain ⟨instruction, hmem, hname, -⟩ := (h i body).mp hfind
      exact ⟨instruction, hmem, hname⟩
    · rintro ⟨instruction, hmem, hname⟩
      exact ⟨_, (h i _).mpr ⟨instruction, hmem, hname, rfl⟩⟩
  rw [isFree, Bool.and_eq_true, Bool.not_eq_true', Bool.not_eq_true', ← hcontains,
    Bool.not_eq_true]

/-- Without instructions nothing is defined. -/
theorem defines_nil : Defines [] .empty := by
  intro name body
  simp

/-- One more instruction defines its name, and leaves the other names as they are. -/
theorem defines_concat {instructions : List (String × List StatementTree)} {defs : Definitions}
    (h : Defines instructions defs) {i : String} (hi : i ∉ instructions.map Prod.fst)
    (body : List StatementTree) :
    Defines (instructions ++ [(i, body)]) (defs.insert i (block body)) := by
  intro name b
  rw [Definitions.find?_insert]
  by_cases hname : i = name
  · subst hname
    rw [if_pos rfl]
    constructor
    · intro hb
      exact ⟨(i, body), by simp, rfl, Option.some.inj hb⟩
    · rintro ⟨instruction, hmem, hsame, rfl⟩
      rcases List.mem_append.mp hmem with hold | hnew
      · exact absurd (List.mem_map.mpr ⟨instruction, hold, hsame⟩) hi
      · obtain rfl := List.mem_singleton.mp hnew
        rfl
  · rw [if_neg hname, h name b]
    constructor
    · rintro ⟨instruction, hmem, hsame, hb⟩
      exact ⟨instruction, List.mem_append_left _ hmem, hsame, hb⟩
    · rintro ⟨instruction, hmem, hsame, hb⟩
      rcases List.mem_append.mp hmem with hold | hnew
      · exact ⟨instruction, hold, hsame, hb⟩
      · obtain rfl := List.mem_singleton.mp hnew
        exact absurd hsame hname

/-- Only one collection holds the definitions of given instructions. -/
theorem defines_unique {instructions : List (String × List StatementTree)}
    {defs defs' : Definitions} (h : Defines instructions defs) (h' : Defines instructions defs') :
    defs = defs' :=
  Definitions.ext_find? fun name body => (h name body).trans (h' name body).symm

/-- The rules about one more instruction: its name is new and no action, and there is room for its
nesting. -/
theorem validInstructions_concat_iff {instructions : List (String × List StatementTree)}
    {i : String} {body : List StatementTree} :
    ValidInstructions (instructions ++ [(i, body)]) ↔
      ValidInstructions instructions ∧ (Action.isName i = false ∧ i ∉ instructions.map Prod.fst) ∧
        (block body).nesting ≤ maxNesting := by
  constructor
  · rintro ⟨hdistinct, hnotAction, hnesting⟩
    rw [List.map_append, List.nodup_append] at hdistinct
    obtain ⟨hold, -, hnew⟩ := hdistinct
    refine ⟨⟨hold, fun j hj => hnotAction j (List.mem_append_left _ hj),
      fun j hj => hnesting j (List.mem_append_left _ hj)⟩,
      ⟨hnotAction (i, body) (by simp), fun hmem => ?_⟩, hnesting (i, body) (by simp)⟩
    exact hnew i hmem i (by simp) rfl
  · rintro ⟨⟨hdistinct, hnotAction, hnesting⟩, ⟨hi, hnew⟩, hbody⟩
    refine ⟨?_, ?_, ?_⟩
    · rw [List.map_append, List.nodup_append]
      refine ⟨hdistinct, by simp, fun j hj k hk => ?_⟩
      obtain rfl : k = i := by simpa using hk
      rintro rfl
      exact hnew hj
    · intro j hj
      rcases List.mem_append.mp hj with hold | hlast
      · exact hnotAction j hold
      · obtain rfl := List.mem_singleton.mp hlast
        exact hi
    · intro j hj
      rcases List.mem_append.mp hj with hold | hlast
      · exact hnesting j hold
      · obtain rfl := List.mem_singleton.mp hlast
        exact hbody

/-! ### From runs to trees -/

/-- What has been read up to the end of some instruction, or before the first: the beginning of the
program `n`, and the instructions that have given the definitions. -/
def Collected (n : String) (defs : Definitions) (tokens : List Token) : Prop :=
  ∃ instructions, ValidInstructions instructions ∧ Defines instructions defs ∧
    tokens = [.keyword .programKw, .ident n, .keyword .isKw] ++
      instructions.flatMap instructionTokens

/-- The tokens are what the reader has read in this state. -/
def Explains : ProgramState → List Token → Prop
  | opening, tokens => tokens = []
  | name, tokens => tokens = [.keyword .programKw]
  | nameIs n, tokens => tokens = [.keyword .programKw, .ident n]
  | definitions n defs, tokens => Collected n defs tokens
  | definitionName n defs, tokens =>
    ∃ collected, Collected n defs collected ∧ tokens = collected ++ [.keyword .instructionKw]
  | definitionIs n defs i, tokens =>
    ∃ collected, Collected n defs collected ∧ isFree defs i = true ∧
      tokens = collected ++ [.keyword .instructionKw, .ident i]
  | definitionBody n defs i block, tokens =>
    ∃ collected inner, Collected n defs collected ∧ isFree defs i = true ∧ block.Explains inner ∧
      tokens = collected ++ [.keyword .instructionKw, .ident i, .keyword .isKw] ++ inner
  | definitionEnd n defs i b, tokens =>
    ∃ collected body, Collected n defs collected ∧ isFree defs i = true ∧
      block body = b ∧ b.nesting ≤ maxNesting ∧
      tokens = collected ++ [.keyword .instructionKw, .ident i, .keyword .isKw] ++
        blockTokens body ++ [.keyword .endKw]
  | mainBody n defs block, tokens =>
    ∃ collected inner, Collected n defs collected ∧ block.Explains inner ∧
      tokens = collected ++ [.keyword .beginKw] ++ inner
  | mainEnd n defs b, tokens =>
    ∃ collected body, Collected n defs collected ∧ block body = b ∧ b.nesting ≤ maxNesting ∧
      tokens = collected ++ [.keyword .beginKw] ++ blockTokens body ++ [.keyword .endKw]
  | complete p, tokens => ∃ d : ProgramTree, d.tokens = tokens ∧ d.Valid ∧ d.Denotes p

/-- An instruction that has been read is collected. -/
theorem Collected.concat {n i : String} {defs : Definitions} {collected : List Token}
    (h : Collected n defs collected) (hfree : isFree defs i = true) {body : List StatementTree}
    (hroom : (block body).nesting ≤ maxNesting) :
    Collected n (defs.insert i (block body)) (collected ++ instructionTokens (i, body)) := by
  obtain ⟨instructions, hvalid, hdefines, rfl⟩ := h
  have hname := (isFree_iff hdefines).mp hfree
  exact ⟨instructions ++ [(i, body)], validInstructions_concat_iff.mpr ⟨hvalid, hname, hroom⟩,
    defines_concat hdefines hname.2 body, by simp⟩

/-- **A step keeps the description** of what has been read. -/
theorem Explains.step {s s' : ProgramState} {token : Token} {tokens : List Token}
    (h : s.Explains tokens) (hstep : Step s token s') : s'.Explains (tokens ++ [token]) := by
  cases hstep with
  | programWord =>
      obtain rfl : tokens = [] := h
      rfl
  | programName n =>
      obtain rfl : tokens = [.keyword .programKw] := h
      rfl
  | isWord n =>
      obtain rfl : tokens = [.keyword .programKw, .ident n] := h
      exact ⟨[], ⟨.nil, by simp, by simp⟩, defines_nil, rfl⟩
  | instructionWord n defs => exact ⟨tokens, h, rfl⟩
  | instructionName n defs i hfree =>
      obtain ⟨collected, hcollected, rfl⟩ := h
      exact ⟨collected, hcollected, hfree, by simp⟩
  | instructionIs n defs i =>
      obtain ⟨collected, hcollected, hfree, rfl⟩ := h
      exact ⟨collected, [], hcollected, hfree, BlockState.explains_initial, by simp⟩
  | inInstruction n defs i hblock =>
      obtain ⟨collected, inner, hcollected, hfree, hinner, rfl⟩ := h
      exact ⟨collected, _, hcollected, hfree,
        hinner.step (BlockState.step?_eq_some_iff.mp hblock), by simp⟩
  | instructionEnd n defs i hfinished =>
      obtain ⟨collected, inner, hcollected, hfree, hinner, rfl⟩ := h
      obtain ⟨body, rfl, rfl, hroom⟩ := hinner.exists_block hfinished
      exact ⟨collected, body, hcollected, hfree, rfl, hroom, rfl⟩
  | instructionClosing n defs i b =>
      obtain ⟨collected, body, hcollected, hfree, rfl, hroom, rfl⟩ := h
      have hconcat := hcollected.concat hfree hroom
      simpa [Explains, instructionTokens] using hconcat
  | beginWord n defs =>
      exact ⟨tokens, [], h, BlockState.explains_initial, by simp⟩
  | inMain n defs hblock =>
      obtain ⟨collected, inner, hcollected, hinner, rfl⟩ := h
      exact ⟨collected, _, hcollected, hinner.step (BlockState.step?_eq_some_iff.mp hblock),
        by simp⟩
  | mainEnd n defs hfinished =>
      obtain ⟨collected, inner, hcollected, hinner, rfl⟩ := h
      obtain ⟨body, rfl, rfl, hroom⟩ := hinner.exists_block hfinished
      exact ⟨collected, body, hcollected, rfl, hroom, rfl⟩
  | mainClosing n defs b =>
      obtain ⟨collected, body, ⟨instructions, hvalid, hdefines, rfl⟩, rfl, hroom, rfl⟩ := h
      exact ⟨⟨n, instructions, body⟩, by simp [ProgramTree.tokens], ⟨hvalid, hroom⟩,
        ⟨rfl, hdefines, rfl⟩⟩

/-- **A run keeps the description.** -/
theorem Explains.run {s s' : ProgramState} {tokens more : List Token} (h : s.Explains tokens)
    (hrun : Reader.program.after? s more = some s') : s'.Explains (tokens ++ more) :=
  Reader.after?_invariant (fun h hstep => h.step (step?_eq_some_iff.mp hstep)) h hrun

/-! ### From trees to runs -/

/-- The reader gets through the body of an instruction, and the word after it. -/
theorem after?_definitionBody {n i : String} {defs : Definitions} {body : List StatementTree}
    (hroom : (block body).nesting ≤ maxNesting) (rest : List Token) :
    Reader.program.after? (definitionBody n defs i .initial)
        (blockTokens body ++ .keyword .endKw :: rest) =
      Reader.program.after? (definitionEnd n defs i (block body)) rest := by
  obtain ⟨s, hrun, hfinished⟩ := BlockState.exists_finished_iff.mpr ⟨body, rfl, rfl, hroom⟩
  have hcarried : Reader.program.after? (definitionBody n defs i .initial) (blockTokens body) =
      some (definitionBody n defs i s) :=
    Reader.after?_of_steps (fun h => step?_eq_some_iff.mpr (.inInstruction n defs i h)) hrun
  rw [Reader.after?_append_of hcarried, after?_cons (.instructionEnd n defs i hfinished)]

/-- The reader gets through the main body, and the word after it. -/
theorem after?_mainBody {n : String} {defs : Definitions} {body : List StatementTree}
    (hroom : (block body).nesting ≤ maxNesting) (rest : List Token) :
    Reader.program.after? (mainBody n defs .initial)
        (blockTokens body ++ .keyword .endKw :: rest) =
      Reader.program.after? (mainEnd n defs (block body)) rest := by
  obtain ⟨s, hrun, hfinished⟩ := BlockState.exists_finished_iff.mpr ⟨body, rfl, rfl, hroom⟩
  have hcarried : Reader.program.after? (mainBody n defs .initial) (blockTokens body) =
      some (mainBody n defs s) :=
    Reader.after?_of_steps (fun h => step?_eq_some_iff.mpr (.inMain n defs h)) hrun
  rw [Reader.after?_append_of hcarried, after?_cons (.mainEnd n defs hfinished)]

/-- The reader gets through instructions that are valid together with those before them, and has
then collected the definitions of all. -/
theorem exists_after?_instructions {n : String} {defs : Definitions}
    {before : List (String × List StatementTree)} (hdefines : Defines before defs)
    {instructions : List (String × List StatementTree)}
    (hvalid : ValidInstructions (before ++ instructions)) :
    ∃ defs', Defines (before ++ instructions) defs' ∧
      Reader.program.after? (definitions n defs) (instructions.flatMap instructionTokens) =
        some (definitions n defs') := by
  induction instructions generalizing before defs with
  | nil =>
      rw [List.append_nil]
      exact ⟨defs, hdefines, rfl⟩
  | cons instruction instructions ih =>
      obtain ⟨i, body⟩ := instruction
      rw [List.append_cons] at hvalid ⊢
      have hfirst : ValidInstructions (before ++ [(i, body)]) :=
        ⟨(List.nodup_append.mp (List.map_append ▸ hvalid.distinct)).1,
          fun j hj => hvalid.notAction j (List.mem_append_left _ hj),
          fun j hj => hvalid.nesting j (List.mem_append_left _ hj)⟩
      obtain ⟨-, hname, hroom⟩ := validInstructions_concat_iff.mp hfirst
      have hfree := (isFree_iff hdefines).mpr hname
      obtain ⟨defs', hdefines', hrun⟩ := ih (defines_concat hdefines hname.2 body) hvalid
      refine ⟨defs', hdefines', ?_⟩
      simp only [List.flatMap_cons, instructionTokens, List.append_assoc, List.cons_append,
        List.nil_append]
      rw [after?_cons (.instructionWord n defs), after?_cons (.instructionName n defs i hfree),
        after?_cons (.instructionIs n defs i), after?_definitionBody hroom,
        after?_cons (.instructionClosing n defs i _), hrun]

/-- **The reader gets through the yield of a valid program** and has then read what the tree
denotes. -/
theorem after?_tokens {d : ProgramTree} {p : Program} (hvalid : d.Valid) (hdenotes : d.Denotes p) :
    Reader.program.after? opening d.tokens = some (complete p) := by
  obtain ⟨n, instructions, body⟩ := d
  obtain ⟨name, defs, b⟩ := p
  obtain ⟨hname, hdefines, hbody⟩ := hdenotes
  obtain rfl : name = n := hname
  obtain rfl : b = block body := hbody
  obtain ⟨defs', hdefines', hrun⟩ :=
    @exists_after?_instructions name .empty [] defines_nil instructions hvalid.instructions
  obtain rfl : defs' = defs := defines_unique hdefines' hdefines
  simp only [ProgramTree.tokens, List.append_assoc, List.cons_append, List.nil_append]
  rw [after?_cons .programWord, after?_cons (.programName name), after?_cons (.isWord name),
    Reader.after?_append_of hrun, after?_cons (.beginWord name defs'),
    after?_mainBody hvalid.nesting, after?_cons (.mainClosing name defs' _)]
  rfl

/-- Exactly the yields of valid trees are read as programs, and as those that the trees denote. -/
theorem after?_eq_complete_iff {tokens : List Token} {p : Program} :
    Reader.program.after? opening tokens = some (complete p) ↔
      ∃ d : ProgramTree, d.tokens = tokens ∧ d.Valid ∧ d.Denotes p := by
  constructor
  · intro hrun
    have hexplains : opening.Explains [] := rfl
    exact hexplains.run hrun
  · rintro ⟨d, rfl, hvalid, hdenotes⟩
    exact after?_tokens hvalid hdenotes

end ProgramState

/-! ### The reader and the grammar -/

/-- Before the end of the input the reader of programs has no result. -/
theorem Reader.program_result?_of_ne_eof {token : Token} (h : token ≠ .eof) (s : ProgramState) :
    Reader.program.result? s token = none := by
  cases s with
  | complete p =>
      cases token with
      | eof => exact absurd rfl h
      | keyword | condition | ident | other | comment | newline => rfl
  | opening | name | nameIs | definitions | definitionName | definitionIs | definitionBody
  | definitionEnd | mainBody | mainEnd => rfl

/-- At the end of the input only a complete program is a result. -/
theorem Reader.program_result?_eof_iff {s : ProgramState} {p : Program} :
    Reader.program.result? s .eof = some p ↔ s = .complete p := by
  cases s with
  | complete q => simp [Reader.program]
  | opening | name | nameIs | definitions | definitionName | definitionIs | definitionBody
  | definitionEnd | mainBody | mainEnd => simp [Reader.program]

/-- The feed of a token list that ends with its only end of input has the tokens before that. -/
theorem Feed.tokens_ofTokens {tokens : List Located} (h : ∀ t ∈ tokens, t.token ≠ .eof)
    (stop : Position) : (Feed.ofTokens (tokens ++ [⟨.eof, stop⟩])).tokens = tokens := by
  have hinside : ∀ t ∈ tokens, isInside t = true := fun t ht => by
    simpa [isInside] using h t ht
  rw [ofTokens, List.takeWhile_append_of_pos hinside,
    List.takeWhile_cons_of_neg (by simp [isInside]), List.append_nil]

/-- Reading a token list that ends with its only end of input gives a program exactly if the tokens
before that are the yield of a valid tree that denotes it. -/
theorem Reader.program_run_iff_exists_tree {tokens : List Located}
    (h : ∀ t ∈ tokens, t.token ≠ .eof) (stop : Position) (p : Program) :
    (Reader.program.run (.ofTokens (tokens ++ [⟨.eof, stop⟩]))).1 = .ok p ↔
      ∃ d : ProgramTree, d.tokens = tokens.map Located.token ∧ d.Valid ∧ d.Denotes p := by
  rw [Reader.run, Feed.tokens_ofTokens h]
  change (Reader.program.runFrom _ .opening tokens).1 = .ok p ↔ _
  rw [Reader.runFrom_eq_ok_iff fun t ht => Reader.program_result?_of_ne_eof (h t ht),
    ← ProgramState.after?_eq_complete_iff]
  constructor
  · rintro ⟨s, hrun, hresult⟩
    rwa [← Reader.program_result?_eof_iff.mp hresult]
  · intro hrun
    exact ⟨_, hrun, Reader.program_result?_eof_iff.mpr rfl⟩

/-- **The reader accepts exactly the grammar.** It reads a token list, of which only the last is the
end of the input, as the program `p` exactly if the tokens before the end are the yield of a
derivation tree that keeps the rules about names and nesting and denotes `p`; and there is only one
tree with that yield. -/
theorem Reader.program_run_eq_ok_iff (tokens : List Located) (stop : Position)
    (heof : ∀ t ∈ tokens, t.token ≠ .eof) (p : Program) :
    ((Reader.program.run (.ofTokens (tokens ++ [⟨.eof, stop⟩]))).1 = .ok p ↔
      ∃ d : ProgramTree, d.tokens = tokens.map Located.token ∧ d.Valid ∧ d.Denotes p) ∧
    ∀ d d' : ProgramTree, d.tokens = tokens.map Located.token →
      d'.tokens = tokens.map Located.token → d = d' := by
  refine ⟨Reader.program_run_iff_exists_tree heof stop p, ?_⟩
  intro d d' hd hd'
  exact ProgramTree.tokens_injective (hd.trans hd'.symm)

/-- The program that goes ahead for as long as it can and then turns back, with an instruction for
turning back. -/
def outAndBack : Program :=
  ⟨"out-and-back",
    .ofList [("turnback", .block [.call "turnleft", .call "turnleft"])],
    .block [.whileDo (.ahead .empty false) (.block [.call "move"]), .call "turnback"]⟩

/-- The tokens of that program on one line. -/
def outAndBackTokens : List Located :=
  [⟨.keyword .programKw, ⟨1, 1⟩⟩, ⟨.ident "out-and-back", ⟨1, 9⟩⟩, ⟨.keyword .isKw, ⟨1, 22⟩⟩,
    ⟨.keyword .instructionKw, ⟨1, 25⟩⟩, ⟨.ident "turnback", ⟨1, 37⟩⟩, ⟨.keyword .isKw, ⟨1, 46⟩⟩,
    ⟨.ident "turnleft", ⟨1, 49⟩⟩, ⟨.ident "turnleft", ⟨1, 58⟩⟩,
    ⟨.keyword .endKw, ⟨1, 67⟩⟩, ⟨.ident "turnback", ⟨1, 71⟩⟩, ⟨.keyword .beginKw, ⟨1, 80⟩⟩,
    ⟨.keyword .whileKw, ⟨1, 86⟩⟩, ⟨.condition (.ahead .empty false), ⟨1, 92⟩⟩,
    ⟨.keyword .doKw, ⟨1, 106⟩⟩, ⟨.ident "move", ⟨1, 109⟩⟩, ⟨.keyword .endKw, ⟨1, 114⟩⟩,
    ⟨.keyword .whileKw, ⟨1, 118⟩⟩, ⟨.ident "turnback", ⟨1, 124⟩⟩, ⟨.keyword .endKw, ⟨1, 133⟩⟩,
    ⟨.ident "out-and-back", ⟨1, 137⟩⟩]

/-- The tokens of that program are read as it, and have one derivation. -/
theorem Reader.program_run_outAndBack :
    (Reader.program.run (.ofTokens (outAndBackTokens ++ [⟨.eof, ⟨1, 149⟩⟩]))).1 = .ok outAndBack ∧
      (∃ d : ProgramTree, d.tokens = outAndBackTokens.map Located.token ∧ d.Valid ∧
        d.Denotes outAndBack) ∧
      ∀ d d' : ProgramTree, d.tokens = outAndBackTokens.map Located.token →
        d'.tokens = outAndBackTokens.map Located.token → d = d' := by
  have heof : ∀ t ∈ outAndBackTokens, t.token ≠ .eof := by decide
  have hrun : (Reader.program.run (.ofTokens (outAndBackTokens ++ [⟨.eof, ⟨1, 149⟩⟩]))).1 =
      .ok outAndBack := by cbv
  have h := Reader.program_run_eq_ok_iff outAndBackTokens ⟨1, 149⟩ heof outAndBack
  exact ⟨hrun, h.1.mp hrun, h.2⟩

end RobotScript
