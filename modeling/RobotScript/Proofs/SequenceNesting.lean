import Mathlib.Tactic
import RobotScript.Proofs.Flattening
import RobotScript.Proofs.Generation
import RobotScript.Proofs.Spacing
import RobotScript.Proofs.ViablePrefix

/-!
# The nesting of sequences leaves no trace

A statement that is put together by hand can have sequences inside sequences, and bodies that are no
sequences. Neither can be seen from outside. The code generator treats the statement as its flat
form, in its code, in its errors and in what it reports on the way: a sequence takes no level of its
own, and its members are generated one after another wherever it stands. The layout of the statement
is a text that is read back, and what is read is the flat form.

## Main results

* `Statement.emit_flat`, `Statement.compile_flat`: **generating code does not tell a statement from
  its flat form**.
* `Statement.block_trees_eq_flat`: the trees of a statement derive its flat form.
* `Reader.block_run_of_blockTokens`: the yield of a block is read as the block, and nothing is left.
* `Statement.flat_indistinguishable`: **a statement is compiled and written as its flat form**.
-/

namespace RobotScript

namespace Statement

variable {defs : Definitions} {chain : List String}

/-! ### Generating code -/

/-- **Generating code does not tell a statement from its flat form**, wherever it is placed and
however many levels are left. -/
theorem emit_flat (s : Statement) (levels start : Nat) :
    emit defs chain levels start s.flat = emit defs chain levels start s := by
  induction s using Statement.induction generalizing levels start with
  | block body ih =>
      rw [flat, members_tidy_block, emit_block, emit_block]
      induction body generalizing start with
      | nil => rfl
      | cons s rest ihRest =>
          have hs : emitAll defs chain levels start s.tidy.members =
              emit defs chain levels start s := by
            rw [← emit_block, ← flat, ih s List.mem_cons_self]
          rw [List.flatMap_cons, emitAll_append, hs, emitAll]
          simp only [ihRest fun t ht => ih t (List.mem_cons_of_mem s ht)]
  | ifThen c body ih =>
      rw [flat, members_tidy_ifThen, emit_block, emitAll_singleton]
      cases levels with
      | zero => rw [emit_zero rfl, emit_zero rfl]
      | succ levels => simp only [emit, ih]
  | ifElse c thenBody elseBody ihThen ihElse =>
      rw [flat, members_tidy_ifElse, emit_block, emitAll_singleton]
      cases levels with
      | zero => rw [emit_zero rfl, emit_zero rfl]
      | succ levels => simp only [emit, ihThen, ihElse]
  | whileDo c body ih =>
      rw [flat, members_tidy_whileDo, emit_block, emitAll_singleton]
      cases levels with
      | zero => rw [emit_zero rfl, emit_zero rfl]
      | succ levels => simp only [emit, ih]
  | call name => rw [flat, members_tidy_call, emit_block, emitAll_singleton]

/-- The flat form of a main body has the same code or the same error, with the same events. -/
theorem compile_flat (s : Statement) (defs : Definitions) :
    s.flat.compile defs = s.compile defs := by
  rw [compile, compile, emit_flat]

/-! ### The derivation of the flat form -/

/-- Branches and loops stand as deep in one another in the flat form. -/
theorem nesting_flat (s : Statement) : s.flat.nesting = s.nesting := by
  induction s using Statement.induction with
  | block body ih =>
      rw [flat, members_tidy_block, nesting, nesting]
      induction body with
      | nil => rfl
      | cons s rest ihRest =>
          have hs : nestingAll s.tidy.members = s.nesting := by
            simpa [flat, nesting] using ih s List.mem_cons_self
          rw [List.flatMap_cons, nestingAll_append, nestingAll, hs,
            ihRest fun t ht => ih t (List.mem_cons_of_mem s ht)]
  | ifThen c body ih => simp [flat, nesting, nestingAll, ← ih]
  | ifElse c thenBody elseBody ihThen ihElse =>
      simp [flat, nesting, nestingAll, ← ihThen, ← ihElse]
  | whileDo c body ih => simp [flat, nesting, nestingAll, ← ih]
  | call name => simp [flat, nesting, nestingAll]

/-- **The trees of a statement derive its flat form.** -/
theorem block_trees_eq_flat (s : Statement) : StatementTree.block s.trees = s.flat := by
  induction s using Statement.induction with
  | block body ih =>
      have hmembers : ∀ s ∈ body, s.trees.map StatementTree.statement = s.tidy.members :=
        fun s hs => Statement.block.inj (ih s hs)
      rw [StatementTree.block, trees, List.map_flatMap, flat, members_tidy_block,
        List.flatMap_congr hmembers]
  | ifThen c body ih =>
      rw [flat, members_tidy_ifThen, ← ih]
      simp [StatementTree.block, trees, StatementTree.statement, Guard.condition]
  | ifElse c thenBody elseBody ihThen ihElse =>
      rw [flat, members_tidy_ifElse, ← ihThen, ← ihElse]
      simp [StatementTree.block, trees, StatementTree.statement, Guard.condition]
  | whileDo c body ih =>
      rw [flat, members_tidy_whileDo, ← ih]
      simp [StatementTree.block, trees, StatementTree.statement, Guard.condition]
  | call name => simp [StatementTree.block, flat, trees, StatementTree.statement]

end Statement

/-! ### Reading the layout -/

/-- **The yield of a block is read as the block**, if there is room for its nesting. It has no end
of input inside, and nothing but the end of the input is left. -/
theorem Reader.block_run_of_blockTokens {tokens : List Located} {body : List StatementTree}
    (htokens : StatementTree.blockTokens body = tokens.map Located.token)
    (hroom : (StatementTree.block body).nesting ≤ maxNesting) (stop : Position) :
    (∀ t ∈ tokens, t.token ≠ .eof) ∧
      Reader.block.run (.ofTokens (tokens ++ [⟨.eof, stop⟩])) =
        (.ok (StatementTree.block body), .ofTokens [⟨.eof, stop⟩]) := by
  obtain ⟨s, hrun, hfinished⟩ := BlockState.exists_finished_iff.mpr ⟨body, htokens, rfl, hroom⟩
  have heof : .eof ∉ tokens.map Located.token :=
    Reader.not_mem_of_after? BlockState.step?_eof hrun
  have hinside : ∀ t ∈ tokens, t.token ≠ .eof := fun t ht htoken =>
    heof (htoken ▸ List.mem_map_of_mem ht)
  have hresult : Reader.block.result? s .eof = some (StatementTree.block body) := hfinished
  have hread : Reader.block.runFrom stop Reader.block.initial tokens =
      (.ok (StatementTree.block body), []) := by
    have hall := Reader.runFrom_append_of_after?
      (fun hstep => (BlockState.step?_eq_some_iff.mp hstep).result?_eq_none) hrun stop []
    rwa [List.append_nil, Reader.runFrom, hresult] at hall
  refine ⟨hinside, ?_⟩
  rw [Reader.run, Feed.tokens_ofTokens hinside, Feed.stop_ofTokens hinside, hread]
  rfl

namespace Statement

/-- **A statement is compiled and written as its flat form.** With any instructions, the two have
the same code or the same error. If the statement calls nothing but identifiers and no branches and
loops stand more than 128 deep in one another, the text of its layout at any indentation is scanned
as tokens that are read as the block that is its flat form, up to the end of the input. -/
theorem flat_indistinguishable (s : Statement) :
    (∀ defs, s.flat.compile defs = s.compile defs) ∧
    ((∀ name ∈ s.callNames, isIdentifier name = true) → s.nesting ≤ 128 →
      ∀ indent, ∃ tokens stop,
        scanProgram (s.render indent) = .ok (tokens ++ [⟨.eof, stop⟩]) ∧
        (∀ t ∈ tokens, t.token ≠ .eof) ∧
        Reader.block.run (.ofTokens (tokens ++ [⟨.eof, stop⟩])) =
          (.ok s.flat, .ofTokens [⟨.eof, stop⟩])) := by
  refine ⟨s.compile_flat, fun hcalls hnesting indent => ?_⟩
  obtain ⟨located, hscan, hlocated⟩ := (show_lines hcalls indent).scans.exists_scanProgram
  obtain ⟨tokens, last, rfl, htokens, hlast⟩ := List.map_eq_append_iff.mp hlocated
  obtain ⟨⟨_, stop⟩, rfl, rfl⟩ := List.map_eq_singleton_iff.mp hlast
  have hroom : (StatementTree.block s.trees).nesting ≤ maxNesting := by
    rwa [block_trees_eq_flat, nesting_flat]
  obtain ⟨hinside, hread⟩ := Reader.block_run_of_blockTokens htokens.symm hroom stop
  rw [block_trees_eq_flat] at hread
  exact ⟨tokens, stop, hscan, hinside, hread⟩

/-- A sequence with sequences inside, a loop and a branch with bodies that are no sequences. -/
def patrol : Statement :=
  .block [.block [.block [], .call "move"], .whileDo (.ahead .empty false) (.call "move"),
    .block [.ifElse .random (.block [.block [.call "circle"]]) (.call "turnright")]]

/-- The flat form has the loop and the branch in one sequence with the action before them, and
sequences for their bodies. The text of the statement at an indentation of two columns is read as
that. Without a definition of what is called, both fail to compile in the same way. -/
theorem flat_indistinguishable_patrol :
    patrol.flat = .block [.call "move", .whileDo (.ahead .empty false) (.block [.call "move"]),
      .ifElse .random (.block [.call "circle"]) (.block [.call "turnright"])] ∧
    (patrol.flat.compile .empty).outcome = .error (.undefined "circle") ∧
    (∀ name ∈ patrol.callNames, isIdentifier name = true) ∧ patrol.nesting ≤ 128 ∧
    ∃ tokens stop,
      scanProgram ("  move\n  WHILE next-is-empty DO\n      move\n  END WHILE\n" ++
          "  IF random THEN\n      circle\n  ELSE\n      turnright\n  END IF\n") =
        .ok (tokens ++ [⟨.eof, stop⟩]) ∧
      Reader.block.run (.ofTokens (tokens ++ [⟨.eof, stop⟩])) =
        (.ok patrol.flat, .ofTokens [⟨.eof, stop⟩]) := by
  have hcalls : ∀ name ∈ patrol.callNames, isIdentifier name = true := by
    simp only [patrol, callNames, List.flatMap_cons, List.flatMap_nil, List.append_nil,
      List.nil_append, List.cons_append, List.forall_mem_cons]
    exact ⟨rfl, rfl, rfl, rfl, by simp⟩
  have hnesting : patrol.nesting ≤ 128 := by decide
  have hcompile : (patrol.compile .empty).outcome = .error (.undefined "circle") := by cbv
  have hrender : patrol.render 2 =
      "  move\n  WHILE next-is-empty DO\n      move\n  END WHILE\n" ++
        "  IF random THEN\n      circle\n  ELSE\n      turnright\n  END IF\n" := by
    have hlines : patrol.lines 2 =
        [⟨2, ["move"]⟩, ⟨2, ["WHILE", "next-is-empty", "DO"]⟩, ⟨6, ["move"]⟩, ⟨2, ["END", "WHILE"]⟩,
          ⟨2, ["IF", "random", "THEN"]⟩, ⟨6, ["circle"]⟩, ⟨2, ["ELSE"]⟩, ⟨6, ["turnright"]⟩,
          ⟨2, ["END", "IF"]⟩] := by cbv
    rw [render, hlines]
    decide +kernel
  obtain ⟨hflat, hread⟩ := flat_indistinguishable patrol
  obtain ⟨tokens, stop, hscan, -, hrun⟩ := hread hcalls hnesting 2
  rw [hrender] at hscan
  refine ⟨by cbv, ?_, hcalls, hnesting, tokens, stop, hscan, hrun⟩
  rw [hflat, hcompile]

end Statement

end RobotScript
