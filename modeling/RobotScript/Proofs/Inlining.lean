import Mathlib.Tactic
import RobotScript.Proofs.CallGraph
import RobotScript.Proofs.Expansion

/-!
# Inserting bodies is writing calls out

The generator meets the same instruction at many addresses and at many depths, and inserts its body
each time, with jumps that fit the place. The outcome is as if the program had been written without
instructions: the expansion of a main body calls only actions, needs no definitions, and has the
same code.

That the main body has code also says that it has an expansion at all. An instruction that leads
back to itself has none, since `Expands` is inductive and its trees are finite.

## Main results

* `Expands.unique`: a statement has at most one expansion.
* `Expands.isName_of_mem_callNames`: an expansion calls only actions.
* `exists_expands_emit_empty`: what the generator returns for a statement it returns for the
  expansion without definitions, inside any instructions and with any number of levels to spare.
* `compile_expansion`: **inserting bodies is writing calls out**.
-/

namespace RobotScript.Statement

open Logged

variable {defs : Definitions} {s t t' : Statement}

/-! ### The expansion -/

/-- A statement has at most one expansion. -/
theorem Expands.unique (h : Expands defs s t) (h' : Expands defs s t') : t = t' := by
  induction h using Expands.induction generalizing t' with
  | block hbody =>
      cases h' with
      | block hbody' =>
          congr 1
          rename_i ts'
          induction hbody generalizing ts' with
          | nil =>
              cases hbody'
              rfl
          | cons hs _ ihRest =>
              cases hbody' with
              | cons hs' hrest' => rw [hs.2 hs', ihRest hrest']
  | ifThen _ ih =>
      cases h' with
      | ifThen hbody' => rw [ih hbody']
  | ifElse _ _ ihThen ihElse =>
      cases h' with
      | ifElse hthen' helse' => rw [ihThen hthen', ihElse helse']
  | whileDo _ ih =>
      cases h' with
      | whileDo hbody' => rw [ih hbody']
  | action hact =>
      cases h' with
      | action => rfl
      | instruction hact' => simp [hact] at hact'
  | instruction hact hfind _ ih =>
      cases h' with
      | action hact' => simp [hact] at hact'
      | instruction _ hfind' hbody' =>
          obtain rfl := Option.some.inj (hfind.symm.trans hfind')
          exact ih hbody'

/-- The expansion of a statement is the only one. -/
theorem Expands.iff_eq (h : Expands defs s t) (t' : Statement) : Expands defs s t' ↔ t' = t := by
  constructor
  · intro h'
    exact h'.unique h
  · rintro rfl
    exact h

/-- **An expansion calls only actions.** -/
theorem Expands.isName_of_mem_callNames (h : Expands defs s t) {name : String}
    (hname : name ∈ t.callNames) : Action.isName name = true := by
  induction h using Expands.induction with
  | block hbody =>
      rw [callNames, List.mem_flatMap] at hname
      obtain ⟨u, hu, hname⟩ := hname
      induction hbody with
      | nil => cases hu
      | cons hs _ ihRest =>
          rcases List.mem_cons.mp hu with rfl | hu
          · exact hs.2 hname
          · exact ihRest hu
  | ifThen _ ih =>
      rw [callNames] at hname
      exact ih hname
  | ifElse _ _ ihThen ihElse =>
      rw [callNames, List.mem_append] at hname
      exact hname.elim ihThen ihElse
  | whileDo _ ih =>
      rw [callNames] at hname
      exact ih hname
  | action hact =>
      obtain rfl : name = _ := by simpa [callNames] using hname
      rw [Action.isName, hact]
      rfl
  | instruction _ _ _ ih => exact ih hname

/-! ### Its code -/

/-- What the generator returns for a statement it returns also for the expansion, without
definitions, inside any instructions, and with any number of levels to spare. The calls that the
expansion does without are levels that it saves. -/
theorem exists_expands_emit_empty {chain : List String} {levels start : Nat} {code : List Instr}
    (h : (emit defs chain levels start s).outcome = .ok code) :
    ∃ t, Expands defs s t ∧ ∀ chain' levels', levels ≤ levels' →
      (emit .empty chain' levels' start t).outcome = .ok code := by
  refine @emit_induction defs chain levels start code
    (fun _ levels start s code => ∃ t, Expands defs s t ∧ ∀ chain' levels', levels ≤ levels' →
      (emit .empty chain' levels' start t).outcome = .ok code)
    (fun _ levels start body code => ∃ ts, List.Forall₂ (Expands defs) body ts ∧
      ∀ chain' levels', levels ≤ levels' →
        (emitAll .empty chain' levels' start ts).outcome = .ok code) ?block ?ifThen ?ifElse ?whileDo
      ?action ?instruction ?nil ?cons s h
  case block =>
    rintro _ levels start body code ⟨ts, hts, hcode⟩
    refine ⟨.block ts, .block hts, fun chain' levels' hle => ?_⟩
    rw [emit_block, hcode chain' levels' hle]
  case ifThen =>
    rintro _ levels start c body code ⟨t, ht, hcode⟩
    refine ⟨.ifThen c t, .ifThen ht, fun chain' levels' hle => ?_⟩
    obtain ⟨inner, rfl⟩ := Nat.exists_eq_add_one.mpr (Nat.zero_lt_of_lt hle)
    exact emit_ifThen_eq_ok_iff.mpr ⟨code, hcode chain' inner (by omega), rfl⟩
  case ifElse =>
    rintro _ levels start c _ _ thenCode elseCode ⟨t, ht, hthen⟩ ⟨t', ht', helse⟩
    refine ⟨.ifElse c t t', .ifElse ht ht', fun chain' levels' hle => ?_⟩
    obtain ⟨inner, rfl⟩ := Nat.exists_eq_add_one.mpr (Nat.zero_lt_of_lt hle)
    exact emit_ifElse_eq_ok_iff.mpr ⟨thenCode, elseCode, hthen chain' inner (by omega),
      helse chain' inner (by omega), rfl⟩
  case whileDo =>
    rintro _ levels start c body code ⟨t, ht, hcode⟩
    refine ⟨.whileDo c t, .whileDo ht, fun chain' levels' hle => ?_⟩
    obtain ⟨inner, rfl⟩ := Nat.exists_eq_add_one.mpr (Nat.zero_lt_of_lt hle)
    exact emit_whileDo_eq_ok_iff.mpr ⟨code, hcode chain' inner (by omega), rfl⟩
  case action =>
    intro _ levels start name action hact
    refine ⟨.call name, .action hact, fun chain' levels' hle => ?_⟩
    obtain ⟨inner, rfl⟩ := Nat.exists_eq_add_one.mpr (Nat.zero_lt_of_lt hle)
    rw [emit_call_action hact, outcome_pure]
  case instruction =>
    -- The call was a level of its own.
    rintro _ levels start name body code hact hfind - ⟨t, ht, hcode⟩
    exact ⟨t, .instruction hact hfind ht, fun chain' levels' hle =>
      hcode chain' levels' (by omega)⟩
  case nil =>
    intro _ levels start
    refine ⟨[], .nil, fun chain' levels' _ => ?_⟩
    rw [emitAll_nil, outcome_pure]
  case cons =>
    rintro _ levels start _ _ first later ⟨t, ht, hfirst⟩ ⟨ts, hts, hlater⟩
    exact ⟨t :: ts, .cons ht hts, fun chain' levels' hle => emitAll_cons_eq_ok_iff.mpr
      ⟨first, later, hfirst chain' levels' hle, hlater chain' levels' hle, rfl⟩⟩

/-- **Inserting bodies is writing calls out.** A main body that has code has exactly one expansion;
the expansion calls only actions, and without any definitions it has the same code. -/
theorem compile_expansion {body : Statement} {bc : Bytecode}
    (h : (body.compile defs).outcome = .ok bc) :
    ∃ t, (∀ t', Expands defs body t' ↔ t' = t) ∧
      (∀ name ∈ t.callNames, Action.isName name = true) ∧
      (t.compile .empty).outcome = .ok bc := by
  obtain ⟨code, hcode, rfl⟩ := compile_eq_ok_iff.mp h
  obtain ⟨t, ht, hcode'⟩ := exists_expands_emit_empty hcode
  have hcompile : (t.compile .empty).outcome = .ok (.ofInstrs (code ++ [.halt])) :=
    compile_eq_ok_iff.mpr ⟨code, hcode' [] maxDepth (Nat.le_refl _), rfl⟩
  exact ⟨t, ht.iff_eq, fun name => ht.isName_of_mem_callNames, hcompile⟩

/-- A robot that advances, and goes on advancing on coin flips. -/
def wander : Statement :=
  .block [.call "advance", .whileDo .random (.call "advance")]

/-- What the robot calls: an instruction that calls another. -/
def wanderDefinitions : Definitions :=
  .ofList [("advance", .ifThen (.ahead .empty false) (.call "stride")),
    ("stride", .block [.call "move", .call "move"])]

/-- The robot with its calls written out. -/
def wanderWrittenOut : Statement :=
  .block [.ifThen (.ahead .empty false) (.block [.call "move", .call "move"]),
    .whileDo .random (.ifThen (.ahead .empty false) (.block [.call "move", .call "move"]))]

/-- The instruction is inserted at two addresses, and the code is that of the robot with its calls
written out. -/
theorem compile_expansion_wander :
    (wander.compile wanderDefinitions).outcome =
      .ok ⟨[7, 4, 0, 0, 15, 12, 7, 10, 0, 0, 6, 4, 5]⟩ ∧
    Expands wanderDefinitions wander wanderWrittenOut ∧
    (wanderWrittenOut.compile .empty).outcome =
      .ok ⟨[7, 4, 0, 0, 15, 12, 7, 10, 0, 0, 6, 4, 5]⟩ := by
  have hcompile : (wander.compile wanderDefinitions).outcome =
      .ok ⟨[7, 4, 0, 0, 15, 12, 7, 10, 0, 0, 6, 4, 5]⟩ := by cbv
  have hmove : Expands wanderDefinitions (.call "move") (.call "move") :=
    @Expands.action _ "move" .move rfl
  have hstride : Expands wanderDefinitions (.call "stride")
      (.block [.call "move", .call "move"]) :=
    .instruction rfl rfl (.block (.cons hmove (.cons hmove .nil)))
  have hadvance : Expands wanderDefinitions (.call "advance")
      (.ifThen (.ahead .empty false) (.block [.call "move", .call "move"])) :=
    .instruction rfl rfl (.ifThen hstride)
  have hexpands : Expands wanderDefinitions wander wanderWrittenOut :=
    .block (.cons hadvance (.cons (.whileDo hadvance) .nil))
  obtain ⟨t, hunique, -, hcode⟩ := compile_expansion hcompile
  rw [← (hunique wanderWrittenOut).mp hexpands] at hcode
  exact ⟨hcompile, hexpands, hcode⟩

end RobotScript.Statement
