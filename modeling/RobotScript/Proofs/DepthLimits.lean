import Mathlib.Tactic
import RobotScript.Proofs.ErrorEvidence
import RobotScript.Proofs.RoundTrip
import RobotScript.Proofs.SequenceNesting

/-!
# Two limits on depth

The reader limits how many branches and loops stand inside one another in each body by itself: 128.
The generator limits how many branches, loops and calls stand inside one another after bodies have
been inserted: 512. The two counts are different in kind, and are related along the paths on which
the generator goes down. Between two calls that a path goes on from it stays in one body, where it
cannot open more than that body's nesting; so it opens at most 129 levels for each body, the last
one for the call that leaves the body.

Four bodies are needed to exceed 512 in this way, and three calls lead from the main body to the
fourth.

## Main definitions

* `Statement.CallChain` — instructions that are called one inside another.

## Main results

* `Statement.Path.openCount_le`: **the levels of a path, in terms of nesting and calls**.
* `Statement.Path.callChain`: the instructions along a path are called one inside another.
* `Program.compile_tooDeep_of_parse`: **a program that was read is too deep only inside three
  instructions**.
-/

namespace RobotScript

namespace Statement

variable {defs : Definitions} {s t : Statement} {path : List Statement}

/-! ### Chains of calls -/

/-- The instructions are called one inside another: the first by the statement, and each other one
by the body of the one before. -/
inductive CallChain (defs : Definitions) : Statement → List String → Prop
  | nil (s : Statement) : CallChain defs s []
  | cons {s body : Statement} {name : String} {rest : List String} :
      s.CallsInstruction name → defs.find? name = some body → CallChain defs body rest →
      CallChain defs s (name :: rest)

/-- What is called one inside another from a part of a statement is so from the statement. -/
theorem CallChain.of_mem_nodesBelow {names : List String} (h : CallChain defs t names)
    (hs : s.call? = none) (ht : t ∈ s.nodesBelow defs) : CallChain defs s names := by
  cases h with
  | nil => exact .nil s
  | cons hcall hfind hrest =>
      exact .cons ((callsInstruction_iff_nodesBelow hs _).mpr ⟨t, ht, hcall⟩) hfind hrest

/-- What is below a call is the body of the instruction that is called. -/
theorem find?_of_mem_nodesBelow_call {name : String} (ht : t ∈ (call name).nodesBelow defs) :
    Action.ofName? name = none ∧ defs.find? name = some t := by
  cases hact : Action.ofName? name with
  | some action =>
      rw [nodesBelow_action hact] at ht
      cases ht
  | none => simpa [nodesBelow, Action.isName, hact] using ht

/-- **The instructions along a path are called one inside another.** -/
theorem Path.callChain (h : Path defs s path) : CallChain defs s (insertedNames path) := by
  induction h with
  | root s => exact .nil s
  | @down s t path ht hpath ih =>
      rw [insertedNames_cons hpath.ne_nil]
      cases s with
      | call name =>
          obtain ⟨hact, hfind⟩ := find?_of_mem_nodesBelow_call ht
          exact .cons ⟨by simp [callNames], hact⟩ hfind ih
      | block | ifThen | ifElse | whileDo => exact ih.of_mem_nodesBelow rfl ht

/-! ### Levels -/

/-- The nesting of a sequence is at least that of its members. -/
theorem nesting_le_nestingAll {body : List Statement} (hs : s ∈ body) :
    s.nesting ≤ nestingAll body := by
  induction body with
  | nil => cases hs
  | cons t rest ih =>
      rw [nestingAll]
      rcases List.mem_cons.mp hs with rfl | hs
      · exact Nat.le_max_left _ _
      · exact (ih hs).trans (Nat.le_max_right _ _)

/-- A branch or loop nests one deeper than what is below it, and a sequence at least as deep. -/
theorem nesting_of_mem_nodesBelow (hs : s.call? = none) (ht : t ∈ s.nodesBelow defs) :
    (t.nesting + if s.block?.isNone then 1 else 0) ≤ s.nesting := by
  cases s with
  | block body =>
      rw [nesting]
      exact nesting_le_nestingAll ht
  | ifThen c body =>
      obtain rfl := List.mem_singleton.mp ht
      rw [nesting]
      rfl
  | ifElse c thenBody elseBody =>
      rw [nesting]
      rcases List.mem_pair.mp ht with rfl | rfl
      · exact Nat.succ_le_succ (Nat.le_max_left _ _)
      · exact Nat.succ_le_succ (Nat.le_max_right _ _)
  | whileDo c body =>
      obtain rfl := List.mem_singleton.mp ht
      rw [nesting]
      rfl
  | call name => cases hs

/-- **The levels of a path, in terms of nesting and calls.** In the body where it starts, a path
opens at most the nesting of that body and one call, and as much again in each body that it goes
into. -/
theorem Path.openCount_le {limit : Nat}
    (hbodies : ∀ name body, defs.find? name = some body → body.nesting ≤ limit)
    (h : Path defs s path) :
    openCount path ≤ s.nesting + 1 + (limit + 1) * (insertedNames path).length := by
  induction h with
  | root s =>
      have hle : openCount [s] ≤ 1 := List.countP_le_length
      omega
  | @down s t path ht hpath ih =>
      have hopen : openCount (s :: path) = openCount path + if s.block?.isNone then 1 else 0 := by
        rw [openCount, List.countP_cons, openCount]
      rw [hopen, insertedNames_cons hpath.ne_nil]
      cases s with
      | call name =>
          -- the body that comes in for the call has levels of its own
          have hnesting := hbodies name t (find?_of_mem_nodesBelow_call ht).2
          change openCount path + 1 ≤
            0 + 1 + (limit + 1) * ((insertedNames path).length + 1)
          rw [Nat.mul_add, Nat.mul_one]
          omega
      | block | ifThen | ifElse | whileDo =>
          have hnesting := nesting_of_mem_nodesBelow rfl ht
          change _ ≤ _ + 1 + (limit + 1) * (insertedNames path).length
          omega

end Statement

/-! ### Programs that were read -/

namespace Program

open Statement

/-- Where a program is too deep, different instructions are being inserted along a path on which 513
statements are open. -/
theorem exists_path_of_compile_tooDeep {p : Program} {limit : Nat} {chain : List String}
    (h : p.compile.outcome = .error (.tooDeep limit chain)) :
    chain.Nodup ∧ ∃ path, Path p.definitions p.body path ∧ openCount path = 513 ∧
      insertedNames path = chain := by
  obtain ⟨-, hnodup, names, rfl, path, hpath, hcount, rfl⟩ :=
    runsOut_of_emit_tooDeep (compile_eq_error_iff.mp h)
  exact ⟨hnodup .nil, path, hpath, hcount, rfl⟩

/-- In a canonical program, a path on which 513 statements are open goes through three calls. -/
theorem Canonical.three_le_length {p : Program} (h : p.Canonical) {path : List Statement}
    (hpath : Path p.definitions p.body path) (hcount : openCount path = 513) :
    3 ≤ (insertedNames path).length := by
  have hbodies : ∀ name body, p.definitions.find? name = some body → body.nesting ≤ 128 :=
    fun name body hfind => (h.bodies _ ((Definitions.find?_eq_some_iff_mem _).mp hfind)).nesting
  have hbody : p.body.nesting ≤ 128 := h.body.nesting
  have hle := hpath.openCount_le hbodies
  omega

/-- **A program that was read is too deep only inside three instructions.** If it has no code since
too many statements stand inside one another, then there where generating code fails, at least three
different instructions are being inserted. They are called one inside another from the main body,
along a path on which 513 statements are open. So a program in which at most two different
instructions are called one inside another is never too deep. -/
theorem compile_tooDeep_of_parse {source : String} {p : Program}
    (h : Program.parse source = .ok p) :
    (∀ limit chain, p.compile.outcome = .error (.tooDeep limit chain) →
      3 ≤ chain.length ∧ chain.Nodup ∧ CallChain p.definitions p.body chain ∧
        ∃ path, Path p.definitions p.body path ∧ openCount path = 513 ∧
          insertedNames path = chain) ∧
    ((∀ chain, CallChain p.definitions p.body chain → chain.Nodup → chain.length ≤ 2) →
      ∀ limit chain, p.compile.outcome ≠ .error (.tooDeep limit chain)) := by
  have hcanonical := canonical_of_parse h
  constructor
  · intro limit chain herror
    obtain ⟨hnodup, path, hpath, hcount, rfl⟩ := exists_path_of_compile_tooDeep herror
    exact ⟨hcanonical.three_le_length hpath hcount, hnodup, hpath.callChain, path, hpath, hcount,
      rfl⟩
  · intro hshort limit chain herror
    obtain ⟨hnodup, path, hpath, hcount, rfl⟩ := exists_path_of_compile_tooDeep herror
    have hthree := hcanonical.three_le_length hpath hcount
    have htwo := hshort _ hpath.callChain hnodup
    omega

end Program

/-! ### A program that is just too deep -/

namespace Statement

open Logged

variable {defs : Definitions} {chain : List String} {levels : Nat} {s : Statement}

/-- Flattening does not change which names are called. -/
theorem callNames_flat (s : Statement) : s.flat.callNames = s.callNames := by
  induction s using Statement.induction with
  | block body ih =>
      have hmembers : ∀ s ∈ body, s.tidy.members.flatMap callNames = s.callNames := fun s hs => by
        simpa [flat, callNames] using ih s hs
      rw [flat, members_tidy_block, callNames, callNames, List.flatMap_assoc]
      exact List.flatMap_congr hmembers
  | ifThen c body ih => simp [flat, callNames, ← ih]
  | ifElse c thenBody elseBody ihThen ihElse => simp [flat, callNames, ← ihThen, ← ihElse]
  | whileDo c body ih => simp [flat, callNames, ← ih]
  | call name => simp [flat, callNames]

/-- The flat form of a statement can be shown as a body, if the statement keeps to the rules about
names and nesting. -/
theorem canonicalBody_flat (hcalls : ∀ name ∈ s.callNames, isIdentifier name = true)
    (hnesting : s.nesting ≤ 128) : s.flat.CanonicalBody := by
  refine ⟨rfl, ?_, by rwa [callNames_flat], by rwa [nesting_flat]⟩
  rw [← block_trees_eq_flat]
  exact StatementTree.isRegular_block_of fun t _ => t.isRegular_statement

/-- A call inside at most 128 loops can be shown as a body. -/
theorem canonicalBody_inLoops {name : String} (hname : isIdentifier name = true) {n : Nat}
    (hn : n ≤ 128) : ((call name).inLoops n).flat.CanonicalBody := by
  have hcalls : ((call name).inLoops n).callNames = [name] := by
    clear hn
    induction n with
    | zero => rw [inLoops, callNames]
    | succ n ih => rw [inLoops, callNames, ih]
  have hnesting : ((call name).inLoops n).nesting = n := by
    clear hn hcalls
    induction n with
    | zero => rw [inLoops, nesting]
    | succ n ih => rw [inLoops, nesting, ih]
  refine canonicalBody_flat ?_ (hnesting.trans_le hn)
  rw [hcalls]
  exact List.forall_mem_singleton.mpr hname

/-- Loops fail if there are not levels enough for them. -/
theorem emit_inLoops_tooDeep {n : Nat} (hs : s.block? = none) (hlevels : levels ≤ n)
    (start : Nat) :
    (emit defs chain levels start (s.inLoops n)).outcome = .error (.tooDeep maxDepth chain) := by
  induction n generalizing levels start with
  | zero =>
      obtain rfl := Nat.le_zero.mp hlevels
      rw [inLoops, emit_zero hs, outcome_fail]
  | succ n ih =>
      rw [inLoops]
      cases levels with
      | zero => rw [emit_zero rfl, outcome_fail]
      | succ levels => exact emit_whileDo_eq_error_iff.mpr (ih (by omega) (start + 2))

end Statement

namespace Program

open Statement

/-- A robot that goes deep: each of its bodies is as deep as the reader allows. -/
def miner : Program where
  name := "Miner"
  definitions := .ofList [("gallery", ((call "seam").inLoops 128).flat),
    ("seam", ((call "skip").inLoops 128).flat), ("shaft", ((call "gallery").inLoops 128).flat)]
  body := ((call "shaft").inLoops 128).flat

theorem miner_entries : miner.definitions.entries =
    [("gallery", ((call "seam").inLoops 128).flat), ("seam", ((call "skip").inLoops 128).flat),
      ("shaft", ((call "gallery").inLoops 128).flat)] := rfl

theorem miner_canonical : miner.Canonical where
  name := (rfl : isIdentifier "Miner" = true)
  keys := by
    rw [Definitions.names, miner_entries]
    simp only [List.map_cons, List.map_nil, List.forall_mem_cons]
    exact ⟨⟨rfl, rfl⟩, ⟨rfl, rfl⟩, ⟨rfl, rfl⟩, by simp⟩
  body := canonicalBody_inLoops rfl (Nat.le_refl 128)
  bodies := by
    rw [miner_entries]
    simp only [List.forall_mem_cons]
    exact ⟨canonicalBody_inLoops rfl (Nat.le_refl 128),
      canonicalBody_inLoops rfl (Nat.le_refl 128),
      canonicalBody_inLoops rfl (Nat.le_refl 128), by simp⟩

/-- The robot can be written and read, and it is too deep in its third instruction. -/
theorem compile_tooDeep_of_parse_miner :
    Program.parse miner.render = .ok miner ∧
    miner.compile.outcome = .error (.tooDeep 512 ["shaft", "gallery", "seam"]) ∧
    CallChain miner.definitions miner.body ["shaft", "gallery", "seam"] ∧
    ∃ path, Path miner.definitions miner.body path ∧ openCount path = 513 ∧
      insertedNames path = ["shaft", "gallery", "seam"] := by
  have hparse : Program.parse miner.render = .ok miner := miner_canonical.parse_render
  -- each body takes 128 levels for its loops and one for the call
  have hseam : ∀ start, (emit miner.definitions ["shaft", "gallery"] 126 start
      (call "seam")).outcome = .error (.tooDeep 512 ["shaft", "gallery", "seam"]) := fun start => by
    have hfind : miner.definitions.find? "seam" = some ((call "skip").inLoops 128).flat := rfl
    rw [emit_call_instruction_outcome rfl hfind (by simp), emit_flat]
    exact emit_inLoops_tooDeep rfl (by decide) start
  have hgallery : ∀ start, (emit miner.definitions ["shaft"] 255 start
      (call "gallery")).outcome = .error (.tooDeep 512 ["shaft", "gallery", "seam"]) :=
    fun start => by
      have hfind : miner.definitions.find? "gallery" = some ((call "seam").inLoops 128).flat := rfl
      rw [emit_call_instruction_outcome rfl hfind (by simp), emit_flat]
      exact emit_inLoops_eq_error 128 hseam start
  have hshaft : ∀ start, (emit miner.definitions [] 384 start
      (call "shaft")).outcome = .error (.tooDeep 512 ["shaft", "gallery", "seam"]) := fun start => by
    have hfind : miner.definitions.find? "shaft" = some ((call "gallery").inLoops 128).flat := rfl
    rw [emit_call_instruction_outcome rfl hfind (by simp), emit_flat]
    exact emit_inLoops_eq_error 128 hgallery start
  have hdeep : miner.compile.outcome = .error (.tooDeep 512 ["shaft", "gallery", "seam"]) := by
    refine compile_eq_error_iff.mpr ?_
    rw [miner, emit_flat]
    exact emit_inLoops_eq_error 128 hshaft 0
  obtain ⟨-, -, hchain, hpath⟩ := (compile_tooDeep_of_parse hparse).1 _ _ hdeep
  exact ⟨hparse, hdeep, hchain, hpath⟩

end Program

end RobotScript
