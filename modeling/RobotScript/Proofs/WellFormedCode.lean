import Mathlib.Tactic
import RobotScript.Bytecode.Listing
import RobotScript.Proofs.Placement

/-!
# Generated code is well formed

The numbers of a code are operations and targets, and nothing but their order tells them apart. What
decoding checks is only that a target is less than the size of the code; it would accept a jump into
the middle of another jump. Here it is shown that generated code has none: its numbers are
partitioned into starts of instructions and targets, and every jump goes to a start. The one halt is
the last instruction, so no jump goes past the end either.

## Main definitions

* `StartsAt`, `HoldsTarget` — what a number of a code is there for.

## Main results

* `startsAt_or_holdsTarget_place`, `not_startsAt_of_holdsTarget_place`: each number of a code is the
  start of an instruction or the target of a jump, and not both.
* `IsBoundary.startsAt_place`: what is a boundary before the last instruction is a start.
* `Statement.halt_not_mem_layout`: no statement has a halt of its own.
* `Statement.compile_wellFormed`: **generated code is well formed**.
-/

namespace RobotScript

/-- Some instruction of the code starts at `address`. -/
def StartsAt (code : List Placed) (address : Nat) : Prop :=
  ∃ p ∈ code, p.address = address

/-- The number at `address` is the target of the jump that starts directly before it. -/
def HoldsTarget (code : List Placed) (address : Nat) : Prop :=
  ∃ p ∈ code, p.instr.target?.isSome ∧ p.address + 1 = address

/-! ### Starts and targets -/

/-- An instruction has a number for its operation, and a jump one more for its target. -/
theorem Instr.size_eq (i : Instr) : i.size = if i.target?.isSome then 2 else 1 := by
  cases i <;> rfl

section

variable {start address : Nat} {code : List Instr}

/-- Code has no instruction before its start. -/
theorem StartsAt.le_of_place (h : StartsAt (Instr.place start code) address) :
    start ≤ address := by
  induction code generalizing start with
  | nil => simp [StartsAt, Instr.place] at h
  | cons i code ih =>
      obtain ⟨p, hp, rfl⟩ := h
      rcases List.mem_cons.mp hp with rfl | hp
      · exact Nat.le_refl start
      · have hrest := ih ⟨p, hp, rfl⟩
        omega

/-- The first number of code is no target. -/
theorem HoldsTarget.lt_of_place (h : HoldsTarget (Instr.place start code) address) :
    start < address := by
  obtain ⟨p, hp, -, rfl⟩ := h
  have hle := StartsAt.le_of_place ⟨p, hp, rfl⟩
  omega

/-- Each number of a code is the start of an instruction or the target of a jump. -/
theorem startsAt_or_holdsTarget_place (hstart : start ≤ address)
    (hstop : address < start + Instr.sizeAll code) :
    StartsAt (Instr.place start code) address ∨ HoldsTarget (Instr.place start code) address := by
  induction code generalizing start with
  | nil =>
      rw [Instr.sizeAll] at hstop
      omega
  | cons i code ih =>
      rw [Instr.sizeAll] at hstop
      rw [Instr.place]
      by_cases hrest : start + i.size ≤ address
      · rcases ih hrest (by omega) with ⟨p, hp, haddress⟩ | ⟨p, hp, hjump, haddress⟩
        · exact .inl ⟨p, List.mem_cons_of_mem _ hp, haddress⟩
        · exact .inr ⟨p, List.mem_cons_of_mem _ hp, hjump, haddress⟩
      · by_cases hhead : address = start
        · exact .inl ⟨_, List.mem_cons_self, hhead.symm⟩
        · -- the only other number of the first instruction is the target of a jump
          rw [Instr.size_eq] at hrest
          split at hrest
          · rename_i hjump
            exact .inr ⟨_, List.mem_cons_self, hjump, by change start + 1 = address; omega⟩
          · omega

/-- The target of a jump is not the start of an instruction. -/
theorem not_startsAt_of_holdsTarget_place (h : HoldsTarget (Instr.place start code) address) :
    ¬ StartsAt (Instr.place start code) address := by
  induction code generalizing start with
  | nil => simp [HoldsTarget, Instr.place] at h
  | cons i code ih =>
      obtain ⟨p, hp, hjump, rfl⟩ := h
      rintro ⟨q, hq, haddress⟩
      rw [Instr.place] at hp hq
      rcases List.mem_cons.mp hp with rfl | hp
      · have hsize : i.size = 2 := by rw [Instr.size_eq, if_pos hjump]
        rcases List.mem_cons.mp hq with rfl | hq
        · change start = start + 1 at haddress
          omega
        · have hle := StartsAt.le_of_place ⟨q, hq, haddress⟩
          change start + i.size ≤ start + 1 at hle
          omega
      · have hlt := HoldsTarget.lt_of_place ⟨p, hp, hjump, rfl⟩
        rcases List.mem_cons.mp hq with rfl | hq
        · change start = p.address + 1 at haddress
          omega
        · exact ih ⟨p, hp, hjump, rfl⟩ ⟨q, hq, haddress⟩

/-- A boundary of code is the start of an instruction when one more instruction follows the code. -/
theorem IsBoundary.startsAt_place (h : IsBoundary start code address) (i : Instr) :
    StartsAt (Instr.place start (code ++ [i])) address := by
  obtain ⟨before, after, rfl, rfl⟩ := h
  cases after with
  | nil =>
      rw [List.append_nil]
      exact ⟨_, CodeAt.mem_place_append before [] start, rfl⟩
  | cons j after =>
      rw [List.append_assoc, List.cons_append]
      exact ⟨_, CodeAt.mem_place_append before (after ++ [i]) start, rfl⟩

end

/-! ### The halt -/

namespace Statement

/-- The code of statements one after another is made of the code of each. -/
theorem exists_mem_layout_of_mem_layoutAll {body : List Statement} {i : Instr} {start : Nat}
    (hi : i ∈ layoutAll start body) : ∃ s ∈ body, ∃ start', i ∈ s.layout start' := by
  induction body generalizing start with
  | nil => simp [layoutAll] at hi
  | cons s rest ih =>
      rw [layoutAll, List.mem_append] at hi
      rcases hi with hi | hi
      · exact ⟨s, List.mem_cons_self, start, hi⟩
      · obtain ⟨t, ht, start', hi⟩ := ih hi
        exact ⟨t, List.mem_cons_of_mem s ht, start', hi⟩

/-- No statement has a halt of its own. -/
theorem halt_not_mem_layout (s : Statement) (start : Nat) : .halt ∉ s.layout start := by
  induction s using Statement.induction generalizing start with
  | block body ih =>
      intro hi
      rw [layout] at hi
      obtain ⟨s, hs, start', hi⟩ := exists_mem_layout_of_mem_layoutAll hi
      exact ih s hs start' hi
  | ifThen c body ih => simp [layout, ih]
  | ifElse c thenBody elseBody ihThen ihElse => simp [layout, ihThen, ihElse]
  | whileDo c body ih => simp [layout, ih]
  | call name => simp [layout]

/-! ### Well-formedness -/

/-- **Generated code is well formed.** It can be decoded and listed. Every jump goes to the start of
an instruction, so neither into the middle of a jump nor past the end. There is one halt, the last
instruction. Each number is the start of an instruction or else the target of a jump, and never
both. -/
theorem compile_wellFormed {defs : Definitions} {body : Statement} {bc : Bytecode}
    (h : (body.compile defs).outcome = .ok bc) :
    ∃ code text, bc.decode = .ok code ∧ bc.listing = .ok text ∧
      (∀ p ∈ code, ∀ target, p.instr.target? = some target →
        target < bc.size ∧ StartsAt code target ∧ ¬ HoldsTarget code target) ∧
      (∃ before last, code = before ++ [last] ∧ last.instr = .halt ∧
        ∀ p ∈ before, p.instr ≠ .halt) ∧
      ∀ address < bc.size, (StartsAt code address ∨ HoldsTarget code address) ∧
        ¬ (StartsAt code address ∧ HoldsTarget code address) := by
  obtain ⟨code, hcode, rfl⟩ := compile_eq_ok_iff.mp h
  obtain ⟨t, -, rfl⟩ := exists_expands_of_emit hcode
  have hdecode := t.decode_layout
  refine ⟨_, _, hdecode, by rw [Bytecode.listing, hdecode]; rfl, ?_, ?_, ?_⟩
  · intro p hp target htarget
    rcases List.mem_append.mp (Instr.mem_of_mem_place hp) with hp | hp
    · have hboundary := t.isBoundary_target htarget 0 hp
      have hstart := hboundary.startsAt_place .halt
      have hbounds := hboundary.bounds
      refine ⟨?_, hstart, fun hholds => not_startsAt_of_holdsTarget_place hholds hstart⟩
      rw [Bytecode.size_ofInstrs, Instr.sizeAll_append]
      change target < _ + 1
      omega
    · rw [List.mem_singleton.mp hp] at htarget
      cases htarget
  · refine ⟨_, _, Instr.place_append 0 _ _, rfl, fun p hp hhalt => ?_⟩
    exact t.halt_not_mem_layout 0 (hhalt ▸ Instr.mem_of_mem_place hp)
  · intro address haddress
    rw [Bytecode.size_ofInstrs] at haddress
    refine ⟨startsAt_or_holdsTarget_place (Nat.zero_le _) (by omega), ?_⟩
    rintro ⟨hstart, hholds⟩
    exact not_startsAt_of_holdsTarget_place hholds hstart

/-- A loop around a branch that comes in for a call, and whose second body is empty. -/
def lookout : Statement :=
  .whileDo .always (.call "look")

/-- What the loop calls. -/
def lookoutDefinitions : Definitions :=
  .ofList [("look", .ifElse (.ahead .enemy false) (.call "infect") (.block []))]

/-- In the code of `lookout` the jump over the empty second body goes to the jump back to the test.
Every jump goes to the start of an instruction, and the ten numbers are starts and targets. -/
theorem compile_wellFormed_lookout :
    (lookout.compile lookoutDefinitions).outcome = .ok ⟨[16, 9, 9, 7, 3, 6, 7, 6, 0, 5]⟩ ∧
    ∃ code, Bytecode.decode ⟨[16, 9, 9, 7, 3, 6, 7, 6, 0, 5]⟩ = .ok code ∧
      (∀ p ∈ code, ∀ target, p.instr.target? = some target → StartsAt code target) ∧
      ∀ address < 10, StartsAt code address ∨ HoldsTarget code address := by
  have hcompile : (lookout.compile lookoutDefinitions).outcome =
      .ok ⟨[16, 9, 9, 7, 3, 6, 7, 6, 0, 5]⟩ := by cbv
  obtain ⟨code, -, hdecode, -, htargets, -, hnumbers⟩ := compile_wellFormed hcompile
  exact ⟨hcompile, code, hdecode, fun p hp target ht => (htargets p hp target ht).2.1,
    fun address haddress => (hnumbers address haddress).1⟩

end Statement

end RobotScript
