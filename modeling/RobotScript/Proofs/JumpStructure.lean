import Mathlib.Tactic
import RobotScript.Proofs.WellFormedCode

/-!
# The jumps of generated code

Code is flat: nothing in it says where a loop ends or which jumps are its own. The structure of the
source can be read off its addresses all the same. Jumps on a condition go forward, and a jump that
goes back is the last instruction of a loop: it goes to the test of the loop, and the test leaves
the loop to the address just after it. Jumps inside a loop stay inside, and no jump goes into a loop
from outside but to its test.

Code that lies between two addresses and whose jumps stay there keeps this structure when it is put
together from pieces. `Nested` says so of a piece, and there is one lemma for each way of putting
pieces together. Apart from its own test and jump back, a loop only has to be avoided by what is put
around it.

## Main definitions

* `IsLoop` — a jump back, with the address it goes to.
* `IsClosed` — what a loop is to the code that it stands in.
* `Nested` — the structure of a piece of code.

## Main results

* `Nested.append`, `Nested.jumpOver`, `Nested.loop`: **the structure is kept** by putting pieces one
  after another, by a jump over a piece, and by a loop around a piece.
* `Statement.nested_layout`: the code of a statement has the structure, wherever it starts.
* `Statement.compile_jump_structure`: **the jumps of generated code are those of nested branches and
  loops**.
-/

namespace RobotScript

/-! ### Loops in code -/

/-- The jump at `back` goes back to `test`. -/
def IsLoop (code : List Placed) (test back : Nat) : Prop :=
  ⟨back, .jump test⟩ ∈ code ∧ test ≤ back

/-- A loop in code is closed: its test leaves it to the address just after its jump back, jumps
between the two stay between them, and jumps from outside do not go there. -/
structure IsClosed (code : List Placed) (test back : Nat) : Prop where
  exit : ∃ c, ⟨test, .jumpUnless c (back + 2)⟩ ∈ code
  inside : ∀ p ∈ code, test < p.address → p.address < back →
    ∀ target, p.instr.target? = some target → test + 2 ≤ target ∧ target ≤ back
  outside : ∀ p ∈ code, p.address < test ∨ back + 2 ≤ p.address →
    ∀ target, p.instr.target? = some target → target ≤ test ∨ back + 2 ≤ target

/-- The instruction is not inside the loop and does not jump into it. -/
def Avoids (test back : Nat) (p : Placed) : Prop :=
  (p.address ≤ test ∨ back ≤ p.address) ∧
    ∀ target, p.instr.target? = some target → target ≤ test ∨ back + 2 ≤ target

section

variable {code code' : List Placed} {test back : Nat}

/-- A loop is closed still with more code that avoids it. -/
theorem IsClosed.extend (h : IsClosed code test back) (hsubset : code ⊆ code')
    (hnew : ∀ p ∈ code', p ∈ code ∨ Avoids test back p) : IsClosed code' test back := by
  obtain ⟨c, hexit⟩ := h.exit
  refine ⟨⟨c, hsubset hexit⟩, fun p hp hafter hbefore => ?_, fun p hp haway => ?_⟩
  · rcases hnew p hp with hold | ⟨hplace, -⟩
    · exact h.inside p hold hafter hbefore
    · omega
  · rcases hnew p hp with hold | ⟨-, htargets⟩
    · exact h.outside p hold haway
    · exact htargets

/-- The loops of two pieces of code are those of each. -/
theorem isLoop_append_iff :
    IsLoop (code ++ code') test back ↔ IsLoop code test back ∨ IsLoop code' test back := by
  simp only [IsLoop, List.mem_append, or_and_right]

/-- A jump forward is no loop. -/
theorem isLoop_cons_iff {p : Placed}
    (hp : ∀ target, p.instr = .jump target → p.address < target) :
    IsLoop (p :: code) test back ↔ IsLoop code test back := by
  constructor
  · rintro ⟨hmem, hle⟩
    rcases List.mem_cons.mp hmem with rfl | hmem
    · have hlt : back < test := hp test rfl
      omega
    · exact ⟨hmem, hle⟩
  · rintro ⟨hmem, hle⟩
    exact ⟨List.mem_cons_of_mem p hmem, hle⟩

end

/-! ### Pieces of code -/

/-- The code lies between `start` and `stop`, and its jumps stay there. Those on a condition go
forward, and all its loops are closed. -/
structure Nested (start stop : Nat) (code : List Placed) : Prop where
  start_le_stop : start ≤ stop
  located : ∀ p ∈ code, start ≤ p.address ∧ p.address < stop
  stays : ∀ p ∈ code, ∀ target, p.instr.target? = some target → start ≤ target ∧ target ≤ stop
  forward : ∀ p ∈ code, ∀ c target, p.instr = .jumpUnless c target → p.address + 2 ≤ target
  closed : ∀ test back, IsLoop code test back → IsClosed code test back

namespace Nested

variable {start middle stop : Nat} {code code' : List Placed}

/-- No code has nothing to keep. -/
theorem nil (start : Nat) : Nested start start [] :=
  ⟨Nat.le_refl start, by simp, by simp, by simp, by simp [IsLoop]⟩

/-- An instruction without a target. -/
theorem single {i : Instr} (h : i.target? = none) (start : Nat) :
    Nested start (start + 1) [⟨start, i⟩] := by
  refine ⟨Nat.le_succ start, by simp, by simp [h], ?_, ?_⟩
  · simp only [List.mem_singleton, forall_eq]
    rintro c target rfl
    cases h
  · rintro test back ⟨hmem, -⟩
    obtain ⟨-, rfl⟩ := Placed.mk.inj (List.mem_singleton.mp hmem)
    cases h

/-- A loop lies between the same addresses as the code that it is in. -/
theorem loop_bounds (h : Nested start stop code) {test back : Nat} (hloop : IsLoop code test back) :
    start ≤ test ∧ back + 2 ≤ stop := by
  obtain ⟨c, hexit⟩ := (h.closed test back hloop).exit
  have htest := h.stays _ hloop.1 test rfl
  have hstop := h.stays _ hexit (back + 2) rfl
  exact ⟨htest.1, hstop.2⟩

/-- **One piece after another.** The jumps of each go at most to where the other begins. -/
theorem append (h : Nested start middle code) (h' : Nested middle stop code') :
    Nested start stop (code ++ code') := by
  have hmiddle := h.start_le_stop
  have hstop := h'.start_le_stop
  refine ⟨Nat.le_trans hmiddle hstop, List.forall_mem_append.mpr ⟨fun p hp => ?_, fun p hp => ?_⟩,
    List.forall_mem_append.mpr
      ⟨fun p hp target htarget => ?_, fun p hp target htarget => ?_⟩,
    List.forall_mem_append.mpr ⟨h.forward, h'.forward⟩, fun test back hloop => ?_⟩
  · have hp := h.located p hp
    omega
  · have hp := h'.located p hp
    omega
  · have hp := h.stays p hp target htarget
    omega
  · have hp := h'.stays p hp target htarget
    omega
  · rcases isLoop_append_iff.mp hloop with hloop | hloop
    · -- a loop of the first piece ends before the second begins
      have hbounds := h.loop_bounds hloop
      refine (h.closed test back hloop).extend (List.subset_append_left _ _) fun p hp => ?_
      refine (List.mem_append.mp hp).imp_right fun hp => ⟨?_, fun target htarget => ?_⟩
      · have hp := h'.located p hp
        omega
      · have hp := h'.stays p hp target htarget
        omega
    · -- a loop of the second piece begins after the first ends
      have hbounds := h'.loop_bounds hloop
      refine (h'.closed test back hloop).extend (List.subset_append_right _ _) fun p hp => ?_
      refine (List.mem_append.mp hp).symm.imp_right fun hp => ⟨?_, fun target htarget => ?_⟩
      · have hp := h.located p hp
        omega
      · have hp := h.stays p hp target htarget
        omega

/-- **A jump forward before a piece**, to an address that is not inside a loop of the piece. -/
theorem jumpOver (h : Nested (start + 2) stop code) {i : Instr} {target : Nat}
    (hi : i.target? = some target) (hforward : start + 2 ≤ target) (hstop : target ≤ stop)
    (hloops : ∀ test back, IsLoop code test back → target ≤ test ∨ back + 2 ≤ target) :
    Nested start stop (⟨start, i⟩ :: code) := by
  have hi' : ∀ target', i.target? = some target' → target' = target := by
    intro target' htarget'
    exact Option.some.inj (htarget'.symm.trans hi)
  refine ⟨by omega, List.forall_mem_cons.mpr ⟨?_, fun p hp => ?_⟩,
    List.forall_mem_cons.mpr ⟨fun target' htarget' => ?_, fun p hp target' htarget' => ?_⟩,
    List.forall_mem_cons.mpr ⟨?_, h.forward⟩, fun test back hloop => ?_⟩
  · change start ≤ start ∧ start < stop
    omega
  · have hp := h.located p hp
    omega
  · rw [hi' target' htarget']
    omega
  · have hp := h.stays p hp target' htarget'
    omega
  · rintro c target' rfl
    rw [hi' target' rfl]
    exact hforward
  · have hhead : ∀ target', i = .jump target' → start < target' := by
      rintro target' rfl
      rw [hi' target' rfl]
      omega
    rw [isLoop_cons_iff hhead] at hloop
    have hbounds := h.loop_bounds hloop
    refine (h.closed test back hloop).extend (List.subset_cons_self _ _) fun p hp => ?_
    refine (List.mem_cons.mp hp).symm.imp_right ?_
    rintro rfl
    refine ⟨.inl (by change start ≤ test; omega), fun target' htarget' => ?_⟩
    rw [hi' target' htarget']
    exact hloops test back hloop

/-- What is in a loop is its test, its body, or its jump back. -/
theorem forall_mem_loop {holds : Placed → Prop} {test back : Placed} (htest : holds test)
    (hbody : ∀ p ∈ code, holds p) (hback : holds back) :
    ∀ p ∈ test :: code ++ [back], holds p :=
  List.forall_mem_append.mpr
    ⟨List.forall_mem_cons.mpr ⟨htest, hbody⟩, List.forall_mem_singleton.mpr hback⟩

/-- A loop around a piece is closed, since the jumps of the piece stay in it. -/
theorem isClosed_loop (h : Nested (start + 2) middle code) (c : Condition) :
    IsClosed (⟨start, .jumpUnless c (middle + 2)⟩ :: code ++ [⟨middle, .jump start⟩])
      start middle := by
  have hmiddle := h.start_le_stop
  refine ⟨⟨c, by simp⟩, forall_mem_loop ?_ (fun p hp _ _ => h.stays p hp) ?_,
    forall_mem_loop ?_ (fun p hp haway => ?_) ?_⟩
  · intro hlt
    exact absurd hlt (Nat.lt_irrefl start)
  · intro _ hlt
    exact absurd hlt (Nat.lt_irrefl middle)
  · intro haway
    change start < start ∨ middle + 2 ≤ start at haway
    omega
  · have hp := h.located p hp
    omega
  · intro haway
    change middle < start ∨ middle + 2 ≤ middle at haway
    omega

/-- **A loop around a piece.** -/
theorem loop (h : Nested (start + 2) middle code) (c : Condition) :
    Nested start (middle + 2)
      (⟨start, .jumpUnless c (middle + 2)⟩ :: code ++ [⟨middle, .jump start⟩]) := by
  have hmiddle := h.start_le_stop
  refine ⟨by omega, forall_mem_loop ?_ (fun p hp => ?_) ?_,
    forall_mem_loop ?_ (fun p hp target htarget => ?_) ?_,
    forall_mem_loop ?_ h.forward (by simp), fun test back hloop => ?_⟩
  · change start ≤ start ∧ start < middle + 2
    omega
  · have hp := h.located p hp
    omega
  · change start ≤ middle ∧ middle < middle + 2
    omega
  · rintro _ ⟨⟩
    omega
  · have hp := h.stays p hp target htarget
    omega
  · rintro _ ⟨⟩
    omega
  · rintro _ _ ⟨⟩
    change start + 2 ≤ middle + 2
    omega
  · rw [isLoop_append_iff, isLoop_cons_iff (by simp)] at hloop
    rcases hloop with hloop | ⟨hmem, -⟩
    · -- a loop in the body, which the test and the jump back avoid
      have hbounds := h.loop_bounds hloop
      refine (h.closed test back hloop).extend (fun p hp => by simp [hp])
        (forall_mem_loop ?_ (fun p hp => .inl hp) ?_)
      · refine .inr ⟨.inl (by change start ≤ test; omega), ?_⟩
        rintro _ ⟨⟩
        omega
      · refine .inr ⟨.inr (by change back ≤ middle; omega), ?_⟩
        rintro _ ⟨⟩
        omega
    · -- the loop itself
      obtain ⟨rfl, hjump⟩ := Placed.mk.inj (List.mem_singleton.mp hmem)
      obtain rfl := Instr.jump.inj hjump
      exact h.isClosed_loop c

end Nested

/-! ### The code of statements -/

/-- No two instructions of placed code have the same address. -/
theorem Instr.eq_of_mem_place {start : Nat} {code : List Instr} {p q : Placed}
    (hp : p ∈ Instr.place start code) (hq : q ∈ Instr.place start code)
    (h : p.address = q.address) : p = q := by
  induction code generalizing start with
  | nil => cases hp
  | cons i code ih =>
      -- what follows the first instruction has greater addresses
      have hlater : ∀ r ∈ Instr.place (start + i.size) code, start < r.address := by
        intro r hr
        have hle := StartsAt.le_of_place ⟨r, hr, rfl⟩
        rw [Instr.size_eq] at hle
        split at hle <;> omega
      rcases List.mem_cons.mp hp with rfl | hp
      · rcases List.mem_cons.mp hq with rfl | hq
        · rfl
        · exact absurd (hlater q hq) (h ▸ Nat.lt_irrefl start)
      · rcases List.mem_cons.mp hq with rfl | hq
        · exact absurd (hlater p hp) (h ▸ Nat.lt_irrefl start)
        · exact ih hp hq

namespace Statement

/-- The code of statements one after another has the structure, if the code of each of them has. -/
theorem nested_layoutAll {body : List Statement}
    (ih : ∀ s ∈ body, ∀ start,
      Nested start (start + s.codeSize) (Instr.place start (s.layout start)))
    (start : Nat) :
    Nested start (start + codeSizeAll body) (Instr.place start (layoutAll start body)) := by
  induction body generalizing start with
  | nil =>
      rw [layoutAll, codeSizeAll]
      exact .nil start
  | cons s rest ihRest =>
      have hs := ih s List.mem_cons_self start
      have hrest := ihRest (fun t ht => ih t (List.mem_cons_of_mem s ht)) (start + s.codeSize)
      rw [layoutAll, codeSizeAll, Instr.place_append, sizeAll_layout, ← Nat.add_assoc]
      exact hs.append hrest

/-- **The code of a statement has the structure**, wherever it starts. -/
theorem nested_layout (s : Statement) (start : Nat) :
    Nested start (start + s.codeSize) (Instr.place start (s.layout start)) := by
  induction s using Statement.induction generalizing start with
  | block body ih =>
      rw [layout, codeSize]
      exact nested_layoutAll ih start
  | ifThen c body ih =>
      rw [layout, codeSize, Instr.place_jumpUnless_cons, ← Nat.add_assoc]
      have hbody := ih (start + 2)
      exact hbody.jumpOver rfl (by omega) (Nat.le_refl _) fun test back hloop =>
        .inr (hbody.loop_bounds hloop).2
  | ifElse c thenBody elseBody ihThen ihElse =>
      have hthen := ihThen (start + 2)
      have helse := ihElse (start + 2 + thenBody.codeSize + 2)
      have hrest := helse.jumpOver (i := .jump _) rfl (by omega) (Nat.le_refl _)
        fun test back hloop => .inr (helse.loop_bounds hloop).2
      rw [layout, codeSize, List.cons_append, Instr.place_jumpUnless_cons, Instr.place_append,
        Instr.place_jump_cons, sizeAll_layout]
      simp only [← Nat.add_assoc]
      refine (hthen.append hrest).jumpOver rfl (by omega) (by omega) fun test back hloop => ?_
      -- the jump goes to the second body, between the loops of the two
      rcases isLoop_append_iff.mp hloop with hloop | hloop
      · have hbounds := hthen.loop_bounds hloop
        omega
      · have hforward : ∀ target,
            Instr.jump (start + 2 + thenBody.codeSize + 2 + elseBody.codeSize) = .jump target →
              start + 2 + thenBody.codeSize < target := by
          rintro _ ⟨⟩
          omega
        have hbounds := helse.loop_bounds ((isLoop_cons_iff hforward).mp hloop)
        omega
  | whileDo c body ih =>
      have hloop := (ih (start + 2)).loop c
      rw [layout, codeSize, Instr.place_append, Instr.place_jumpUnless_cons,
        Instr.sizeAll_jumpUnless_cons, sizeAll_layout, Instr.place_jump_cons, Instr.place]
      simpa only [← Nat.add_assoc] using hloop
  | call name =>
      rw [layout, codeSize, Action.isName]
      cases Action.ofName? name with
      | none => exact .nil start
      | some action => exact .single rfl start

/-- **The jumps of generated code are those of nested branches and loops.** Every jump on a
condition goes forward, past its own two numbers. Every jump that goes back is that of a loop: where
it goes to there is a jump on a condition that goes to the address just after it. No two loops have
the same test. The jumps between the test of a loop and its jump back stay between them, and no jump
from outside goes into the loop but to its test. -/
theorem compile_jump_structure {defs : Definitions} {body : Statement} {bc : Bytecode}
    (h : (body.compile defs).outcome = .ok bc) :
    ∃ code, bc.decode = .ok code ∧
      (∀ address c target, ⟨address, .jumpUnless c target⟩ ∈ code → address + 2 ≤ target) ∧
      (∀ test back, IsLoop code test back → ∃ c, ⟨test, .jumpUnless c (back + 2)⟩ ∈ code) ∧
      (∀ test back back', IsLoop code test back → IsLoop code test back' → back = back') ∧
      (∀ test back, IsLoop code test back → ∀ p ∈ code, test < p.address → p.address < back →
        ∀ target, p.instr.target? = some target → test + 2 ≤ target ∧ target ≤ back) ∧
      ∀ test back, IsLoop code test back → ∀ p ∈ code,
        ¬ (test ≤ p.address ∧ p.address < back + 2) →
        ∀ target, p.instr.target? = some target → ¬ (test + 1 ≤ target ∧ target ≤ back + 1) := by
  obtain ⟨code, hcode, rfl⟩ := compile_eq_ok_iff.mp h
  obtain ⟨t, -, rfl⟩ := exists_expands_of_emit hcode
  have hnested : Nested 0 (0 + t.codeSize + 1) (Instr.place 0 (t.layout 0 ++ [.halt])) := by
    rw [Instr.place_append, sizeAll_layout]
    exact (t.nested_layout 0).append (.single rfl _)
  refine ⟨_, t.decode_layout, fun address c target hmem => hnested.forward _ hmem c target rfl,
    fun test back hloop => (hnested.closed test back hloop).exit, ?_,
    fun test back hloop => (hnested.closed test back hloop).inside, ?_⟩
  · -- the test of a loop tells where the loop ends
    intro test back back' hloop hloop'
    obtain ⟨c, hexit⟩ := (hnested.closed test back hloop).exit
    obtain ⟨c', hexit'⟩ := (hnested.closed test back' hloop').exit
    have hsame := Instr.eq_of_mem_place hexit hexit' rfl
    simp only [Placed.mk.injEq, Instr.jumpUnless.injEq, true_and] at hsame
    omega
  · intro test back hloop p hp haway target htarget
    have haway' : p.address < test ∨ back + 2 ≤ p.address := by omega
    have hout := (hnested.closed test back hloop).outside p hp haway' target htarget
    omega

/-- A loop around a branch. The first body of the branch is a loop that comes in for a call. -/
def sweeper : Statement :=
  .whileDo .always (.ifElse .random (.call "advance") (.call "turnleft"))

/-- What the robot calls. -/
def sweeperDefinitions : Definitions :=
  .ofList [("advance", .whileDo (.ahead .empty false) (.call "move"))]

/-- The instructions of the robot. -/
def sweeperCode : List Placed :=
  [⟨0, .jumpUnless .always 14⟩, ⟨2, .jumpUnless .random 11⟩,
    ⟨4, .jumpUnless (.ahead .empty false) 9⟩, ⟨6, .act .move⟩, ⟨7, .jump 4⟩, ⟨9, .jump 12⟩,
    ⟨11, .act .turnLeft⟩, ⟨12, .jump 0⟩, ⟨14, .halt⟩]

/-- The code of `sweeper` has two jumps back, at 7 and at 12. The inner loop is left to the jump at
9, which goes over the second body to the outer jump back, and no jump from outside goes into the
inner loop. -/
theorem compile_jump_structure_sweeper :
    (sweeper.compile sweeperDefinitions).outcome =
      .ok ⟨[16, 14, 15, 11, 7, 9, 0, 6, 4, 6, 12, 1, 6, 0, 5]⟩ ∧
    Bytecode.decode ⟨[16, 14, 15, 11, 7, 9, 0, 6, 4, 6, 12, 1, 6, 0, 5]⟩ = .ok sweeperCode ∧
    (IsLoop sweeperCode 4 7 ∧ ∀ back, IsLoop sweeperCode 4 back → back = 7) ∧
    (IsLoop sweeperCode 0 12 ∧ ∀ back, IsLoop sweeperCode 0 back → back = 12) ∧
    (∃ c, ⟨4, .jumpUnless c 9⟩ ∈ sweeperCode) ∧
    ∀ p ∈ sweeperCode, ¬ (4 ≤ p.address ∧ p.address < 9) →
      ∀ target, p.instr.target? = some target → ¬ (5 ≤ target ∧ target ≤ 8) := by
  have hcompile : (sweeper.compile sweeperDefinitions).outcome =
      .ok ⟨[16, 14, 15, 11, 7, 9, 0, 6, 4, 6, 12, 1, 6, 0, 5]⟩ := by cbv
  have hdecode : Bytecode.decode ⟨[16, 14, 15, 11, 7, 9, 0, 6, 4, 6, 12, 1, 6, 0, 5]⟩ =
      .ok sweeperCode := by cbv
  obtain ⟨code, hcode, -, hexit, hunique, -, houtside⟩ := compile_jump_structure hcompile
  obtain rfl : sweeperCode = code := Except.ok.inj (hdecode.symm.trans hcode)
  have hinner : IsLoop sweeperCode 4 7 := ⟨by decide, by decide⟩
  have houter : IsLoop sweeperCode 0 12 := ⟨by decide, by decide⟩
  exact ⟨hcompile, hdecode, ⟨hinner, fun back hback => hunique 4 back 7 hback hinner⟩,
    ⟨houter, fun back hback => hunique 0 back 12 hback houter⟩, hexit 4 7 hinner,
    houtside 4 7 hinner⟩

end Statement

end RobotScript
