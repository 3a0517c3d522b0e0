import Mathlib.Tactic
import RobotScript.Proofs.Execution

/-!
# Generated code does what the statements say

The machine on generated code and the statements it was generated from go through the same
occurrences, forever or up to the same end. The argument relates a list of pending statements to an
address of the program: `Continues defs program pending address` says that the code from `address`
on performs `pending` and then halts. It has one case for a statement whose code sits at the
address, one for a jump, since bodies of branches and loops end in jumps, and one for the halt.

A statement may have no code at all, so neither side can follow the other step by step. Forwards,
one step of the statements is a run of the machine, perhaps an empty one (`forward_step`).
Backwards, the statements first settle: they unfold blocks and calls until the next thing to
be done is what the machine is about to do (`Continues.settles`). From there each step of the
machine is at most one step of the statements (`backward_step`).

## Main results

* `Continues.branch`: where the two ways on of a branch or loop sit.
* `forward_step`, `forward_run`: what the statements do, the machine does.
* `Continues.settles`, `backward_step`, `backward_run`: what the machine does, the statements do.
* `compile_simulates`: **the generator is correct**; the same beginnings of runs, the same ends with
  the same final states, and the machine is always at an instruction and stops only at the halt.
-/

namespace RobotScript

universe u

open Statement

/-- What is pending after the test in a branch or loop, if the condition holds and if it does not,
before the statements that follow. -/
def Statement.branches? : Statement → Option (Condition × List Statement × List Statement)
  | .ifThen c body => some (c, [body], [])
  | .ifElse c thenBody elseBody => some (c, [thenBody], [elseBody])
  | .whileDo c body => some (c, [body, .whileDo c body], [])
  | _ => none

/-- The code of the program from `address` on performs the pending statements and halts. -/
inductive Continues (defs : Definitions) (program : List Instr) : List Statement → Nat → Prop
  | halt {address : Nat} {code : List Instr} :
      CodeAt program address (.halt :: code) → Continues defs program [] address
  | jump {pending : List Statement} {address target : Nat} {code : List Instr} :
      CodeAt program address (.jump target :: code) → Continues defs program pending target →
      Continues defs program pending address
  | next {s t : Statement} {pending : List Statement} {address : Nat} :
      Expands defs s t → CodeAt program address (t.layout address) →
      Continues defs program pending (address + t.codeSize) →
      Continues defs program (s :: pending) address

namespace Continues

variable {defs : Definitions} {program : List Instr} {pending : List Statement} {address : Nat}

/-- The members of a sequence follow one another in the code. -/
theorem append {body body' : List Statement} (hbody : List.Forall₂ (Expands defs) body body')
    (hcode : CodeAt program address (layoutAll address body'))
    (h : Continues defs program pending (address + codeSizeAll body')) :
    Continues defs program (body ++ pending) address := by
  induction hbody generalizing address with
  | nil => simpa [codeSizeAll] using h
  | @cons s t rest rest' hs _ ih =>
      rw [layoutAll] at hcode
      rw [codeSizeAll, ← Nat.add_assoc] at h
      have hrest := hcode.right
      rw [sizeAll_layout] at hrest
      exact .next hs hcode.left (ih hrest h)

/-- Where the two ways on of a branch or loop sit: after the conditional jump if the condition
holds, and at its target if not. The first body of a branch and the body of a loop are followed by a
jump, over the second body or back to the test. -/
theorem branch {s t : Statement} {c : Condition} {ifHolds ifNot : List Statement}
    (hs : s.branches? = some (c, ifHolds, ifNot)) (hexpands : Expands defs s t)
    (hcode : CodeAt program address (t.layout address))
    (h : Continues defs program pending (address + t.codeSize)) :
    ∃ target code, CodeAt program address (.jumpUnless c target :: code) ∧
      Continues defs program (ifHolds ++ pending) (address + 2) ∧
      Continues defs program (ifNot ++ pending) target := by
  cases hexpands with
  | @ifThen c body body' hbody =>
      obtain ⟨rfl, rfl, rfl⟩ : _ ∧ _ ∧ _ := by simpa [branches?] using hs
      rw [layout] at hcode
      rw [codeSize, ← Nat.add_assoc] at h
      exact ⟨_, _, hcode, .next hbody hcode.tail h, h⟩
  | @ifElse c thenBody thenBody' elseBody elseBody' hthen helse =>
      obtain ⟨rfl, rfl, rfl⟩ : _ ∧ _ ∧ _ := by simpa [branches?] using hs
      rw [layout, List.cons_append] at hcode
      rw [codeSize, ← Nat.add_assoc, ← Nat.add_assoc, ← Nat.add_assoc] at h
      have hthenCode := hcode.tail
      have hjump := hthenCode.right
      rw [sizeAll_layout] at hjump
      exact ⟨_, _, hcode, .next hthen hthenCode.left (.jump hjump h), .next helse hjump.tail h⟩
  | @whileDo c body body' hbody =>
      obtain ⟨rfl, rfl, rfl⟩ : _ ∧ _ ∧ _ := by simpa [branches?] using hs
      have hloop := hcode
      have hafter := h
      rw [layout, List.cons_append] at hcode
      rw [codeSize, ← Nat.add_assoc, ← Nat.add_assoc] at h
      have hbodyCode := hcode.tail
      have hjump := hbodyCode.right
      rw [sizeAll_layout] at hjump
      -- the loop as a whole is pending after the jump back
      exact ⟨_, _, hcode,
        .next hbody hbodyCode.left (.jump hjump (.next (.whileDo hbody) hloop hafter)), h⟩
  | block => simp [branches?] at hs
  | action => simp [branches?] at hs
  | instruction => simp [branches?] at hs

end Continues

/-! ### Forwards -/

section

variable {σ : Type u} (world : World σ) {defs : Definitions} {program : List Instr}
  {pending : List Statement} {address : Nat} {state : σ}

/-- A branch or loop tests its condition and goes on accordingly. -/
theorem Task.step?_of_branches {s : Statement} {c : Condition} {ifHolds ifNot : List Statement}
    (hs : s.branches? = some (c, ifHolds, ifNot)) :
    Task.step? world defs ⟨s :: pending, state⟩ =
      some (some (.tested c (world.test c state).1),
        ⟨(if (world.test c state).1 then ifHolds else ifNot) ++ pending,
          (world.test c state).2⟩) := by
  rcases htest : world.test c state with ⟨holds, state'⟩
  cases s with
  | ifThen =>
      obtain ⟨rfl, rfl, rfl⟩ : _ ∧ _ ∧ _ := by simpa [branches?] using hs
      simp only [Task.step?, htest]
      cases holds <;> rfl
  | ifElse =>
      obtain ⟨rfl, rfl, rfl⟩ : _ ∧ _ ∧ _ := by simpa [branches?] using hs
      simp only [Task.step?, htest]
      cases holds <;> rfl
  | whileDo =>
      obtain ⟨rfl, rfl, rfl⟩ : _ ∧ _ ∧ _ := by simpa [branches?] using hs
      simp only [Task.step?, htest]
      cases holds <;> rfl
  | block => simp [branches?] at hs
  | call => simp [branches?] at hs

/-- A block is replaced by its members, unseen. -/
theorem Task.step?_block (body : List Statement) :
    Task.step? world defs ⟨.block body :: pending, state⟩ = some (none, ⟨body ++ pending, state⟩) :=
  rfl

/-- An action is performed. -/
theorem Task.step?_action {name : String} {action : Action}
    (h : Action.ofName? name = some action) :
    Task.step? world defs ⟨.call name :: pending, state⟩ =
      some (some (.performed action), ⟨pending, world.act action state⟩) := by
  simp only [Task.step?, h]

/-- The call of an instruction is replaced by its body, unseen. -/
theorem Task.step?_instruction {name : String} {body : Statement}
    (h : Action.ofName? name = none) (hfind : defs.find? name = some body) :
    Task.step? world defs ⟨.call name :: pending, state⟩ =
      some (none, ⟨body :: pending, state⟩) := by
  simp only [Task.step?, h, hfind, Option.map_some]

/-- The machine follows a test of the statements. -/
theorem forward_test (state : σ) {c : Condition} {target : Nat} {code : List Instr}
    {ifHolds ifNot : List Statement} (hcode : CodeAt program address (.jumpUnless c target :: code))
    (hHolds : Continues defs program ifHolds (address + 2))
    (hNot : Continues defs program ifNot target) :
    ∃ address', Machine.step? world (.ofInstrs program) ⟨address, state⟩ =
        some (some (.tested c (world.test c state).1), ⟨address', (world.test c state).2⟩) ∧
      Continues defs program (if (world.test c state).1 then ifHolds else ifNot) address' := by
  refine ⟨_, hcode.step?_jumpUnless world state, ?_⟩
  cases (world.test c state).1 with
  | false => exact hNot
  | true => exact hHolds

/-- **One step forwards.** What the pending statements do in a step, the machine does in some run,
and it is again at code that performs what is pending then. -/
theorem forward_step {seen : Option Occurrence} {task' : Task σ}
    (h : Continues defs program pending address)
    (hstep : Task.step? world defs ⟨pending, state⟩ = some (seen, task')) :
    ∃ address', Runs (Machine.step? world (.ofInstrs program)) ⟨address, state⟩ seen.toList
        ⟨address', task'.state⟩ ∧ Continues defs program task'.pending address' := by
  induction h with
  | halt => cases hstep
  | jump hcode _ ih =>
      obtain ⟨address', hrun, h'⟩ := ih hstep
      exact ⟨address', .unseen (hcode.step?_jump world state) hrun, h'⟩
  | @next s t pending address hs hcode h _ =>
      cases hbranches : s.branches? with
      | some branches =>
          obtain ⟨c, ifHolds, ifNot⟩ := branches
          obtain ⟨target, code, hjump, hHolds, hNot⟩ := h.branch hbranches hs hcode
          obtain ⟨address', hmachine, h'⟩ := forward_test world state hjump hHolds hNot
          rw [Task.step?_of_branches world hbranches] at hstep
          obtain ⟨rfl, rfl⟩ := Prod.mk.inj (Option.some.inj hstep)
          refine ⟨address', .single hmachine, ?_⟩
          simpa only [apply_ite (· ++ pending)] using h'
      | none =>
          cases hs with
          | @block body body' hbody =>
              obtain ⟨rfl, rfl⟩ := Prod.mk.inj (Option.some.inj hstep)
              rw [layout] at hcode
              exact ⟨address, .refl _, .append hbody hcode h⟩
          | @action name action hact =>
              rw [Task.step?_action world hact] at hstep
              obtain ⟨rfl, rfl⟩ := Prod.mk.inj (Option.some.inj hstep)
              rw [layout, hact] at hcode
              rw [codeSize_action hact] at h
              exact ⟨_, .single (hcode.step?_act world state), h⟩
          | @instruction name body t hact hfind hbody =>
              rw [Task.step?_instruction world hact hfind] at hstep
              obtain ⟨rfl, rfl⟩ := Prod.mk.inj (Option.some.inj hstep)
              exact ⟨address, .refl _, .next hbody hcode h⟩
          | ifThen => simp [branches?] at hbranches
          | ifElse => simp [branches?] at hbranches
          | whileDo => simp [branches?] at hbranches

/-- **A run forwards**: what the pending statements do, the machine does. -/
theorem forward_run {task task' : Task σ} {trace : List Occurrence}
    (hrun : Runs (Task.step? world defs) task trace task')
    (h : Continues defs program task.pending address) :
    ∃ address', Runs (Machine.step? world (.ofInstrs program)) ⟨address, task.state⟩ trace
        ⟨address', task'.state⟩ ∧ Continues defs program task'.pending address' := by
  induction hrun generalizing address with
  | refl task => exact ⟨address, .refl _, h⟩
  | step hstep _ ih =>
      obtain ⟨address', hfirst, h'⟩ := forward_step world h hstep
      obtain ⟨address'', hrest, h''⟩ := ih h'
      exact ⟨address'', hfirst.trans hrest, h''⟩

/-! ### Backwards -/

/-- What is next for the pending statements is what the machine is about to do at `address`: to
stop, to jump, to perform an action, or to test a condition. -/
inductive Poised (defs : Definitions) (program : List Instr) : List Statement → Nat → Prop
  | halt {address : Nat} {code : List Instr} :
      CodeAt program address (.halt :: code) → Poised defs program [] address
  | jump {pending : List Statement} {address target : Nat} {code : List Instr} :
      CodeAt program address (.jump target :: code) → Continues defs program pending target →
      Poised defs program pending address
  | act {name : String} {action : Action} {pending : List Statement} {address : Nat}
      {code : List Instr} :
      Action.ofName? name = some action → CodeAt program address (.act action :: code) →
      Continues defs program pending (address + 1) →
      Poised defs program (.call name :: pending) address
  | test {s : Statement} {c : Condition} {ifHolds ifNot pending : List Statement}
      {address target : Nat} {code : List Instr} :
      s.branches? = some (c, ifHolds, ifNot) →
      CodeAt program address (.jumpUnless c target :: code) →
      Continues defs program (ifHolds ++ pending) (address + 2) →
      Continues defs program (ifNot ++ pending) target →
      Poised defs program (s :: pending) address

/-- The pending statements unfold, unseen and without a change of state, until they are poised. -/
def Settles (defs : Definitions) (program : List Instr) (pending : List Statement)
    (address : Nat) : Prop :=
  ∃ pending', (∀ state : σ, Runs (Task.step? world defs) ⟨pending, state⟩ [] ⟨pending', state⟩) ∧
    Poised defs program pending' address

/-- One more unseen step before statements that settle. -/
theorem Settles.unseen {pending' : List Statement}
    (hstep : ∀ state : σ, Task.step? world defs ⟨pending, state⟩ = some (none, ⟨pending', state⟩))
    (h : Settles world defs program pending' address) :
    Settles world defs program pending address := by
  obtain ⟨settled, hruns, hpoised⟩ := h
  exact ⟨settled, fun state => .unseen (hstep state) (hruns state), hpoised⟩

/-- Statements that are poised have settled. -/
theorem Poised.settles (h : Poised defs program pending address) :
    Settles world defs program pending address :=
  ⟨pending, fun _ => .refl _, h⟩

/-- A sequence settles if its members do, each before whatever follows it. -/
theorem Settles.append {body body' : List Statement}
    (hbody : List.Forall₂ (fun s t => ∃ _ : Expands defs s t,
      ∀ {pending : List Statement} {address : Nat}, CodeAt program address (t.layout address) →
        Continues defs program pending (address + t.codeSize) →
        Settles world defs program pending (address + t.codeSize) →
        Settles world defs program (s :: pending) address) body body')
    (hcode : CodeAt program address (layoutAll address body'))
    (h : Continues defs program pending (address + codeSizeAll body'))
    (hsettles : Settles world defs program pending (address + codeSizeAll body')) :
    Settles world defs program (body ++ pending) address := by
  induction hbody generalizing address with
  | nil => simpa [codeSizeAll] using hsettles
  | @cons s t rest rest' hs hrest ih =>
      rw [layoutAll] at hcode
      rw [codeSizeAll, ← Nat.add_assoc] at h hsettles
      have hrestCode := hcode.right
      rw [sizeAll_layout] at hrestCode
      have hrestContinues : Continues defs program (rest ++ pending) (address + t.codeSize) :=
        .append (hrest.imp fun _ _ ht => ht.1) hrestCode h
      exact hs.2 hcode.left hrestContinues (ih hrestCode h hsettles)

/-- A branch or loop is poised at its conditional jump. -/
theorem Settles.test {s t : Statement} {c : Condition} {ifHolds ifNot : List Statement}
    (hbranches : s.branches? = some (c, ifHolds, ifNot)) (hs : Expands defs s t)
    (hcode : CodeAt program address (t.layout address))
    (h : Continues defs program pending (address + t.codeSize)) :
    Settles world defs program (s :: pending) address := by
  obtain ⟨target, code, hjump, hHolds, hNot⟩ := h.branch hbranches hs hcode
  exact Poised.settles world (.test hbranches hjump hHolds hNot)

/-- A statement in front of statements that settle. Induction on the expansion: blocks and calls
unfold, and everything else is poised at once. -/
theorem Settles.cons {s t : Statement} (hs : Expands defs s t)
    (hcode : CodeAt program address (t.layout address))
    (h : Continues defs program pending (address + t.codeSize))
    (hsettles : Settles world defs program pending (address + t.codeSize)) :
    Settles world defs program (s :: pending) address := by
  induction hs using Expands.induction generalizing pending address with
  | block hbody =>
      rw [layout] at hcode
      exact .unseen world (fun _ => Task.step?_block world _)
        (.append world hbody hcode h hsettles)
  | ifThen hbody => exact .test world rfl (.ifThen hbody) hcode h
  | ifElse hthen helse => exact .test world rfl (.ifElse hthen helse) hcode h
  | whileDo hbody => exact .test world rfl (.whileDo hbody) hcode h
  | action hact =>
      rw [layout, hact] at hcode
      rw [codeSize_action hact] at h
      exact Poised.settles world (.act hact hcode h)
  | instruction hact hfind _ ih =>
      exact .unseen world (fun _ => Task.step?_instruction world hact hfind)
        (ih hcode h hsettles)

/-- **Statements settle**: wherever the code continues with them, they unfold to what the machine is
about to do. -/
theorem Continues.settles (h : Continues defs program pending address) :
    Settles world defs program pending address := by
  induction h with
  | halt hcode => exact Poised.settles world (.halt hcode)
  | jump hcode h => exact Poised.settles world (.jump hcode h)
  | next hs hcode h ih => exact .cons world hs hcode h ih

/-- **One step backwards.** What the machine does in a step, the pending statements do in some run,
and the machine is again at code that performs what is pending then. -/
theorem backward_step {m m' : Machine σ} {seen : Option Occurrence}
    (h : Continues defs program pending m.address)
    (hstep : Machine.step? world (.ofInstrs program) m = some (seen, m')) :
    ∃ pending', Runs (Task.step? world defs) ⟨pending, m.state⟩ seen.toList ⟨pending', m'.state⟩ ∧
      Continues defs program pending' m'.address := by
  obtain ⟨address, state⟩ := m
  obtain ⟨settled, hruns, hpoised⟩ := h.settles world
  cases hpoised with
  | halt hcode =>
      rw [hcode.step?_halt world state] at hstep
      cases hstep
  | @jump _ _ target _ hcode h' =>
      rw [hcode.step?_jump world state] at hstep
      obtain ⟨rfl, rfl⟩ := Prod.mk.inj (Option.some.inj hstep)
      exact ⟨settled, hruns state, h'⟩
  | @act name action rest _ _ hact hcode h' =>
      rw [hcode.step?_act world state] at hstep
      obtain ⟨rfl, rfl⟩ := Prod.mk.inj (Option.some.inj hstep)
      exact ⟨rest, (hruns state).trans (.single (Task.step?_action world hact)), h'⟩
  | @test s c ifHolds ifNot rest _ target _ hbranches hcode hHolds hNot =>
      obtain ⟨address', hmachine, h'⟩ := forward_test world state hcode hHolds hNot
      rw [hmachine] at hstep
      obtain ⟨rfl, rfl⟩ := Prod.mk.inj (Option.some.inj hstep)
      rw [← apply_ite (· ++ rest)] at h'
      exact ⟨_, (hruns state).trans (.single (Task.step?_of_branches world hbranches)), h'⟩

/-- **A run backwards**: what the machine does, the pending statements do. -/
theorem backward_run {m m' : Machine σ} {trace : List Occurrence}
    (hrun : Runs (Machine.step? world (.ofInstrs program)) m trace m')
    (h : Continues defs program pending m.address) :
    ∃ pending', Runs (Task.step? world defs) ⟨pending, m.state⟩ trace ⟨pending', m'.state⟩ ∧
      Continues defs program pending' m'.address := by
  induction hrun generalizing pending with
  | refl m => exact ⟨pending, .refl _, h⟩
  | step hstep _ ih =>
      obtain ⟨pending', hfirst, h'⟩ := backward_step world h hstep
      obtain ⟨pending'', hrest, h''⟩ := ih h'
      exact ⟨pending'', hfirst.trans hrest, h''⟩

/-! ### Stopping -/

/-- Where nothing is pending, the machine goes to a halt through jumps. -/
theorem Continues.runs_to_halt (h : Continues defs program [] address) (state : σ) :
    ∃ address', Runs (Machine.step? world (.ofInstrs program)) ⟨address, state⟩ []
      ⟨address', state⟩ ∧ (Bytecode.ofInstrs program).haltsAt address' := by
  generalize hpending : ([] : List Statement) = pending at h
  induction h with
  | halt hcode => exact ⟨_, .refl _, hcode.opcodeAt?⟩
  | jump hcode _ ih =>
      obtain ⟨address', hrun, hhalts⟩ := ih hpending
      exact ⟨address', .unseen (hcode.step?_jump world state) hrun, hhalts⟩
  | next => cases hpending

/-- Where the machine stops, the pending statements come to their end unseen. -/
theorem Continues.runs_to_end (h : Continues defs program pending address)
    (hhalts : (Bytecode.ofInstrs program).haltsAt address) (state : σ) :
    Runs (Task.step? world defs) ⟨pending, state⟩ [] ⟨[], state⟩ := by
  obtain ⟨settled, hruns, hpoised⟩ := h.settles world
  have hhalt : ∀ {i : Instr} {code : List Instr}, CodeAt program address (i :: code) →
      i.opcode = .halt := fun hcode => Option.some.inj (hcode.opcodeAt?.symm.trans hhalts)
  cases hpoised with
  | halt => exact hruns state
  | jump hcode => cases hhalt hcode
  | act _ hcode => cases hhalt hcode
  | test _ hcode => cases hhalt hcode

/-- The machine is at an instruction, and stops only at a halt. -/
theorem Continues.progress (h : Continues defs program pending address) (state : σ) :
    (∃ i code, CodeAt program address (i :: code)) ∧
      ((Bytecode.ofInstrs program).haltsAt address ∨
        ∃ next, Machine.step? world (.ofInstrs program) ⟨address, state⟩ = some next) := by
  obtain ⟨settled, -, hpoised⟩ := h.settles world
  cases hpoised with
  | halt hcode => exact ⟨⟨_, _, hcode⟩, .inl hcode.opcodeAt?⟩
  | jump hcode => exact ⟨⟨_, _, hcode⟩, .inr ⟨_, hcode.step?_jump world state⟩⟩
  | act _ hcode => exact ⟨⟨_, _, hcode⟩, .inr ⟨_, hcode.step?_act world state⟩⟩
  | test _ hcode => exact ⟨⟨_, _, hcode⟩, .inr ⟨_, hcode.step?_jumpUnless world state⟩⟩

end

/-! ### The generator is correct -/

/-- The complete code of a main body performs it and halts, and its instructions can be decoded. -/
theorem Statement.exists_continues_of_compile {defs : Definitions} {body : Statement}
    {bc : Bytecode} (h : (body.compile defs).outcome = .ok bc) :
    ∃ program, bc = .ofInstrs program ∧ bc.decode = .ok (Instr.place 0 program) ∧
      Continues defs program [body] 0 := by
  obtain ⟨code, hcode, rfl⟩ := compile_eq_ok_iff.mp h
  obtain ⟨t, ht, rfl⟩ := exists_expands_of_emit hcode
  have hplaced := CodeAt.whole (t.layout 0 ++ [.halt])
  have hhalt := hplaced.right
  rw [sizeAll_layout] at hhalt
  exact ⟨_, rfl, t.decode_layout, .next ht hplaced.left (.halt hhalt)⟩

/-- **The generator is correct.** In every world, the machine on the complete code of a main body
and the main body itself begin their runs with the same occurrences, the machine halts after a
sequence of occurrences exactly if the main body is completed after it, in the same state, and the
machine is always at an instruction of the code, where it can go on unless that is the halt. -/
theorem Statement.compile_simulates {σ : Type u} (world : World σ) {defs : Definitions}
    {body : Statement} {bc : Bytecode} (h : (body.compile defs).outcome = .ok bc) (state : σ) :
    (∀ trace, (∃ m, Runs (Machine.step? world bc) ⟨0, state⟩ trace m) ↔
      ∃ task, Runs (Task.step? world defs) ⟨[body], state⟩ trace task) ∧
    (∀ trace final,
      (∃ address, Runs (Machine.step? world bc) ⟨0, state⟩ trace ⟨address, final⟩ ∧
        bc.haltsAt address) ↔
      Runs (Task.step? world defs) ⟨[body], state⟩ trace ⟨[], final⟩) ∧
    ∀ trace m, Runs (Machine.step? world bc) ⟨0, state⟩ trace m →
      m.address < bc.size ∧ (∃ code, bc.decode = .ok code ∧ ∃ i, ⟨m.address, i⟩ ∈ code) ∧
      (bc.haltsAt m.address ∨ ∃ next, Machine.step? world bc m = some next) := by
  obtain ⟨program, rfl, hdecode, hbody⟩ := exists_continues_of_compile h
  refine ⟨fun trace => ⟨?_, ?_⟩, fun trace final => ⟨?_, ?_⟩, ?_⟩
  · rintro ⟨m, hrun⟩
    obtain ⟨pending, hrun', -⟩ := backward_run world hrun hbody
    exact ⟨_, hrun'⟩
  · rintro ⟨task, hrun⟩
    obtain ⟨address, hrun', -⟩ := forward_run world hrun hbody
    exact ⟨_, hrun'⟩
  · rintro ⟨address, hrun, hhalts⟩
    obtain ⟨pending, hrun', h'⟩ := backward_run world hrun hbody
    simpa using hrun'.trans (h'.runs_to_end world hhalts final)
  · intro hrun
    obtain ⟨address, hrun', h'⟩ := forward_run world hrun hbody
    obtain ⟨address', hjumps, hhalts⟩ := h'.runs_to_halt world final
    exact ⟨address', by simpa using hrun'.trans hjumps, hhalts⟩
  · intro trace m hrun
    obtain ⟨pending, -, h'⟩ := backward_run world hrun hbody
    obtain ⟨⟨i, code, hcode⟩, hprogress⟩ := h'.progress world m.state
    exact ⟨hcode.address_lt_size, ⟨_, hdecode, i, hcode.mem_place⟩, hprogress⟩

/-- A robot that goes on while the cell ahead is empty, turning on some coin flips, and infects. -/
def patrol : Statement :=
  .block [.whileDo (.ahead .empty false) (.call "advance"), .call "infect"]

/-- What the robot calls. -/
def patrolDefinitions : Definitions :=
  .ofList [("advance", .block [.ifElse .random (.call "turnleft") (.call "move"), .call "move"])]

/-- A corridor of three cells. The state counts the cells behind the robot and the coin flips, of
which every second one fails. -/
def corridor : World (Nat × Nat) where
  act
    | .move, (cells, flips) => (cells + 1, flips)
    | _, state => state
  test
    | .ahead .empty false, (cells, flips) => (cells < 2, cells, flips)
    | .random, (cells, flips) => (flips % 2 == 0, cells, flips + 1)
    | _, state => (false, state)

/-- The machine on the code of `patrol` goes down the corridor as the statements say, twice through
the loop and once each way through the inserted branch. -/
theorem Statement.compile_simulates_patrol :
    (patrol.compile patrolDefinitions).outcome =
      .ok ⟨[7, 11, 15, 7, 1, 6, 8, 0, 0, 6, 0, 3, 5]⟩ ∧
    ∃ address, Runs (Machine.step? corridor ⟨[7, 11, 15, 7, 1, 6, 8, 0, 0, 6, 0, 3, 5]⟩)
        ⟨0, (0, 0)⟩
        [.tested (.ahead .empty false) true, .tested .random true, .performed .turnLeft,
          .performed .move, .tested (.ahead .empty false) true, .tested .random false,
          .performed .move, .performed .move, .tested (.ahead .empty false) false,
          .performed .infect]
        ⟨address, (3, 2)⟩ ∧
      Bytecode.haltsAt ⟨[7, 11, 15, 7, 1, 6, 8, 0, 0, 6, 0, 3, 5]⟩ address := by
  have hcompile : (patrol.compile patrolDefinitions).outcome =
      .ok ⟨[7, 11, 15, 7, 1, 6, 8, 0, 0, 6, 0, 3, 5]⟩ := by cbv
  refine ⟨hcompile, ((Statement.compile_simulates corridor hcompile (0, 0)).2.1 _ _).mpr ?_⟩
  exact runs_iff_exists_runFor.mpr ⟨20, rfl⟩

end RobotScript
