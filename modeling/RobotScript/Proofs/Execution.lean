import RobotScript.Proofs.Placement

/-!
# Running statements and running code

A robot acts in a world: each action changes the world's state, and each test of a condition has an
outcome and may change the state as well. What can be seen of a run is the sequence of its
occurrences, the actions performed and the conditions tested with their outcome.

There are two ways to run. A `Task` is a state with statements still to be performed, the next one
first; performing a block or the call of an instruction puts statements in its place and is not
seen. A `Machine` is a state with the address of the next number of the code; it fetches operation
codes and targets as plain numbers, so nothing keeps it from running off the code or into the middle
of an instruction but the code itself. Both are deterministic and both may run forever, so runs are
described by their finite beginnings: `Runs step? x trace y` takes `x` to `y` with the occurrences
of `trace`.

## Main definitions

* `World`, `Occurrence`, `Runs`, and `runFor` to compute a run.
* `Task.step?` — the next step of statements to be performed.
* `Machine.step?` — the next step of the machine.
* `Bytecode.haltsAt` — the machine stops at this address.
-/

namespace RobotScript

universe u

/-- How a state responds to actions and tests. -/
structure World (σ : Type u) where
  /-- The state after an action. -/
  act : Action → σ → σ
  /-- The outcome of a test, and the state after it. -/
  test : Condition → σ → Bool × σ

/-- Something that can be seen of a run. -/
inductive Occurrence where
  /-- An action was performed. -/
  | performed (action : Action)
  /-- A condition was tested, and held or did not. -/
  | tested (condition : Condition) (holds : Bool)
  deriving DecidableEq, Repr

/-- The step function `step?` leads from one configuration to another in finitely many steps, with
the occurrences of `trace` in order. A step may have an occurrence or none. -/
inductive Runs {α : Type u} (step? : α → Option (Option Occurrence × α)) :
    α → List Occurrence → α → Prop
  | refl (x : α) : Runs step? x [] x
  | step {x y z : α} {seen : Option Occurrence} {trace : List Occurrence} :
      step? x = some (seen, y) → Runs step? y trace z → Runs step? x (seen.toList ++ trace) z

namespace Runs

variable {α : Type u} {step? : α → Option (Option Occurrence × α)} {x y z : α}
  {trace trace' : List Occurrence}

/-- A single step is a run. -/
theorem single {seen : Option Occurrence} (h : step? x = some (seen, y)) :
    Runs step? x seen.toList y := by
  simpa using Runs.step h (.refl y)

/-- One run after another is a run. -/
theorem trans (h : Runs step? x trace y) (h' : Runs step? y trace' z) :
    Runs step? x (trace ++ trace') z := by
  induction h with
  | refl => exact h'
  | step hstep _ ih =>
      rw [List.append_assoc]
      exact .step hstep (ih h')

/-- A step that cannot be seen, before a run. -/
theorem unseen (h : step? x = some (none, y)) (h' : Runs step? y trace z) :
    Runs step? x trace z :=
  .step h h'

end Runs

/-- The run of at most `n` steps: its occurrences, and where it leads. -/
def runFor {α : Type u} (step? : α → Option (Option Occurrence × α)) :
    Nat → α → List Occurrence × α
  | 0, x => ([], x)
  | n + 1, x =>
    match step? x with
    | none => ([], x)
    | some (seen, y) => (seen.toList ++ (runFor step? n y).1, (runFor step? n y).2)

/-- **Runs can be computed**: the runs from a configuration are those of some number of steps. -/
theorem runs_iff_exists_runFor {α : Type u} {step? : α → Option (Option Occurrence × α)} {x z : α}
    {trace : List Occurrence} : Runs step? x trace z ↔ ∃ n, runFor step? n x = (trace, z) := by
  constructor
  · intro h
    induction h with
    | refl x => exact ⟨0, rfl⟩
    | step hstep _ ih =>
        obtain ⟨n, hn⟩ := ih
        exact ⟨n + 1, by simp only [runFor, hstep, hn]⟩
  · rintro ⟨n, hn⟩
    induction n generalizing x trace with
    | zero =>
        obtain ⟨rfl, rfl⟩ := Prod.mk.inj hn
        exact .refl x
    | succ n ih =>
        rw [runFor] at hn
        split at hn
        · obtain ⟨rfl, rfl⟩ := Prod.mk.inj hn
          exact .refl x
        · obtain ⟨rfl, rfl⟩ := Prod.mk.inj hn
          exact .step ‹_› (ih rfl)

/-! ### Statements -/

/-- Statements to be performed, the next one first, and the state they find. -/
structure Task (σ : Type u) where
  pending : List Statement
  state : σ

/-- The next step of a task: what is seen of it, and the task after it. There is none if nothing is
pending, or if something is called that is neither an action nor defined. -/
def Task.step? {σ : Type u} (world : World σ) (defs : Definitions) (task : Task σ) :
    Option (Option Occurrence × Task σ) :=
  match task.pending with
  | [] => none
  | .block body :: rest => some (none, ⟨body ++ rest, task.state⟩)
  | .ifThen c body :: rest =>
    let (holds, state) := world.test c task.state
    some (some (.tested c holds), ⟨if holds then body :: rest else rest, state⟩)
  | .ifElse c thenBody elseBody :: rest =>
    let (holds, state) := world.test c task.state
    some (some (.tested c holds), ⟨(if holds then thenBody else elseBody) :: rest, state⟩)
  | .whileDo c body :: rest =>
    let (holds, state) := world.test c task.state
    some (some (.tested c holds),
      ⟨if holds then body :: .whileDo c body :: rest else rest, state⟩)
  | .call name :: rest =>
    match Action.ofName? name with
    | some action => some (some (.performed action), ⟨rest, world.act action task.state⟩)
    | none => (defs.find? name).map fun body => (none, ⟨body :: rest, task.state⟩)

/-! ### Code -/

namespace Bytecode

/-- The operation whose code stands at an address. -/
def opcodeAt? (bc : Bytecode) (address : Nat) : Option Opcode :=
  bc.values[address]?.bind Opcode.ofCode?

/-- The number after an address. -/
def targetAt? (bc : Bytecode) (address : Nat) : Option Nat :=
  bc.values[address + 1]?

/-- The machine stops at this address. -/
def haltsAt (bc : Bytecode) (address : Nat) : Prop :=
  bc.opcodeAt? address = some .halt

end Bytecode

/-- The address of the next number of the code, and the state that the machine finds. -/
structure Machine (σ : Type u) where
  address : Nat
  state : σ

/-- The next step of the machine: what is seen of it, and the machine after it. There is none at a
halt, and none where the code has no operation or a jump has no target. -/
def Machine.step? {σ : Type u} (world : World σ) (bc : Bytecode) (m : Machine σ) :
    Option (Option Occurrence × Machine σ) :=
  match bc.opcodeAt? m.address with
  | none => none
  | some .halt => none
  | some (.act action) =>
    some (some (.performed action), ⟨m.address + 1, world.act action m.state⟩)
  | some .jump => (bc.targetAt? m.address).map fun target => (none, ⟨target, m.state⟩)
  | some (.jumpUnless c) =>
    (bc.targetAt? m.address).map fun target =>
      let (holds, state) := world.test c m.state
      (some (.tested c holds), ⟨if holds then m.address + 2 else target, state⟩)

/-! ### What the machine fetches from placed code -/

namespace CodeAt

variable {program code : List Instr} {address target : Nat} {i : Instr}

/-- At the address of an instruction the machine fetches its operation. -/
theorem opcodeAt? (h : CodeAt program address (i :: code)) :
    (Bytecode.ofInstrs program).opcodeAt? address = some i.opcode := by
  obtain ⟨rest, hrest⟩ := h.values_drop
  have hvalue : (Bytecode.ofInstrs program).values[address]? = some i.opcode.code := by
    rw [← Nat.add_zero address, ← List.getElem?_drop, hrest]
    rfl
  rw [Bytecode.opcodeAt?, hvalue]
  exact Opcode.ofCode?_code i.opcode

/-- The address of an instruction is an address of the code. -/
theorem address_lt_size (h : CodeAt program address (i :: code)) :
    address < (Bytecode.ofInstrs program).size := by
  have hopcode := h.opcodeAt?
  rw [Bytecode.opcodeAt?, Option.bind_eq_some_iff] at hopcode
  obtain ⟨value, hvalue, -⟩ := hopcode
  exact (List.getElem?_eq_some_iff.mp hvalue).1

/-- After the operation of a jump the machine fetches its target. -/
theorem targetAt? (h : CodeAt program address (i :: code)) (htarget : i.target? = some target) :
    (Bytecode.ofInstrs program).targetAt? address = some target := by
  obtain ⟨rest, hrest⟩ := h.values_drop
  rw [Bytecode.targetAt?, ← List.getElem?_drop, hrest, Instr.encode, htarget]
  rfl

variable {σ : Type u} (world : World σ) (state : σ)

/-- The machine stops at a halt. -/
theorem step?_halt (h : CodeAt program address (.halt :: code)) :
    Machine.step? world (.ofInstrs program) ⟨address, state⟩ = none := by
  rw [Machine.step?, h.opcodeAt?]
  rfl

/-- The machine performs an action and goes on after it. -/
theorem step?_act {action : Action} (h : CodeAt program address (.act action :: code)) :
    Machine.step? world (.ofInstrs program) ⟨address, state⟩ =
      some (some (.performed action), ⟨address + 1, world.act action state⟩) := by
  rw [Machine.step?, h.opcodeAt?]
  rfl

/-- The machine goes to the target of a jump. -/
theorem step?_jump (h : CodeAt program address (.jump target :: code)) :
    Machine.step? world (.ofInstrs program) ⟨address, state⟩ = some (none, ⟨target, state⟩) := by
  rw [Machine.step?, h.opcodeAt?]
  simp only [Instr.opcode]
  rw [h.targetAt? rfl]
  rfl

/-- The machine tests a condition and goes on after the jump or at its target. -/
theorem step?_jumpUnless {c : Condition}
    (h : CodeAt program address (.jumpUnless c target :: code)) :
    Machine.step? world (.ofInstrs program) ⟨address, state⟩ =
      some (some (.tested c (world.test c state).1),
        ⟨if (world.test c state).1 then address + 2 else target, (world.test c state).2⟩) := by
  rw [Machine.step?, h.opcodeAt?]
  simp only [Instr.opcode]
  rw [h.targetAt? rfl]
  rfl

end CodeAt

end RobotScript
