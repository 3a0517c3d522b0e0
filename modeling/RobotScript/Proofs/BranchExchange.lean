import Mathlib.Tactic
import RobotScript.Proofs.Lookup
import RobotScript.Proofs.Simulation

/-!
# Exchanging the bodies of two-way branches

A two-way branch on a condition does the same as the branch on the negated condition with the bodies
exchanged. `Statement.Mirrors` relates statements that differ in this way at any set of their
branches. It is symmetric, so everything below is proved in one direction only.

The code of mirrored programs has the same length, but its instructions stand at different
addresses, so there is no relation between the two machines' addresses to carry through a run.
Instead the runs are compared as runs of statements, which stay mirrored step by step
(`Task.Mirrors.step`), and the generator's correctness takes them from and to the machines.

## Main definitions

* `Statement.Mirrors`, `Definitions.Mirrors`, `Task.Mirrors` — alike up to exchanged branches.
* `World.IsConsistent` — a condition and its negation are tested with opposite outcomes.
* `Bytecode.Performs`, `Bytecode.Completes` — the actions at the beginning of a run, and those of a
  run up to the halt with the state it ends in.

## Main results

* `Statement.mirrors_simplify`: affirmative conditions come about by exchanging branches.
* `Statement.Mirrors.emit`: **mirrored statements have code of the same length**, or none.
* `Task.Mirrors.run`: **mirrored statements perform the same actions**.
* `Program.simplify_preserves_behaviour`: a program and its affirmative form have code together, of
  the same length, and the machine performs the same actions on both.
-/

namespace RobotScript

universe u

open Logged

/-- Negating twice gives the condition back. -/
theorem Condition.negated?_symm {c c' : Condition} (h : c.negated? = some c') :
    c'.negated? = some c := by
  cases c with
  | ahead sight negative =>
      obtain rfl := Option.some.inj h
      simp [negated?]
  | random => cases h
  | always => cases h

/-! ### Mirrored statements -/

/-- The second statement is the first with the condition negated and the bodies exchanged at some of
its two-way branches. -/
inductive Statement.Mirrors : Statement → Statement → Prop
  | block {body body' : List Statement} :
      List.Forall₂ Mirrors body body' → Mirrors (.block body) (.block body')
  | ifThen {c : Condition} {body body' : Statement} :
      Mirrors body body' → Mirrors (.ifThen c body) (.ifThen c body')
  | ifElse {c : Condition} {thenBody thenBody' elseBody elseBody' : Statement} :
      Mirrors thenBody thenBody' → Mirrors elseBody elseBody' →
      Mirrors (.ifElse c thenBody elseBody) (.ifElse c thenBody' elseBody')
  | exchange {c c' : Condition} {thenBody thenBody' elseBody elseBody' : Statement} :
      c.negated? = some c' → Mirrors thenBody thenBody' → Mirrors elseBody elseBody' →
      Mirrors (.ifElse c thenBody elseBody) (.ifElse c' elseBody' thenBody')
  | whileDo {c : Condition} {body body' : Statement} :
      Mirrors body body' → Mirrors (.whileDo c body) (.whileDo c body')
  | call (name : String) : Mirrors (.call name) (.call name)

/-- The same names are defined, with mirrored bodies. -/
def Definitions.Mirrors (defs defs' : Definitions) : Prop :=
  ∀ name, Option.Rel Statement.Mirrors (defs.find? name) (defs'.find? name)

namespace Statement

/-- Mirroring goes both ways. -/
theorem Mirrors.symm {s s' : Statement} (h : s.Mirrors s') : s'.Mirrors s := by
  induction s using Statement.induction generalizing s' with
  | block body ih =>
      cases h with
      | block hbody =>
          have hmembers := (List.forall₂_and_left body _).mpr ⟨ih, hbody⟩
          exact .block (hmembers.imp fun _ _ hs => hs.1 hs.2).flip
  | ifThen c body ih =>
      cases h with
      | ifThen hbody => exact .ifThen (ih hbody)
  | ifElse c thenBody elseBody ihThen ihElse =>
      cases h with
      | ifElse hthen helse => exact .ifElse (ihThen hthen) (ihElse helse)
      | exchange hc hthen helse =>
          exact .exchange (Condition.negated?_symm hc) (ihElse helse) (ihThen hthen)
  | whileDo c body ih =>
      cases h with
      | whileDo hbody => exact .whileDo (ih hbody)
  | call name =>
      cases h
      exact .call name

/-- A statement mirrors its form with affirmative conditions in two-way branches. -/
theorem mirrors_simplify (s : Statement) : s.Mirrors s.simplify := by
  induction s using Statement.induction with
  | block body ih =>
      rw [simplify]
      exact .block (List.forall₂_map_right_iff.mpr (List.forall₂_same.mpr ih))
  | ifThen c body ih =>
      rw [simplify]
      exact .ifThen ih
  | ifElse c thenBody elseBody ihThen ihElse =>
      -- only the negative tests of the cell ahead are exchanged
      rcases c with ⟨sight, negative⟩ | _ | _
      · cases negative with
        | false =>
            rw [simplify]
            · exact .ifElse ihThen ihElse
            · simp
        | true =>
            rw [simplify]
            exact .exchange rfl ihThen ihElse
      · rw [simplify]
        · exact .ifElse ihThen ihElse
        · simp
      · rw [simplify]
        · exact .ifElse ihThen ihElse
        · simp
  | whileDo c body ih =>
      rw [simplify]
      exact .whileDo ih
  | call name =>
      rw [simplify]
      exact .call name

end Statement

namespace Definitions

variable {defs defs' : Definitions}

/-- What is defined on one side is defined on the other, with a mirrored body. -/
theorem Mirrors.find (h : defs.Mirrors defs') {name : String} {body : Statement}
    (hfind : defs.find? name = some body) :
    ∃ body', defs'.find? name = some body' ∧ body.Mirrors body' := by
  have hrel := h name
  rw [hfind] at hrel
  generalize hfind' : defs'.find? name = found at hrel
  cases hrel with
  | some hbody => exact ⟨_, rfl, hbody⟩

/-- Mirroring goes both ways. -/
theorem Mirrors.symm (h : defs.Mirrors defs') : defs'.Mirrors defs := by
  intro name
  have hrel := h name
  generalize defs.find? name = found, defs'.find? name = found' at hrel ⊢
  cases hrel with
  | some hbody => exact .some hbody.symm
  | none => exact .none

/-- Definitions mirror those with affirmative conditions. -/
theorem mirrors_mapBodies_simplify (defs : Definitions) :
    defs.Mirrors (defs.mapBodies Statement.simplify) := by
  intro name
  rw [find?_mapBodies]
  cases defs.find? name with
  | some body => exact .some body.mirrors_simplify
  | none => exact .none

end Definitions

namespace Statement

/-! ### Their code -/

/-- What the code of a two-way branch takes. -/
theorem sizeAll_ifElse (c : Condition) (target stop : Nat) (thenCode elseCode : List Instr) :
    Instr.sizeAll (.jumpUnless c target :: thenCode ++ .jump stop :: elseCode) =
      2 + Instr.sizeAll thenCode + 2 + Instr.sizeAll elseCode := by
  rw [List.cons_append, Instr.sizeAll_jumpUnless_cons, Instr.sizeAll_append,
    Instr.sizeAll_jump_cons]
  omega

/-- **Mirrored statements have code of the same length**, wherever the two are placed. The induction
is over the successes of the generator on the first of them. -/
theorem Mirrors.emit {defs defs' : Definitions} (hdefs : defs.Mirrors defs')
    {chain : List String} {levels start : Nat} {s s' : Statement} {code : List Instr}
    (hs : s.Mirrors s') (h : (emit defs chain levels start s).outcome = .ok code) (start' : Nat) :
    ∃ code', (emit defs' chain levels start' s').outcome = .ok code' ∧
      Instr.sizeAll code' = Instr.sizeAll code := by
  revert s' start'
  refine @emit_induction defs chain levels start code
    (fun chain levels _ s code => ∀ {s' : Statement}, s.Mirrors s' → ∀ start',
      ∃ code', (Statement.emit defs' chain levels start' s').outcome = .ok code' ∧
        Instr.sizeAll code' = Instr.sizeAll code)
    (fun chain levels _ body code => ∀ {body' : List Statement},
      List.Forall₂ Statement.Mirrors body body' → ∀ start',
      ∃ code', (emitAll defs' chain levels start' body').outcome = .ok code' ∧
        Instr.sizeAll code' = Instr.sizeAll code) ?block ?ifThen ?ifElse ?whileDo ?action
      ?instruction ?nil ?cons s h
  case block =>
    intro chain levels _ body code ih s' hs start'
    cases hs with
    | block hbody =>
        rw [emit_block]
        exact ih hbody start'
  case ifThen =>
    intro chain levels _ c body code ih s' hs start'
    cases hs with
    | ifThen hbody =>
        obtain ⟨code', hcode', hsize⟩ := ih hbody (start' + 2)
        refine ⟨_, emit_ifThen_eq_ok_iff.mpr ⟨code', hcode', rfl⟩, ?_⟩
        rw [Instr.sizeAll_jumpUnless_cons, Instr.sizeAll_jumpUnless_cons, hsize]
  case ifElse =>
    -- As it is, or with its bodies exchanged.
    intro chain levels _ c thenBody elseBody thenCode elseCode ihThen ihElse s' hs start'
    cases hs with
    | ifElse hthen helse =>
        obtain ⟨thenCode', hthen', hsizeThen⟩ := ihThen hthen (start' + 2)
        obtain ⟨elseCode', helse', hsizeElse⟩ :=
          ihElse helse (start' + 2 + Instr.sizeAll thenCode' + 2)
        refine ⟨_, emit_ifElse_eq_ok_iff.mpr ⟨thenCode', elseCode', hthen', helse', rfl⟩, ?_⟩
        simp only [sizeAll_ifElse, hsizeThen, hsizeElse]
    | exchange _ hthen helse =>
        obtain ⟨elseCode', helse', hsizeElse⟩ := ihElse helse (start' + 2)
        obtain ⟨thenCode', hthen', hsizeThen⟩ :=
          ihThen hthen (start' + 2 + Instr.sizeAll elseCode' + 2)
        refine ⟨_, emit_ifElse_eq_ok_iff.mpr ⟨elseCode', thenCode', helse', hthen', rfl⟩, ?_⟩
        simp only [sizeAll_ifElse, hsizeThen, hsizeElse]
        omega
  case whileDo =>
    intro chain levels _ c body code ih s' hs start'
    cases hs with
    | whileDo hbody =>
        obtain ⟨code', hcode', hsize⟩ := ih hbody (start' + 2)
        refine ⟨_, emit_whileDo_eq_ok_iff.mpr ⟨code', hcode', rfl⟩, ?_⟩
        simp only [List.cons_append, Instr.sizeAll_jumpUnless_cons, Instr.sizeAll_append, hsize,
          Instr.sizeAll_jump_cons]
  case action =>
    intro chain levels _ name action hact s' hs start'
    cases hs
    exact ⟨[.act action], by rw [emit_call_action hact, outcome_pure], rfl⟩
  case instruction =>
    intro chain levels _ name body code hact hfind hmem ih s' hs start'
    cases hs
    obtain ⟨body', hfind', hbody⟩ := hdefs.find hfind
    obtain ⟨code', hcode', hsize⟩ := ih hbody start'
    exact ⟨code', by rw [emit_call_instruction_outcome hact hfind' hmem, hcode'], hsize⟩
  case nil =>
    intro chain levels _ body' hbody start'
    cases hbody
    exact ⟨[], by rw [emitAll_nil, outcome_pure], rfl⟩
  case cons =>
    intro chain levels _ s rest first later ih ihRest body' hbody start'
    cases hbody with
    | cons hs hrest =>
        obtain ⟨first', hfirst, hsize⟩ := ih hs start'
        obtain ⟨later', hlater, hsizeRest⟩ := ihRest hrest (start' + Instr.sizeAll first')
        refine ⟨first' ++ later',
          emitAll_cons_eq_ok_iff.mpr ⟨first', later', hfirst, hlater, rfl⟩, ?_⟩
        rw [Instr.sizeAll_append, Instr.sizeAll_append, hsize, hsizeRest]

/-- Compiling mirrored main bodies succeeds together, with code of the same length. -/
theorem Mirrors.compile {defs defs' : Definitions} (hdefs : defs.Mirrors defs')
    {body body' : Statement} {bc : Bytecode} (hbody : body.Mirrors body')
    (h : (body.compile defs).outcome = .ok bc) :
    ∃ bc', (body'.compile defs').outcome = .ok bc' ∧ bc'.size = bc.size := by
  obtain ⟨code, hcode, rfl⟩ := compile_eq_ok_iff.mp h
  obtain ⟨code', hcode', hsize⟩ := hbody.emit hdefs hcode 0
  refine ⟨_, compile_eq_ok_iff.mpr ⟨code', hcode', rfl⟩, ?_⟩
  rw [Bytecode.size_ofInstrs, Bytecode.size_ofInstrs, Instr.sizeAll_append, Instr.sizeAll_append,
    hsize]

/-! ### What they do -/

/-- Mirrored branches and loops go on in the same two ways, on the same condition or, with the ways
exchanged, on its negation. -/
theorem Mirrors.branches {s s' : Statement} (h : s.Mirrors s') {c : Condition}
    {ifHolds ifNot : List Statement} (hs : s.branches? = some (c, ifHolds, ifNot)) :
    ∃ c' ifHolds' ifNot', s'.branches? = some (c', ifHolds', ifNot') ∧
      (c' = c ∧ List.Forall₂ Mirrors ifHolds ifHolds' ∧ List.Forall₂ Mirrors ifNot ifNot' ∨
        c.negated? = some c' ∧ List.Forall₂ Mirrors ifHolds ifNot' ∧
          List.Forall₂ Mirrors ifNot ifHolds') := by
  cases h with
  | ifThen hbody =>
      obtain ⟨rfl, rfl, rfl⟩ : _ ∧ _ ∧ _ := by simpa [branches?] using hs
      exact ⟨_, _, _, rfl, .inl ⟨rfl, .cons hbody .nil, .nil⟩⟩
  | ifElse hthen helse =>
      obtain ⟨rfl, rfl, rfl⟩ : _ ∧ _ ∧ _ := by simpa [branches?] using hs
      exact ⟨_, _, _, rfl, .inl ⟨rfl, .cons hthen .nil, .cons helse .nil⟩⟩
  | exchange hc hthen helse =>
      obtain ⟨rfl, rfl, rfl⟩ : _ ∧ _ ∧ _ := by simpa [branches?] using hs
      exact ⟨_, _, _, rfl, .inr ⟨hc, .cons hthen .nil, .cons helse .nil⟩⟩
  | whileDo hbody =>
      obtain ⟨rfl, rfl, rfl⟩ : _ ∧ _ ∧ _ := by simpa [branches?] using hs
      exact ⟨_, _, _, rfl, .inl ⟨rfl, .cons hbody (.cons (.whileDo hbody) .nil), .nil⟩⟩
  | block => simp [branches?] at hs
  | call => simp [branches?] at hs

end Statement

/-- The action that was performed. -/
def Occurrence.action? : Occurrence → Option Action
  | performed action => some action
  | tested _ _ => none

/-- The actions of a run, in order. -/
def actions (trace : List Occurrence) : List Action :=
  trace.filterMap Occurrence.action?

theorem actions_append (trace trace' : List Occurrence) :
    actions (trace ++ trace') = actions trace ++ actions trace' :=
  List.filterMap_append

/-- A condition and its negation are tested with opposite outcomes, and change the state alike. -/
def World.IsConsistent {σ : Type u} (world : World σ) : Prop :=
  ∀ c c', c.negated? = some c' → ∀ state,
    world.test c' state = (!(world.test c state).1, (world.test c state).2)

/-- Mirrored statements are pending, and they find the same state. -/
structure Task.Mirrors {σ : Type u} (task task' : Task σ) : Prop where
  pending : List.Forall₂ Statement.Mirrors task.pending task'.pending
  state : task.state = task'.state

section

variable {σ : Type u} {world : World σ} {defs defs' : Definitions} {task task' next : Task σ}

/-- **One step of mirrored tasks.** What one does, the other does; only the condition that is tested
can differ. -/
theorem Task.Mirrors.step (hworld : world.IsConsistent) (hdefs : defs.Mirrors defs')
    (h : task.Mirrors task') {seen : Option Occurrence}
    (hstep : Task.step? world defs task = some (seen, next)) :
    ∃ seen' next', Task.step? world defs' task' = some (seen', next') ∧ next.Mirrors next' ∧
      actions seen'.toList = actions seen.toList := by
  obtain ⟨pending, state⟩ := task
  obtain ⟨pending', _⟩ := task'
  obtain ⟨hpending, rfl⟩ := h
  cases hpending with
  | nil => cases hstep
  | @cons s s' rest rest' hs hrest =>
      cases hbranches : s.branches? with
      | some branches =>
          obtain ⟨c, ifHolds, ifNot⟩ := branches
          obtain ⟨c', ifHolds', ifNot', hbranches', hways⟩ := hs.branches hbranches
          rw [Task.step?_of_branches world hbranches] at hstep
          obtain ⟨rfl, rfl⟩ := Prod.mk.inj (Option.some.inj hstep)
          refine ⟨_, _, Task.step?_of_branches world hbranches', ?_, rfl⟩
          rcases hways with ⟨rfl, hHolds, hNot⟩ | ⟨hc, hHolds, hNot⟩
          · refine ⟨List.rel_append ?_ hrest, rfl⟩
            cases (world.test c' state).1 with
            | true => exact hHolds
            | false => exact hNot
          · rw [hworld c c' hc state]
            refine ⟨List.rel_append ?_ hrest, rfl⟩
            cases (world.test c state).1 with
            | true => exact hHolds
            | false => exact hNot
      | none =>
          cases hs with
          | block hbody =>
              obtain ⟨rfl, rfl⟩ := Prod.mk.inj (Option.some.inj hstep)
              exact ⟨none, _, rfl, ⟨List.rel_append hbody hrest, rfl⟩, rfl⟩
          | call name =>
              cases hact : Action.ofName? name with
              | some action =>
                  rw [Task.step?_action world hact] at hstep
                  obtain ⟨rfl, rfl⟩ := Prod.mk.inj (Option.some.inj hstep)
                  exact ⟨_, _, Task.step?_action world hact, ⟨hrest, rfl⟩, rfl⟩
              | none =>
                  cases hfind : defs.find? name with
                  | none => simp [Task.step?, hact, hfind] at hstep
                  | some body =>
                      obtain ⟨body', hfind', hbody⟩ := hdefs.find hfind
                      rw [Task.step?_instruction world hact hfind] at hstep
                      obtain ⟨rfl, rfl⟩ := Prod.mk.inj (Option.some.inj hstep)
                      exact ⟨none, _, Task.step?_instruction world hact hfind',
                        ⟨.cons hbody hrest, rfl⟩, rfl⟩
          | ifThen => simp [Statement.branches?] at hbranches
          | ifElse => simp [Statement.branches?] at hbranches
          | exchange => simp [Statement.branches?] at hbranches
          | whileDo => simp [Statement.branches?] at hbranches

/-- **A run of mirrored tasks**: they perform the same actions, and stay mirrored. -/
theorem Task.Mirrors.run (hworld : world.IsConsistent) (hdefs : defs.Mirrors defs')
    (h : task.Mirrors task') {trace : List Occurrence}
    (hrun : Runs (Task.step? world defs) task trace next) :
    ∃ trace' next', Runs (Task.step? world defs') task' trace' next' ∧ next.Mirrors next' ∧
      actions trace' = actions trace := by
  induction hrun generalizing task' with
  | refl => exact ⟨[], task', .refl _, h, rfl⟩
  | step hstep _ ih =>
      obtain ⟨seen', middle, hstep', hmiddle, hseen⟩ := h.step hworld hdefs hstep
      obtain ⟨trace', next', hrun', hnext, htrace⟩ := ih hmiddle
      refine ⟨seen'.toList ++ trace', next', .step hstep' hrun', hnext, ?_⟩
      rw [actions_append, actions_append, hseen, htrace]

end

/-! ### What the machine does -/

/-- The machine on this code begins its run from `state` with these actions. -/
def Bytecode.Performs {σ : Type u} (bc : Bytecode) (world : World σ) (state : σ)
    (acts : List Action) : Prop :=
  ∃ trace m, Runs (Machine.step? world bc) ⟨0, state⟩ trace m ∧ actions trace = acts

/-- The machine on this code halts after these actions, and leaves the state `final`. -/
def Bytecode.Completes {σ : Type u} (bc : Bytecode) (world : World σ) (state : σ)
    (acts : List Action) (final : σ) : Prop :=
  ∃ trace address, Runs (Machine.step? world bc) ⟨0, state⟩ trace ⟨address, final⟩ ∧
    bc.haltsAt address ∧ actions trace = acts

section

variable {σ : Type u} {world : World σ} {state : σ} {defs defs' : Definitions}
  {body body' : Statement} {bc bc' : Bytecode} {acts : List Action}

/-- The machine begins with the same actions on the code of mirrored main bodies. -/
theorem Bytecode.Performs.of_mirrors (hworld : world.IsConsistent) (hdefs : defs.Mirrors defs')
    (hbody : body.Mirrors body') (hbc : (body.compile defs).outcome = .ok bc)
    (hbc' : (body'.compile defs').outcome = .ok bc') (h : bc.Performs world state acts) :
    bc'.Performs world state acts := by
  obtain ⟨program, rfl, -, hcode⟩ := Statement.exists_continues_of_compile hbc
  obtain ⟨program', rfl, -, hcode'⟩ := Statement.exists_continues_of_compile hbc'
  obtain ⟨trace, m, hrun, rfl⟩ := h
  have hstart : Task.Mirrors ⟨[body], state⟩ ⟨[body'], state⟩ := ⟨.cons hbody .nil, rfl⟩
  -- from the machine to the statements, across, and back to the other machine
  obtain ⟨pending, htask, -⟩ := backward_run world hrun hcode
  obtain ⟨trace', next, htask', -, htrace⟩ := hstart.run hworld hdefs htask
  obtain ⟨address, hrun', -⟩ := forward_run world htask' hcode'
  exact ⟨trace', _, hrun', htrace⟩

/-- The machine halts after the same actions on the code of mirrored main bodies, in the same
state. -/
theorem Bytecode.Completes.of_mirrors (hworld : world.IsConsistent) (hdefs : defs.Mirrors defs')
    (hbody : body.Mirrors body') (hbc : (body.compile defs).outcome = .ok bc)
    (hbc' : (body'.compile defs').outcome = .ok bc') {final : σ}
    (h : bc.Completes world state acts final) : bc'.Completes world state acts final := by
  obtain ⟨program, rfl, -, hcode⟩ := Statement.exists_continues_of_compile hbc
  obtain ⟨program', rfl, -, hcode'⟩ := Statement.exists_continues_of_compile hbc'
  obtain ⟨trace, address, hrun, hhalts, rfl⟩ := h
  have hstart : Task.Mirrors ⟨[body], state⟩ ⟨[body'], state⟩ := ⟨.cons hbody .nil, rfl⟩
  obtain ⟨pending, htask, hpending⟩ := backward_run world hrun hcode
  have hend := htask.trans (hpending.runs_to_end world hhalts final)
  obtain ⟨trace', ⟨pending', _⟩, htask', ⟨hnext, rfl⟩, htrace⟩ := hstart.run hworld hdefs hend
  -- nothing is pending on either side
  obtain rfl : pending' = [] := List.forall₂_nil_left_iff.mp hnext
  obtain ⟨stop, hrun', hstop⟩ := forward_run world htask' hcode'
  obtain ⟨address', hjumps, hhalts'⟩ := hstop.runs_to_halt world final
  refine ⟨trace' ++ [], address', hrun'.trans hjumps, hhalts', ?_⟩
  rw [List.append_nil, htrace, List.append_nil]

end

/-- **Affirmative conditions change nothing but the code's order.** A program and its form with
affirmative conditions in two-way branches have code together, and of the same length. In every
world in which a condition and its negation have opposite outcomes, the machine performs the same
actions on both, in endless runs too, and halts on both after the same actions and in the same state
or on neither. -/
theorem Program.simplify_preserves_behaviour (p : Program) :
    ((∃ bc, p.compile.outcome = .ok bc) ↔ ∃ bc, p.simplify.compile.outcome = .ok bc) ∧
    ∀ bc bc', p.compile.outcome = .ok bc → p.simplify.compile.outcome = .ok bc' →
      bc.size = bc'.size ∧
      ∀ (σ : Type u) (world : World σ), world.IsConsistent → ∀ state,
        (∀ acts, bc.Performs world state acts ↔ bc'.Performs world state acts) ∧
        ∀ acts final,
          bc.Completes world state acts final ↔ bc'.Completes world state acts final := by
  have hdefs := p.definitions.mirrors_mapBodies_simplify
  have hbody := p.body.mirrors_simplify
  refine ⟨⟨?_, ?_⟩, ?_⟩
  · rintro ⟨bc, hbc⟩
    obtain ⟨bc', hbc', -⟩ := hbody.compile hdefs hbc
    exact ⟨bc', hbc'⟩
  · rintro ⟨bc', hbc'⟩
    obtain ⟨bc, hbc, -⟩ := hbody.symm.compile hdefs.symm hbc'
    exact ⟨bc, hbc⟩
  · intro bc bc' hbc hbc'
    obtain ⟨bc₂, hbc₂, hsize⟩ := hbody.compile hdefs hbc
    obtain rfl : bc₂ = bc' := Except.ok.inj (hbc₂.symm.trans hbc')
    refine ⟨hsize.symm, fun σ world hworld state =>
      ⟨fun acts => ⟨?_, ?_⟩, fun acts final => ⟨?_, ?_⟩⟩⟩
    · exact .of_mirrors hworld hdefs hbody hbc hbc'
    · exact .of_mirrors hworld hdefs.symm hbody.symm hbc' hbc
    · exact .of_mirrors hworld hdefs hbody hbc hbc'
    · exact .of_mirrors hworld hdefs.symm hbody.symm hbc' hbc

/-- A robot that infects enemies on its way to an empty cell, with negative conditions in its main
body and in the instruction that it calls. -/
def sentry : Program where
  name := "Sentry"
  definitions :=
    .ofList [("advance", .ifElse (.ahead .wall true) (.call "move") (.call "turnleft"))]
  body := .whileDo (.ahead .empty true)
    (.ifElse (.ahead .enemy true) (.call "advance") (.block [.call "infect", .call "skip"]))

/-- The cells that the robot comes to see, the next one first. Every action but a skip brings the
next one into view, and no coin flip succeeds. -/
def procession : World (List Sight) where
  act
    | .skip, cells => cells
    | _, cells => cells.tail
  test
    | .ahead sight negative, cells => ((cells.head? == some sight) ^^ negative, cells)
    | .random, cells => (false, cells)
    | .always, cells => (true, cells)

theorem procession_isConsistent : procession.IsConsistent := by
  intro c c' hc cells
  cases c with
  | ahead sight negative =>
      obtain rfl := Option.some.inj hc
      simp [procession]
  | random => cases hc
  | always => cases hc

/-- The machine takes the robot past a wall, an enemy and a friend on the code of the affirmative
form as it does on the code of the program. -/
theorem Program.simplify_preserves_behaviour_sentry :
    sentry.compile.outcome = .ok ⟨[8, 16, 10, 12, 14, 9, 0, 6, 10, 1, 6, 14, 3, 4, 6, 0, 5]⟩ ∧
    sentry.simplify.compile.outcome =
      .ok ⟨[8, 16, 9, 8, 3, 4, 6, 14, 13, 13, 1, 6, 14, 0, 6, 0, 5]⟩ ∧
    Bytecode.Completes ⟨[8, 16, 9, 8, 3, 4, 6, 14, 13, 13, 1, 6, 14, 0, 6, 0, 5]⟩ procession
      [.wall, .enemy, .friend, .empty] [.turnLeft, .infect, .skip, .move] [.empty] := by
  have hbc : sentry.compile.outcome =
      .ok ⟨[8, 16, 10, 12, 14, 9, 0, 6, 10, 1, 6, 14, 3, 4, 6, 0, 5]⟩ := by cbv
  have hbc' : sentry.simplify.compile.outcome =
      .ok ⟨[8, 16, 9, 8, 3, 4, 6, 14, 13, 13, 1, 6, 14, 0, 6, 0, 5]⟩ := by cbv
  have hsame := ((simplify_preserves_behaviour sentry).2 _ _ hbc hbc').2 _ procession
    procession_isConsistent [.wall, .enemy, .friend, .empty]
  refine ⟨hbc, hbc', (hsame.2 _ _).mp ⟨_, 16, runs_iff_exists_runFor.mpr ⟨30, rfl⟩, rfl, rfl⟩⟩

end RobotScript
