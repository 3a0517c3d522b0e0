import Mathlib.Tactic
import RobotScript.Proofs.Generation

/-!
# The generator as a machine

`Statement.emit` gives the code of a statement as a value. A generator that works in place has a
state instead: one buffer that the code of all statements is appended to, in which the target of a
jump forward is filled in later, and one stack of the instructions whose bodies are being inserted.
Both are shared by the whole recursion, so what a statement does to them is a property of the
recursion as a whole.

The recursion goes from a call to the body of an instruction, and instructions may call one another
in circles. That it ends is therefore not built in: the machine is given by rules for the runs that
end, and that there is one from every state is a theorem.

## Main definitions

* `Generator` — the state, with a log of what was done.
* `Generator.Runs`, `RunsOpen`, `RunsAll` — the recursion, by rules for its runs.
* `Generator.finish` — the complete code after a run.

## Main results

* `Runs.unique`: no two runs start from the same state.
* `Runs.restores`: a run leaves the depth as it was, and a successful run the stack.
* `exists_runs`: **every run ends**, from every state.
-/

namespace RobotScript

/-- The statement counts as a level while it is open. -/
def Statement.nests : Statement → Bool
  | .block _ => false
  | _ => true

/-- The generator has come to a statement. -/
structure Visit where
  /-- The statements that are open there, the outermost first. -/
  around : List Statement
  statement : Statement
  expanding : List String
  depth : Nat

/-- A target is written into a slot of the code, which has this length by then. -/
structure Patch where
  slot : Nat
  target : Nat
  length : Nat
  deriving DecidableEq, Repr

/-- Something that the generator has done. -/
inductive Entry where
  | visit (v : Visit)
  /-- It has begun to insert the body of an instruction at an address. -/
  | insert (name : String) (address : Nat)
  | patch (p : Patch)

namespace Entry

/-- What is reported of it. -/
def event? : Entry → Option Event
  | visit _ => none
  | insert name address => some (.inlining name address)
  | patch p => some (.patched p.slot p.target)

/-- The statement that was come to. -/
def visit? : Entry → Option Visit
  | visit v => some v
  | _ => none

/-- The slot that was written to. -/
def patch? : Entry → Option Patch
  | patch p => some p
  | _ => none

end Entry

/-- The state of a generator. -/
structure Generator where
  /-- The code so far. -/
  code : List Nat
  /-- The instructions whose bodies are being inserted, the outermost first. -/
  expanding : List String
  /-- How many levels are open. -/
  depth : Nat
  log : List Entry

namespace Generator

/-- The state at the beginning. -/
def new : Generator := ⟨[], [], 0, []⟩

/-- The address of what is written next. -/
@[simp]
def position (g : Generator) : Nat :=
  g.code.length

/-- What has been reported. -/
def events (g : Generator) : List Event :=
  g.log.filterMap Entry.event?

/-- The statements that were come to. -/
def visits (g : Generator) : List Visit :=
  g.log.filterMap Entry.visit?

/-- The slots that were written to, with their targets. -/
def patches (g : Generator) : List Patch :=
  g.log.filterMap Entry.patch?

/-- Note that the generator has come to a statement. -/
@[simps]
def visit (around : List Statement) (s : Statement) (g : Generator) : Generator :=
  { g with log := g.log ++ [.visit ⟨around, s, g.expanding, g.depth⟩] }

/-- Open a statement. -/
@[simps]
def enter (s : Statement) (g : Generator) : Generator :=
  { g with depth := g.depth + s.nests.toNat }

/-- Close a statement. -/
@[simps]
def leave (s : Statement) (g : Generator) : Generator :=
  { g with depth := g.depth - s.nests.toNat }

/-- Append a number to the code. -/
@[simps]
def write (value : Nat) (g : Generator) : Generator :=
  { g with code := g.code ++ [value] }

/-- Append an operation to the code. -/
@[simp]
def emit (op : Opcode) (g : Generator) : Generator :=
  g.write op.code

/-- Append a slot for a target that is not known yet. -/
@[simp]
def reserve (g : Generator) : Generator :=
  g.write 0

/-- Write the target into a slot. -/
@[simps]
def patch (slot target : Nat) (g : Generator) : Generator :=
  { g with
    code := g.code.set slot target
    log := g.log ++ [.patch ⟨slot, target, g.code.length⟩] }

/-- Let the jump with this slot go to what is written next. -/
@[simp]
def close (slot : Nat) (g : Generator) : Generator :=
  g.patch slot g.position

/-- Begin to insert the body of an instruction. -/
@[simps]
def push (name : String) (g : Generator) : Generator :=
  { g with
    expanding := g.expanding ++ [name]
    log := g.log ++ [.insert name g.position] }

/-- The body of the innermost instruction has been inserted. -/
@[simps]
def pop (g : Generator) : Generator :=
  { g with expanding := g.expanding.dropLast }

/-- What is left to do after a part: nothing if the part has failed. -/
def onSuccess (result : Except CompileError Unit) (f : Generator → Generator) (g : Generator) :
    Generator :=
  match result with
  | .ok () => f g
  | .error _ => g

mutual

/-- Generating the code of a statement, inside the open statements `around`, ends with the given
result and state. -/
inductive Runs (defs : Definitions) :
    List Statement → Statement → Generator → Except CompileError Unit → Generator → Prop
  | noLevel {around s} {g : Generator} : s.nests = true → g.depth = maxDepth →
      Runs defs around s g (.error (.tooDeep maxDepth g.expanding)) (g.visit around s)
  | level {around s result} {g g' : Generator} : (s.nests = true → g.depth ≠ maxDepth) →
      RunsOpen defs (around ++ [s]) s ((g.visit around s).enter s) result g' →
      Runs defs around s g result (g'.leave s)

/-- The same for a statement that is the last of the open statements `around`. -/
inductive RunsOpen (defs : Definitions) :
    List Statement → Statement → Generator → Except CompileError Unit → Generator → Prop
  | block {around body result} {g g' : Generator} :
      RunsAll defs around body g result g' → RunsOpen defs around (.block body) g result g'
  | ifThen {around c body result} {g g' : Generator} :
      Runs defs around body (g.emit (.jumpUnless c)).reserve result g' →
      RunsOpen defs around (.ifThen c body) g result
        (onSuccess result (close (g.emit (.jumpUnless c)).position) g')
  | thenFails {around c thenBody elseBody e} {g g' : Generator} :
      Runs defs around thenBody (g.emit (.jumpUnless c)).reserve (.error e) g' →
      RunsOpen defs around (.ifElse c thenBody elseBody) g (.error e) g'
  /-- Between the bodies the jump over the second one is written, and then the jump to it is
  closed. -/
  | ifElse {around c thenBody elseBody result} {g g₁ g' : Generator} :
      Runs defs around thenBody (g.emit (.jumpUnless c)).reserve (.ok ()) g₁ →
      Runs defs around elseBody ((g₁.emit .jump).reserve.close (g.emit (.jumpUnless c)).position)
        result g' →
      RunsOpen defs around (.ifElse c thenBody elseBody) g result
        (onSuccess result (close (g₁.emit .jump).position) g')
  | whileDo {around c body result} {g g' : Generator} :
      Runs defs around body (g.emit (.jumpUnless c)).reserve result g' →
      RunsOpen defs around (.whileDo c body) g result
        (onSuccess result
          (fun g' => ((g'.emit .jump).write g.position).close (g.emit (.jumpUnless c)).position)
          g')
  | action {around name action} {g : Generator} : Action.ofName? name = some action →
      RunsOpen defs around (.call name) g (.ok ()) (g.emit (.act action))
  | undefined {around name} {g : Generator} : Action.ofName? name = none →
      defs.find? name = none →
      RunsOpen defs around (.call name) g (.error (.undefined name)) g
  | recursive {around name body} {g : Generator} : Action.ofName? name = none →
      defs.find? name = some body → name ∈ g.expanding →
      RunsOpen defs around (.call name) g
        (.error (.recursive (g.expanding.dropWhile (· ≠ name) ++ [name]))) g
  | instruction {around name body result} {g g' : Generator} : Action.ofName? name = none →
      defs.find? name = some body → name ∉ g.expanding →
      Runs defs around body (g.push name) result g' →
      RunsOpen defs around (.call name) g result (onSuccess result pop g')

/-- The same for statements one after another. -/
inductive RunsAll (defs : Definitions) :
    List Statement → List Statement → Generator → Except CompileError Unit → Generator → Prop
  | nil {around} {g : Generator} : RunsAll defs around [] g (.ok ()) g
  | firstFails {around s rest e} {g g' : Generator} : Runs defs around s g (.error e) g' →
      RunsAll defs around (s :: rest) g (.error e) g'
  | cons {around s rest result} {g g₁ g' : Generator} : Runs defs around s g (.ok ()) g₁ →
      RunsAll defs around rest g₁ result g' → RunsAll defs around (s :: rest) g result g'

end

/-- The complete code after a run on a main body: a halt is added, and the instructions that were
never inserted are reported, and the length of the code. -/
def finish (defs : Definitions) (result : Except CompileError Unit) (g : Generator) :
    Logged CompileError Bytecode :=
  match result with
  | .error e => ⟨g.events, .error e⟩
  | .ok () =>
    let unused := (Statement.unusedNames defs g.events).map .unused
    let g := g.emit .halt
    ⟨g.events ++ unused ++ [.generated g.position], .ok ⟨g.code⟩⟩

variable {defs : Definitions} {around : List Statement} {s : Statement} {g g' : Generator}
  {result : Except CompileError Unit}

/-- **The machine is deterministic**: from a state there is no more than one run on a statement. -/
theorem Runs.unique (h : Runs defs around s g result g') {result₂ : Except CompileError Unit}
    {g₂ : Generator} (h₂ : Runs defs around s g result₂ g₂) : result₂ = result ∧ g₂ = g' := by
  revert result₂ g₂
  refine @Runs.rec defs
    (fun around s g result g' _ => ∀ {result₂ g₂}, Runs defs around s g result₂ g₂ →
      result₂ = result ∧ g₂ = g')
    (fun around s g result g' _ => ∀ {result₂ g₂}, RunsOpen defs around s g result₂ g₂ →
      result₂ = result ∧ g₂ = g')
    (fun around body g result g' _ => ∀ {result₂ g₂}, RunsAll defs around body g result₂ g₂ →
      result₂ = result ∧ g₂ = g')
    ?noLevel ?level ?block ?ifThen ?thenFails ?ifElse ?whileDo ?action ?undefined ?recursive
      ?instruction ?nil ?firstFails ?cons around s g result g' h
  case noLevel =>
    intro _ _ _ hs hdepth _ _ h₂
    cases h₂ with
    | noLevel => exact ⟨rfl, rfl⟩
    | level hlevel => exact absurd hdepth (hlevel hs)
  case level =>
    intro _ _ _ _ _ hlevel _ ih _ _ h₂
    cases h₂ with
    | noLevel hs hdepth => exact absurd hdepth (hlevel hs)
    | level _ h₂ =>
      obtain ⟨rfl, rfl⟩ := ih h₂
      exact ⟨rfl, rfl⟩
  case block =>
    intro _ _ _ _ _ _ ih _ _ h₂
    cases h₂ with
    | block h₂ => exact ih h₂
  case ifThen =>
    intro _ _ _ _ _ _ _ ih _ _ h₂
    cases h₂ with
    | ifThen h₂ =>
      obtain ⟨rfl, rfl⟩ := ih h₂
      exact ⟨rfl, rfl⟩
  case thenFails =>
    intro _ _ _ _ _ _ _ _ ih _ _ h₂
    cases h₂ with
    | thenFails h₂ => exact ih h₂
    | ifElse h₂ _ => cases (ih h₂).1
  case ifElse =>
    intro _ _ _ _ _ _ _ _ _ _ ih ih' _ _ h₂
    cases h₂ with
    | thenFails h₂ => cases (ih h₂).1
    | ifElse h₂ h₂' =>
      obtain ⟨-, rfl⟩ := ih h₂
      obtain ⟨rfl, rfl⟩ := ih' h₂'
      exact ⟨rfl, rfl⟩
  case whileDo =>
    intro _ _ _ _ _ _ _ ih _ _ h₂
    cases h₂ with
    | whileDo h₂ =>
      obtain ⟨rfl, rfl⟩ := ih h₂
      exact ⟨rfl, rfl⟩
  case action =>
    intro _ _ _ _ hact _ _ h₂
    cases h₂ with
    | action hact₂ =>
      obtain rfl := Option.some.inj (hact.symm.trans hact₂)
      exact ⟨rfl, rfl⟩
    | undefined hact₂ | recursive hact₂ | instruction hact₂ => cases hact.symm.trans hact₂
  case undefined =>
    intro _ _ _ hact hfind _ _ h₂
    cases h₂ with
    | action hact₂ => cases hact.symm.trans hact₂
    | undefined => exact ⟨rfl, rfl⟩
    | recursive _ hfind₂ | instruction _ hfind₂ => cases hfind.symm.trans hfind₂
  case recursive =>
    intro _ _ _ _ hact hfind hmem _ _ h₂
    cases h₂ with
    | action hact₂ => cases hact.symm.trans hact₂
    | undefined _ hfind₂ => cases hfind.symm.trans hfind₂
    | recursive => exact ⟨rfl, rfl⟩
    | instruction _ _ hmem₂ => exact absurd hmem hmem₂
  case instruction =>
    intro _ _ _ _ _ _ hact hfind hmem _ ih _ _ h₂
    cases h₂ with
    | action hact₂ => cases hact.symm.trans hact₂
    | undefined _ hfind₂ => cases hfind.symm.trans hfind₂
    | recursive _ _ hmem₂ => exact absurd hmem₂ hmem
    | instruction _ hfind₂ _ h₂ =>
      obtain rfl := Option.some.inj (hfind.symm.trans hfind₂)
      obtain ⟨rfl, rfl⟩ := ih h₂
      exact ⟨rfl, rfl⟩
  case nil =>
    intro _ _ _ _ h₂
    cases h₂ with
    | nil => exact ⟨rfl, rfl⟩
  case firstFails =>
    intro _ _ _ _ _ _ _ ih _ _ h₂
    cases h₂ with
    | firstFails h₂ => exact ih h₂
    | cons h₂ _ => cases (ih h₂).1
  case cons =>
    intro _ _ _ _ _ _ _ _ _ ih ih' _ _ h₂
    cases h₂ with
    | firstFails h₂ => cases (ih h₂).1
    | cons h₂ h₂' =>
      obtain ⟨-, rfl⟩ := ih h₂
      exact ih' h₂'

/-! ### What a run restores -/

/-- What is after a run as it was before. -/
structure Restores (result : Except CompileError Unit) (g g' : Generator) : Prop where
  depth : g'.depth = g.depth
  expanding : result = .ok () → g'.expanding = g.expanding

/-- Work that touches neither the depth nor the stack may follow. -/
theorem Restores.onSuccess {f : Generator → Generator} (h : Restores result g g')
    (hdepth : (f g').depth = g'.depth) (hexpanding : (f g').expanding = g'.expanding) :
    Restores result g (onSuccess result f g') := by
  cases result with
  | error e => exact h
  | ok => exact ⟨hdepth.trans h.depth, fun hok => hexpanding.trans (h.expanding hok)⟩

/-- **A run leaves the depth as it was, and a successful run the stack.** A run that fails inside
the body of an instruction leaves the instruction on the stack. -/
theorem Runs.restores (h : Runs defs around s g result g') : Restores result g g' := by
  refine @Runs.rec defs
    (fun _ _ g result g' _ => Restores result g g') (fun _ _ g result g' _ => Restores result g g')
    (fun _ _ g result g' _ => Restores result g g')
    ?noLevel ?level ?block ?ifThen ?thenFails ?ifElse ?whileDo ?action ?undefined ?recursive
      ?instruction ?nil ?firstFails ?cons around s g result g' h
  case noLevel =>
    intro _ _ _ _ _
    exact ⟨rfl, by simp⟩
  case level =>
    intro _ s _ g g' _ _ ih
    have hdepth : g'.depth = g.depth + s.nests.toNat := ih.depth
    exact ⟨by simp [hdepth], ih.expanding⟩
  case block =>
    intro _ _ _ _ _ _ ih
    exact ih
  case ifThen =>
    intro _ _ _ _ _ _ _ ih
    exact Restores.onSuccess ⟨ih.depth, ih.expanding⟩ rfl rfl
  case thenFails =>
    intro _ _ _ _ _ _ _ _ ih
    exact ⟨ih.depth, ih.expanding⟩
  case ifElse =>
    intro _ _ _ _ _ _ _ _ _ _ ih ih'
    exact Restores.onSuccess ⟨ih'.depth.trans ih.depth,
      fun hok => (ih'.expanding hok).trans (ih.expanding rfl)⟩ rfl rfl
  case whileDo =>
    intro _ _ _ _ _ _ _ ih
    exact Restores.onSuccess ⟨ih.depth, ih.expanding⟩ rfl rfl
  case action =>
    intro _ _ _ _ _
    exact ⟨rfl, fun _ => rfl⟩
  case undefined =>
    intro _ _ _ _ _
    exact ⟨rfl, fun _ => rfl⟩
  case recursive =>
    intro _ _ _ _ _ _ _
    exact ⟨rfl, fun _ => rfl⟩
  case instruction =>
    intro _ name _ result g g' _ _ _ _ ih
    cases result with
    | error e => exact ⟨ih.depth, by simp⟩
    | ok =>
      have hexpanding : g'.expanding = g.expanding ++ [name] := ih.expanding rfl
      exact ⟨ih.depth, fun _ => by simp [onSuccess, hexpanding]⟩
  case nil =>
    intro _ _
    exact ⟨rfl, fun _ => rfl⟩
  case firstFails =>
    intro _ _ _ _ _ _ _ ih
    exact ih
  case cons =>
    intro _ _ _ _ _ _ _ _ _ ih ih'
    exact ⟨ih'.depth.trans ih.depth, fun hok => (ih'.expanding hok).trans (ih.expanding rfl)⟩

/-! ### Every run ends -/

/-- The instructions whose bodies are not being inserted. -/
def remaining (defs : Definitions) (expanding : List String) : Finset String :=
  defs.names.toFinset \ expanding.toFinset

/-- Fewer instructions remain inside the body of one of them. -/
theorem card_remaining_push {name : String} {body : Statement} {expanding : List String}
    (hfind : defs.find? name = some body) (hmem : name ∉ expanding) :
    (remaining defs (expanding ++ [name])).card < (remaining defs expanding).card := by
  have hname : name ∈ defs.names := by
    rw [← Definitions.contains_iff_mem_names, Definitions.contains, hfind, Option.isSome_some]
  refine Finset.card_lt_card (Finset.ssubset_iff_of_subset ?_ |>.mpr ⟨name, ?_, ?_⟩)
  · rw [remaining, remaining, List.toFinset_append]
    exact Finset.sdiff_subset_sdiff subset_rfl Finset.subset_union_left
  · simp [remaining, hname, hmem]
  · simp [remaining]

/-- There is a run on a statement if there is one once it is open. -/
theorem exists_runs_of_open
    (h : ∃ result g', RunsOpen defs (around ++ [s]) s ((g.visit around s).enter s) result g') :
    ∃ result g', Runs defs around s g result g' := by
  by_cases hlevel : s.nests = true ∧ g.depth = maxDepth
  · exact ⟨_, _, .noLevel hlevel.1 hlevel.2⟩
  · obtain ⟨result, g', hopen⟩ := h
    exact ⟨result, g'.leave s, .level (fun hs hdepth => hlevel ⟨hs, hdepth⟩) hopen⟩

/-- Statements one after another end if each of them does, with the stack as it is before them. -/
theorem exists_runsAll {body : List Statement}
    (h : ∀ s ∈ body, ∀ g₁ : Generator, g₁.expanding = g.expanding →
      ∃ result g', Runs defs around s g₁ result g') :
    ∃ result g', RunsAll defs around body g result g' := by
  induction body generalizing g with
  | nil => exact ⟨.ok (), g, .nil⟩
  | cons s rest ih =>
    obtain ⟨result, g₁, hrun⟩ := h s List.mem_cons_self g rfl
    cases result with
    | error e => exact ⟨.error e, g₁, .firstFails hrun⟩
    | ok =>
      have hexpanding := hrun.restores.expanding rfl
      obtain ⟨result, g', hrest⟩ := ih fun t ht g₂ hg₂ =>
        h t (List.mem_cons_of_mem s ht) g₂ (hg₂.trans hexpanding)
      exact ⟨result, g', .cons hrun hrest⟩

/-- **Every run ends.** The bodies of instructions that are being inserted are not entered again, so
on the way into bodies fewer instructions remain, and between two of them the statement becomes
smaller. The limit on the depth plays no part. -/
theorem exists_runs (defs : Definitions) (around : List Statement) (s : Statement)
    (g : Generator) : ∃ result g', Runs defs around s g result g' := by
  induction hn : (remaining defs g.expanding).card using Nat.strong_induction_on
    generalizing around s g with
  | _ n ihRemaining =>
    subst hn
    generalize hexpanding : g.expanding = expanding at ihRemaining
    induction s using Statement.induction generalizing around g with
    | block body ih =>
      refine exists_runs_of_open ?_
      have hmembers : ∃ result g', RunsAll defs (around ++ [.block body]) body
          ((g.visit around (.block body)).enter (.block body)) result g' :=
        exists_runsAll fun s hs g₁ hg₁ => ih s hs _ g₁ (hg₁.trans hexpanding)
      obtain ⟨result, g', hbody⟩ := hmembers
      exact ⟨result, g', .block hbody⟩
    | ifThen c body ih =>
      refine exists_runs_of_open ?_
      obtain ⟨result, g', hbody⟩ := ih (around ++ [.ifThen c body])
        (((g.visit around _).enter _).emit (.jumpUnless c)).reserve hexpanding
      exact ⟨result, _, .ifThen hbody⟩
    | ifElse c thenBody elseBody ihThen ihElse =>
      refine exists_runs_of_open ?_
      obtain ⟨result, g₁, hthen⟩ := ihThen (around ++ [.ifElse c thenBody elseBody])
        (((g.visit around _).enter _).emit (.jumpUnless c)).reserve hexpanding
      cases result with
      | error e => exact ⟨.error e, g₁, .thenFails hthen⟩
      | ok =>
        have hrestored := hthen.restores.expanding rfl
        obtain ⟨result, g', helse⟩ := ihElse (around ++ [.ifElse c thenBody elseBody])
          ((g₁.emit .jump).reserve.close _) (hrestored.trans hexpanding)
        exact ⟨result, _, .ifElse hthen helse⟩
    | whileDo c body ih =>
      refine exists_runs_of_open ?_
      obtain ⟨result, g', hbody⟩ := ih (around ++ [.whileDo c body])
        (((g.visit around _).enter _).emit (.jumpUnless c)).reserve hexpanding
      exact ⟨result, _, .whileDo hbody⟩
    | call name =>
      refine exists_runs_of_open ?_
      cases hact : Action.ofName? name with
      | some action => exact ⟨.ok (), _, .action hact⟩
      | none =>
        cases hfind : defs.find? name with
        | none => exact ⟨.error (.undefined name), _, .undefined hact hfind⟩
        | some body =>
          by_cases hmem : name ∈ expanding
          · exact ⟨_, _, .recursive hact hfind (hexpanding ▸ hmem)⟩
          · obtain ⟨result, g', hbody⟩ := ihRemaining _ (card_remaining_push hfind hmem)
              (around ++ [.call name]) body (((g.visit around _).enter _).push name)
              (by simp [hexpanding])
            exact ⟨result, _, .instruction hact hfind (hexpanding ▸ hmem) hbody⟩

end Generator

end RobotScript
