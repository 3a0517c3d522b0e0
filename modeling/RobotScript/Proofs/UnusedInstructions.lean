import Mathlib.Tactic
import RobotScript.Proofs.BoundedExpansion
import RobotScript.Proofs.Lookup

/-!
# Instructions that no call leads to

After generating code the compiler warns of the instructions whose bodies it has not inserted. Its
traversal visits an instruction once for each way of calls that leads there, inside other
instructions and at many depths; what it has inserted in the end is what can be reached in the graph
of calls, no more and no less. An instruction that is called only by others that are never called is
warned of, and so is a definition under the name of an action, since such a name calls the action.

What is warned of is dead: without these definitions the traversal is the same.

## Main definitions

* `Inserts` — the events report that the body of an instruction is inserted.
* `warnings` — the events that warn of something.
* `Definitions.without` — definitions with some names taken out.

## Main results

* `Statement.inserts_iff_reaches`: **what is inserted is what is reached**.
* `Statement.eq_unusedNames_of_sorted`: in whatever order the instructions are met, the unused ones
  are warned of in the same order.
* `Statement.warnings_compile`: the warnings of a successful compilation are those about unused
  instructions.
* `Statement.compile_warns_of_unreached`: **the warnings are about the instructions that are not
  reached, and these play no part**.
-/

namespace RobotScript

/-! ### Events -/

/-- The events report that the body of the instruction is inserted. -/
def Inserts (events : List Event) (name : String) : Prop :=
  ∃ address, .inlining name address ∈ events

/-- The events that warn of something. -/
def warnings (events : List Event) : List Event :=
  events.filter fun e => e.level = .warn

section

variable {events events' : List Event} {name : String}

@[simp]
theorem not_inserts_nil : ¬ Inserts [] name := by
  simp [Inserts]

@[simp]
theorem inserts_append :
    Inserts (events ++ events') name ↔ Inserts events name ∨ Inserts events' name := by
  simp [Inserts, exists_or]

@[simp]
theorem inserts_patched_cons {slot target : Nat} :
    Inserts (.patched slot target :: events) name ↔ Inserts events name := by
  simp [Inserts]

@[simp]
theorem inserts_inlining_cons {name' : String} {address : Nat} :
    Inserts (.inlining name' address :: events) name ↔ name = name' ∨ Inserts events name := by
  simp [Inserts, exists_or]

@[simp]
theorem warnings_append : warnings (events ++ events') = warnings events ++ warnings events' :=
  List.filter_append events events'

end

namespace Statement

variable {defs : Definitions} {chain : List String} {levels start : Nat} {s : Statement}
  {code : List Instr}

/-- **What is inserted is what is reached.** The induction is that over successful generation: a
compound statement inserts and reaches what its parts do, and a call its own instruction besides. -/
theorem inserts_iff_reaches (h : (emit defs chain levels start s).outcome = .ok code)
    (name : String) :
    Inserts (emit defs chain levels start s).events name ↔ s.Reaches defs name := by
  refine @emit_report_induction defs chain levels start code
    (fun _ _ _ s _ events => Inserts events name ↔ s.Reaches defs name)
    (fun _ _ _ body _ events => Inserts events name ↔ ∃ s ∈ body, s.Reaches defs name)
    ?block ?ifThen ?ifElse ?whileDo ?action ?instruction ?nil ?cons s h
  case block =>
    intro _ _ _ body _ events ih
    rw [ih, reaches_iff_nodesBelow rfl, nodesBelow]
  case ifThen =>
    intro _ _ _ c body _ events ih
    simp [reaches_iff_nodesBelow (s := .ifThen c body) rfl, nodesBelow, ih]
  case ifElse =>
    intro _ _ _ c thenBody elseBody _ _ events events' ihThen ihElse
    simp [reaches_iff_nodesBelow (s := .ifElse c thenBody elseBody) rfl, nodesBelow, ihThen, ihElse]
  case whileDo =>
    intro _ _ _ c body _ events ih
    simp [reaches_iff_nodesBelow (s := .whileDo c body) rfl, nodesBelow, ih]
  case action =>
    intro _ _ _ name' action hact
    simp [not_reaches_action hact]
  case instruction =>
    intro _ _ _ name' body _ events hact hfind _ ih
    rw [reaches_call_iff hact hfind, inserts_inlining_cons, ih]
  case nil =>
    simp
  case cons =>
    intro _ _ _ s rest _ _ events events' ih ihRest
    simp [ih, ihRest]

/-- Generating the code of a statement warns of nothing. -/
theorem warnings_emit (h : (emit defs chain levels start s).outcome = .ok code) :
    warnings (emit defs chain levels start s).events = [] := by
  refine @emit_report_induction defs chain levels start code
    (fun _ _ _ _ _ events => warnings events = []) (fun _ _ _ _ _ events => warnings events = [])
    ?_ ?_ ?_ ?_ ?_ ?_ ?_ ?_ s h
  all_goals simp_all [warnings, Event.level]

/-! ### Warnings -/

theorem isInserted_iff {events : List Event} {name : String} :
    isInserted events name = true ↔ Inserts events name := by
  rw [isInserted, List.any_eq_true, Inserts]
  constructor
  · rintro ⟨e, he, hname⟩
    cases e with
    | inlining instruction address => exact ⟨address, beq_iff_eq.mp hname ▸ he⟩
    | parsed | patched | unused | generated | unusualName | sourceRead | codeWritten => cases hname
  · rintro ⟨address, he⟩
    exact ⟨_, he, beq_self_eq_true name⟩

/-- The unused instructions are the defined ones that are not inserted. -/
theorem mem_unusedNames_iff {events : List Event} {name : String} :
    name ∈ unusedNames defs events ↔ defs.contains name = true ∧ ¬ Inserts events name := by
  rw [unusedNames, List.mem_filter, Definitions.contains_iff_mem_names, Bool.not_eq_true',
    ← Bool.not_eq_true, isInserted_iff]

/-- The unused instructions are in ascending order. -/
theorem unusedNames_ascending (defs : Definitions) (events : List Event) :
    (unusedNames defs events).Pairwise (· < ·) :=
  defs.names_ascending.filter _

/-- **Names in any order without those of inserted bodies, sorted, are the unused instructions**, if
they are the names of all instructions. -/
theorem eq_unusedNames_of_sorted {events : List Event} {keys sorted : List String}
    (hkeys : keys.Perm defs.names)
    (hperm : sorted.Perm (keys.filter fun name => !isInserted events name))
    (hsorted : sorted.Pairwise (· ≤ ·)) : sorted = unusedNames defs events :=
  Definitions.eq_of_sorted (unusedNames_ascending defs events) (hperm.trans (hkeys.filter _))
    hsorted

/-- A main body that has code reports what its code reports, then the unused instructions, and then
the length of the code. -/
theorem compile_events {body : Statement} (h : (body.emit defs [] maxDepth 0).outcome = .ok code) :
    (body.compile defs).events =
      (body.emit defs [] maxDepth 0).events ++
        (unusedNames defs (body.emit defs [] maxDepth 0).events).map .unused ++
        [.generated (Bytecode.ofInstrs (code ++ [.halt])).size] := by
  simp only [compile, h]

/-- **The warnings of a compilation that succeeds are those about unused instructions.** -/
theorem warnings_compile {body : Statement}
    (h : (body.emit defs [] maxDepth 0).outcome = .ok code) :
    warnings (body.compile defs).events =
      (unusedNames defs (body.emit defs [] maxDepth 0).events).map .unused := by
  rw [compile_events h, warnings_append, warnings_append, warnings_emit h, List.nil_append]
  simp [warnings, Event.level]

end Statement

/-! ### Taking definitions out -/

namespace Definitions

/-- The definitions but for those of `names`. -/
def without (defs : Definitions) (names : List String) : Definitions :=
  ⟨defs.entries.filter fun e => e.1 ∉ names, defs.ascending.filter _⟩

/-- What is left of the definitions. -/
theorem find?_without_eq_some_iff {defs : Definitions} {names : List String} {name : String}
    {body : Statement} :
    (defs.without names).find? name = some body ↔ name ∉ names ∧ defs.find? name = some body := by
  rw [find?_eq_some_iff_mem, find?_eq_some_iff_mem, without, List.mem_filter, and_comm]
  simp

/-- A name that is not taken out keeps its body. -/
theorem find?_without_of_not_mem {defs : Definitions} {names : List String} {name : String}
    (h : name ∉ names) : (defs.without names).find? name = defs.find? name := by
  ext body
  rw [find?_without_eq_some_iff, and_iff_right h]

end Definitions

namespace Statement

/-- **The warnings are about the instructions that are not reached, and these play no part.** The
warnings of a compilation that succeeds name, in ascending order and without repetition, the defined
instructions that no calls of instructions lead to from the main body. Without their definitions the
main body has the same code, and there is nothing to warn of. -/
theorem compile_warns_of_unreached {defs : Definitions} {body : Statement} {bc : Bytecode}
    (h : (body.compile defs).outcome = .ok bc) :
    ∃ unused, warnings (body.compile defs).events = unused.map .unused ∧
      unused.Pairwise (· < ·) ∧
      (∀ name, name ∈ unused ↔ defs.contains name = true ∧ ¬ body.Reaches defs name) ∧
      (body.compile (defs.without unused)).outcome = .ok bc ∧
      warnings (body.compile (defs.without unused)).events = [] := by
  obtain ⟨code, hcode, rfl⟩ := compile_eq_ok_iff.mp h
  have hmem : ∀ name, name ∈ unusedNames defs (body.emit defs [] maxDepth 0).events ↔
      defs.contains name = true ∧ ¬ body.Reaches defs name := by
    intro name
    rw [mem_unusedNames_iff, inserts_iff_reaches hcode]
  refine ⟨_, warnings_compile hcode, unusedNames_ascending defs _, hmem, ?_⟩
  generalize unusedNames defs (body.emit defs [] maxDepth 0).events = unused at hmem ⊢
  -- what is reached keeps its body, so that the traversal is the same
  have hemit : body.emit (defs.without unused) [] maxDepth 0 = body.emit defs [] maxDepth 0 := by
    refine emit_congr_of_reaches fun name hname => Definitions.find?_without_of_not_mem ?_
    exact fun hunused => ((hmem name).mp hunused).2 hname
  have hcode' : (body.emit (defs.without unused) [] maxDepth 0).outcome = .ok code := by
    rw [hemit, hcode]
  refine ⟨compile_eq_ok_iff.mpr ⟨code, hcode', rfl⟩, ?_⟩
  -- and what is left is reached
  rw [warnings_compile hcode', List.map_eq_nil_iff, List.eq_nil_iff_forall_not_mem]
  intro name hname
  rw [hemit, mem_unusedNames_iff, inserts_iff_reaches hcode] at hname
  obtain ⟨hcontains, hreaches⟩ := hname
  obtain ⟨inner, hinner⟩ := Option.isSome_iff_exists.mp hcontains
  obtain ⟨hkept, hfind⟩ := Definitions.find?_without_eq_some_iff.mp hinner
  exact hkept ((hmem name).mpr ⟨by simp [Definitions.contains, hfind], hreaches⟩)

/-- A robot that calls one instruction and an action. -/
def courier : Statement :=
  .block [.call "deliver", .call "skip"]

/-- What the robot calls, two instructions that call each other and are not called by others, and a
definition under the name of an action. -/
def courierDefinitions : Definitions :=
  .ofList [("deliver", .block [.call "walk", .call "turnleft"]), ("walk", .call "move"),
    ("return", .ifThen .random (.call "rest")), ("rest", .block [.call "return", .call "walk"]),
    ("skip", .call "walk")]

/-- The robot has code although two of its instructions call each other. Those two and the
definition under the name of an action are warned of, but not what is called through another
instruction. -/
theorem compile_warns_of_unreached_courier :
    (courier.compile courierDefinitions).outcome = .ok ⟨[0, 1, 4, 5]⟩ ∧
    warnings (courier.compile courierDefinitions).events =
      [.unused "rest", .unused "return", .unused "skip"] ∧
    (courier.compile (courierDefinitions.without ["rest", "return", "skip"])).outcome =
      .ok ⟨[0, 1, 4, 5]⟩ ∧
    warnings (courier.compile (courierDefinitions.without ["rest", "return", "skip"])).events =
      [] := by
  have hcompile : (courier.compile courierDefinitions).outcome = .ok ⟨[0, 1, 4, 5]⟩ := by cbv
  have hwarnings : warnings (courier.compile courierDefinitions).events =
      ["rest", "return", "skip"].map .unused := by cbv
  obtain ⟨unused, hevents, -, -, hcode, hnone⟩ := compile_warns_of_unreached hcompile
  obtain rfl : unused = ["rest", "return", "skip"] := by
    have hinjective : Function.Injective Event.unused := fun _ _ => Event.unused.inj
    exact hinjective.list_map (hevents.symm.trans hwarnings)
  exact ⟨hcompile, hwarnings, hcode, hnone⟩

end Statement

end RobotScript
