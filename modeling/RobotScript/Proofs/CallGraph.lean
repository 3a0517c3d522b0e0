import Mathlib.Logic.Relation
import RobotScript.Definitions

/-!
# Calls, and what they lead to

The instructions of a program form a graph: the body of one calls others. A statement reaches an
instruction if it calls it or calls one that leads there. Calls of actions are no part of the graph,
whatever is defined under their names.

Besides the graph there is the tree in which a call has the body of its instruction below it. It may
be infinite, so it is described by its paths from the root.

## Main definitions

* `Statement.callNames` — the names that a statement calls, at any depth.
* `Definitions.Leads`, `Statement.Reaches` — the graph, and what can be reached in it.
* `Statement.nodesBelow`, `Statement.Path` — the tree of statements and inserted bodies.
* `Statement.openCount` — how many nodes of a path are not sequences.

## Main results

* `reaches_iff_nodesBelow`: a compound statement reaches what its parts reach.
* `reaches_call_iff`: a call reaches its instruction, and what the body of that reaches.
* `transGen_leads_iff`: an instruction leads to what its body reaches; so it is on a circle exactly
  if its body reaches it.
* `openCount_le_iff_nodesBelow`: the bound on the paths from a node in terms of the nodes below it.
-/

namespace RobotScript

/-- The names that a statement calls, in the order of the calls. -/
def Statement.callNames : Statement → List String
  | .block body => body.flatMap callNames
  | .ifThen _ body => body.callNames
  | .ifElse _ thenBody elseBody => thenBody.callNames ++ elseBody.callNames
  | .whileDo _ body => body.callNames
  | .call name => [name]

/-- The statement calls something that is not an action. -/
def Statement.CallsInstruction (s : Statement) (name : String) : Prop :=
  name ∈ s.callNames ∧ Action.ofName? name = none

/-- The instruction `name` calls the instruction `name'`. -/
def Definitions.Leads (defs : Definitions) (name name' : String) : Prop :=
  ∃ body, defs.find? name = some body ∧ body.CallsInstruction name'

namespace Statement

/-- The statement calls the instruction, or one that leads to it through calls. -/
def Reaches (defs : Definitions) (s : Statement) (name : String) : Prop :=
  ∃ first, s.CallsInstruction first ∧ Relation.ReflTransGen defs.Leads first name

/-- The nodes directly below a statement in the tree in which a call of an instruction has the
instruction's body below it. -/
def nodesBelow (defs : Definitions) : Statement → List Statement
  | block body => body
  | ifThen _ body => [body]
  | ifElse _ thenBody elseBody => [thenBody, elseBody]
  | whileDo _ body => [body]
  | call name => if Action.isName name then [] else (defs.find? name).toList

/-- The nodes on a way from a statement downwards, the statement first. -/
inductive Path (defs : Definitions) : Statement → List Statement → Prop
  | root (s : Statement) : Path defs s [s]
  | down {s t : Statement} {path : List Statement} :
      t ∈ s.nodesBelow defs → Path defs t path → Path defs s (s :: path)

/-- How many nodes of a path are not sequences. -/
def openCount (path : List Statement) : Nat :=
  path.countP fun s => s.block?.isNone

variable {defs : Definitions}

/-! ### Reaching -/

/-- A statement that is not a call calls what the statements below it call. -/
theorem callsInstruction_iff_nodesBelow {s : Statement} (hs : s.call? = none) (name : String) :
    s.CallsInstruction name ↔ ∃ t ∈ s.nodesBelow defs, t.CallsInstruction name := by
  unfold CallsInstruction
  cases s with
  | block body =>
      rw [callNames, nodesBelow, List.mem_flatMap]
      constructor
      · rintro ⟨⟨t, ht, hname⟩, hact⟩
        exact ⟨t, ht, hname, hact⟩
      · rintro ⟨t, ht, hname, hact⟩
        exact ⟨⟨t, ht, hname⟩, hact⟩
  | ifThen c body => simp [callNames, nodesBelow]
  | ifElse c thenBody elseBody =>
      simp only [callNames, nodesBelow, List.mem_append, List.mem_cons, List.not_mem_nil, or_false,
        or_and_right, exists_or, exists_eq_left]
  | whileDo c body => simp [callNames, nodesBelow]
  | call name => simp [call?] at hs

/-- A statement that is not a call reaches what the statements below it reach. -/
theorem reaches_iff_nodesBelow {s : Statement} (hs : s.call? = none) (name : String) :
    s.Reaches defs name ↔ ∃ t ∈ s.nodesBelow defs, t.Reaches defs name := by
  constructor
  · rintro ⟨first, hcall, hfirst⟩
    obtain ⟨t, ht, hcall'⟩ := (callsInstruction_iff_nodesBelow hs first).mp hcall
    exact ⟨t, ht, first, hcall', hfirst⟩
  · rintro ⟨t, ht, first, hcall, hfirst⟩
    exact ⟨first, (callsInstruction_iff_nodesBelow hs first).mpr ⟨t, ht, hcall⟩, hfirst⟩

/-- What a statement below reaches is reached from above. -/
theorem reaches_of_mem_nodesBelow {s t : Statement} (hs : s.call? = none)
    (ht : t ∈ s.nodesBelow defs) {name : String} (h : t.Reaches defs name) :
    s.Reaches defs name :=
  (reaches_iff_nodesBelow hs name).mpr ⟨t, ht, h⟩

/-- What is reached is called by the statement, or by an instruction that is reached. -/
theorem reaches_iff_callsInstruction {s : Statement} {name : String} :
    s.Reaches defs name ↔ s.CallsInstruction name ∨
      ∃ key body, s.Reaches defs key ∧ defs.find? key = some body ∧ body.CallsInstruction name := by
  constructor
  · rintro ⟨first, hfirst, hleads⟩
    rcases Relation.ReflTransGen.cases_tail hleads with rfl | ⟨key, hkey, body, hfind, hcall⟩
    · exact .inl hfirst
    · exact .inr ⟨key, body, ⟨first, hfirst, hkey⟩, hfind, hcall⟩
  · rintro (hcall | ⟨key, body, ⟨first, hfirst, hkey⟩, hfind, hcall⟩)
    · exact ⟨name, hcall, .refl⟩
    · exact ⟨first, hfirst, hkey.tail ⟨body, hfind, hcall⟩⟩

/-- What is reached is not the name of an action. -/
theorem Reaches.ofName?_eq_none {s : Statement} {name : String} (h : s.Reaches defs name) :
    Action.ofName? name = none := by
  rcases reaches_iff_callsInstruction.mp h with hcall | ⟨_, _, _, _, hcall⟩
  · exact hcall.2
  · exact hcall.2

/-- The call of an action reaches nothing. -/
theorem not_reaches_action {name : String} {action : Action}
    (hact : Action.ofName? name = some action) (name' : String) :
    ¬ (call name).Reaches defs name' := by
  rintro ⟨first, ⟨hmem, hnone⟩, -⟩
  obtain rfl : first = name := by simpa [callNames] using hmem
  rw [hact] at hnone
  cases hnone

/-- What a call can reach is on the way from the instruction it calls. -/
theorem reaches_call_iff_reflTransGen {name : String} (hact : Action.ofName? name = none)
    (name' : String) :
    (call name).Reaches defs name' ↔ Relation.ReflTransGen defs.Leads name name' := by
  constructor
  · rintro ⟨first, ⟨hmem, -⟩, hfirst⟩
    obtain rfl : first = name := by simpa [callNames] using hmem
    exact hfirst
  · intro h
    exact ⟨name, ⟨by simp [callNames], hact⟩, h⟩

/-- A call reaches its own instruction. -/
theorem reaches_call_self {name : String} (hact : Action.ofName? name = none) :
    (call name).Reaches defs name :=
  (reaches_call_iff_reflTransGen hact name).mpr .refl

/-- An instruction leads, in one or more calls, to what its body reaches. -/
theorem transGen_leads_iff {name : String} {body : Statement} (hfind : defs.find? name = some body)
    (name' : String) :
    Relation.TransGen defs.Leads name name' ↔ body.Reaches defs name' := by
  rw [Relation.TransGen.head'_iff]
  constructor
  · rintro ⟨first, ⟨body', hfind', hcall⟩, hfirst⟩
    obtain rfl : body = body' := Option.some.inj (hfind.symm.trans hfind')
    exact ⟨first, hcall, hfirst⟩
  · rintro ⟨first, hcall, hfirst⟩
    exact ⟨first, ⟨body, hfind, hcall⟩, hfirst⟩

/-- A call reaches its instruction, and what the body of that reaches. -/
theorem reaches_call_iff {name : String} {body : Statement} (hact : Action.ofName? name = none)
    (hfind : defs.find? name = some body) (name' : String) :
    (call name).Reaches defs name' ↔ name' = name ∨ body.Reaches defs name' := by
  rw [reaches_call_iff_reflTransGen hact, Relation.reflTransGen_iff_eq_or_transGen,
    transGen_leads_iff hfind]

/-! ### Paths -/

/-- Below a call of an instruction is the instruction's body. -/
theorem nodesBelow_call {name : String} {body : Statement} (hact : Action.ofName? name = none)
    (hfind : defs.find? name = some body) : (call name).nodesBelow defs = [body] := by
  simp [nodesBelow, Action.isName, hact, hfind]

/-- Below a call of an action is nothing. -/
theorem nodesBelow_action {name : String} {action : Action}
    (hact : Action.ofName? name = some action) :
    (call name).nodesBelow defs = [] := by
  simp [nodesBelow, Action.isName, hact]

/-- The paths from a sequence have at most `n` nodes that are not sequences exactly if the paths
from its members do. -/
theorem openCount_le_iff_block {body : List Statement} {n : Nat} :
    (∀ path, Path defs (block body) path → openCount path ≤ n) ↔
      ∀ t ∈ body, ∀ path, Path defs t path → openCount path ≤ n := by
  constructor
  · intro h t ht path hpath
    simpa [openCount, block?] using h _ (.down ht hpath)
  · intro h path hpath
    cases hpath with
    | root => simp [openCount, block?]
    | down ht hpath => simpa [openCount, block?] using h _ ht _ hpath

/-- The paths from any other node have one such node more than those from the nodes below it. -/
theorem openCount_le_iff_nodesBelow {s : Statement} (hs : s.block? = none) {n : Nat} :
    (∀ path, Path defs s path → openCount path ≤ n + 1) ↔
      ∀ t ∈ s.nodesBelow defs, ∀ path, Path defs t path → openCount path ≤ n := by
  constructor
  · intro h t ht path hpath
    have hle := h _ (.down ht hpath)
    simpa [openCount, hs] using hle
  · intro h path hpath
    cases hpath with
    | root => simp [openCount, hs]
    | down ht hpath =>
        have hle := h _ ht _ hpath
        simpa [openCount, hs] using hle

end Statement

end RobotScript
