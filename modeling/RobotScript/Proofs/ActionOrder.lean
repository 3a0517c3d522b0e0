import Mathlib.Tactic
import RobotScript.Proofs.Inlining
import RobotScript.Proofs.Nodes
import RobotScript.Proofs.WellFormedCode

/-!
# The actions in generated code

No call of an action is lost on the way to the code, none is repeated, and none changes its place
among the others. The numbers of the code do not show it: a target can be any number, also one that
is the code of an action. So the actions are those of the decoded instructions, which are as many as
the calls in the expansion of the source, in the same order. The other numbers of the code are
accounted for as well, by the branches and loops of the expansion and the halt.

## Main definitions

* `codeActions` — the actions that placed instructions perform.

## Main results

* `Statement.filterMap_action?_layout`: the actions in the code of a statement are those it calls.
* `Statement.codeSize_eq_counts`: **the length of code, in terms of the source**.
* `Statement.compile_keeps_actions`: **generated code has the actions of the source, in its order**.
-/

namespace RobotScript

/-- The action that the instruction performs. -/
def Instr.action? : Instr → Option Action
  | act action => some action
  | _ => none

/-- The actions that the instructions perform, in the order of the instructions. -/
def codeActions (code : List Placed) : List Action :=
  code.filterMap fun p => p.instr.action?

/-- The actions of placed code are those of the code. -/
theorem codeActions_place (address : Nat) (code : List Instr) :
    codeActions (Instr.place address code) = code.filterMap Instr.action? := by
  conv_rhs => rw [← Instr.map_instr_place address code]
  rw [List.filterMap_map]
  rfl

/-- Code is placed in ascending order of its addresses. -/
theorem Instr.pairwise_place (address : Nat) (code : List Instr) :
    (place address code).Pairwise fun p q => p.address < q.address := by
  induction code generalizing address with
  | nil => exact .nil
  | cons i code ih =>
      refine List.pairwise_cons.mpr ⟨fun q hq => ?_, ih (address + i.size)⟩
      have hle : address + i.size ≤ q.address := StartsAt.le_of_place ⟨q, hq, rfl⟩
      have hsize : i.size = if i.target?.isSome then 2 else 1 := i.size_eq
      change address < q.address
      split at hsize <;> omega

/-- The names of actions are the names of the actions that they call. -/
theorem Action.map_name_filterMap_ofName? {names : List String}
    (h : ∀ name ∈ names, Action.isName name = true) :
    (names.filterMap Action.ofName?).map Action.name = names := by
  induction names with
  | nil => rfl
  | cons name names ih =>
      obtain ⟨hname, hnames⟩ := List.forall_mem_cons.mp h
      obtain ⟨action, hact⟩ := Option.isSome_iff_exists.mp hname
      rw [List.filterMap_cons_some hact, List.map_cons, Action.name_of_ofName? hact, ih hnames]

namespace Statement

/-! ### The code of a statement -/

/-- **The actions in the code of a statement are those that it calls**, in the same order. -/
theorem filterMap_action?_layout (s : Statement) (start : Nat) :
    (s.layout start).filterMap Instr.action? = s.callNames.filterMap Action.ofName? := by
  induction s using Statement.induction generalizing start with
  | block body ih =>
      rw [layout, callNames]
      induction body generalizing start with
      | nil => rfl
      | cons s rest ihRest =>
          rw [layoutAll, List.filterMap_append, List.flatMap_cons, List.filterMap_append,
            ih s List.mem_cons_self, ihRest fun t ht => ih t (List.mem_cons_of_mem s ht)]
  | ifThen c body ih => rw [layout, callNames, List.filterMap_cons_none rfl, ih]
  | ifElse c thenBody elseBody ihThen ihElse =>
      rw [layout, callNames, List.filterMap_append, List.filterMap_cons_none rfl,
        List.filterMap_cons_none rfl, ihThen, ihElse, List.filterMap_append]
  | whileDo c body ih =>
      rw [layout, callNames, List.filterMap_append, List.filterMap_cons_none rfl, ih]
      exact List.append_nil _
  | call name =>
      rw [layout, callNames]
      cases hact : Action.ofName? name with
      | none => rw [List.filterMap_cons_none hact]; rfl
      | some action => rw [List.filterMap_cons_some hact]; rfl

/-- **The length of code, in terms of the source.** An action takes one number, a one-way branch
two, a two-way branch and a loop four each. -/
theorem codeSize_eq_counts (s : Statement) :
    s.codeSize = s.actionCount + 2 * s.kindCount .ifThen + 4 * s.kindCount .ifElse +
      4 * s.kindCount .whileDo := by
  induction s using Statement.induction with
  | block body ih =>
      induction body with
      | nil => simp [codeSize, codeSizeAll, actionCount, actionCountAll, kindCount, nodes, kind]
      | cons s rest ihRest =>
          have hs := ih s List.mem_cons_self
          have hrest := ihRest fun t ht => ih t (List.mem_cons_of_mem s ht)
          rw [codeSize, actionCount] at hrest ⊢
          rw [codeSizeAll, actionCountAll, kindCount_block_cons (by simp),
            kindCount_block_cons (by simp), kindCount_block_cons (by simp)]
          omega
  | ifThen c body ih =>
      simp only [codeSize, actionCount, kindCount_ifThen, reduceCtorEq, if_true, if_false, ih]
      omega
  | ifElse c thenBody elseBody ihThen ihElse =>
      simp only [codeSize, actionCount, kindCount_ifElse, reduceCtorEq, if_true, if_false, ihThen,
        ihElse]
      omega
  | whileDo c body ih =>
      simp only [codeSize, actionCount, kindCount_whileDo, reduceCtorEq, if_true, if_false, ih]
      omega
  | call name => simp [codeSize, actionCount]

/-- **Generated code has the actions of the source, in its order.** Let a main body have code, and
let its expansion be the main body with every call of an instruction replaced by the instruction's
body. The actions of the decoded instructions, in the order of their addresses, are what the
expansion calls, in the order of the text. The length of the code is the number of these calls, with
two for each one-way branch, four for each two-way branch, four for each loop and one for the
halt. -/
theorem compile_keeps_actions {defs : Definitions} {body : Statement} {bc : Bytecode}
    (h : (body.compile defs).outcome = .ok bc) :
    ∃ t code, (∀ t', Expands defs body t' ↔ t' = t) ∧ bc.decode = .ok code ∧
      (code.Pairwise fun p q => p.address < q.address) ∧
      (codeActions code).map Action.name = t.callNames ∧
      (codeActions code).length = t.actionCount ∧
      bc.size = t.actionCount + 2 * t.kindCount .ifThen + 4 * t.kindCount .ifElse +
        4 * t.kindCount .whileDo + 1 := by
  obtain ⟨program, hcode, rfl⟩ := compile_eq_ok_iff.mp h
  obtain ⟨t, ht, rfl⟩ := exists_expands_of_emit hcode
  have hactions : codeActions (Instr.place 0 (t.layout 0 ++ [.halt])) =
      t.callNames.filterMap Action.ofName? := by
    rw [codeActions_place, List.filterMap_append, filterMap_action?_layout]
    exact List.append_nil _
  have hnames : (t.callNames.filterMap Action.ofName?).map Action.name = t.callNames :=
    Action.map_name_filterMap_ofName? fun name => ht.isName_of_mem_callNames
  have hlength : (t.callNames.filterMap Action.ofName?).length = t.actionCount := by
    rw [actionCount_eq_countP, List.length_filterMap_eq_countP]
    rfl
  refine ⟨t, _, ht.iff_eq, t.decode_layout, Instr.pairwise_place _ _, ?_, ?_, ?_⟩
  · rw [hactions, hnames]
  · rw [hactions, hlength]
  · rw [Bytecode.size_ofInstrs, Instr.sizeAll_append, sizeAll_layout, codeSize_eq_counts]
    rfl

/-- A robot that runs an errand once, and then on a coin flip once more. -/
def errand : Statement :=
  .block [.call "fetch", .ifElse .random (.call "fetch") (.call "skip")]

/-- What the robot calls: an instruction that calls another in a loop. -/
def errandDefinitions : Definitions :=
  .ofList [("fetch", .block [.whileDo (.ahead .empty false) (.call "stride"), .call "infect"]),
    ("stride", .block [.call "move", .call "turnright"])]

/-- The robot with its calls written out. -/
def errandWrittenOut : Statement :=
  .block [.block [.whileDo (.ahead .empty false) (.block [.call "move", .call "turnright"]),
      .call "infect"],
    .ifElse .random
      (.block [.whileDo (.ahead .empty false) (.block [.call "move", .call "turnright"]),
        .call "infect"])
      (.call "skip")]

/-- The numbers of the robot's code. The zero at address 5 is a target, not a move. -/
def errandCode : List Nat :=
  [7, 6, 0, 2, 6, 0, 3, 15, 18, 7, 15, 0, 2, 6, 9, 3, 6, 19, 4, 5]

/-- The seven actions of the errand are in its code, those of `fetch` twice. -/
theorem compile_keeps_actions_errand :
    (errand.compile errandDefinitions).outcome = .ok ⟨errandCode⟩ ∧
    Expands errandDefinitions errand errandWrittenOut ∧
    ∃ code, Bytecode.decode ⟨errandCode⟩ = .ok code ∧
      (codeActions code).map Action.name =
        ["move", "turnright", "infect", "move", "turnright", "infect", "skip"] ∧
      Bytecode.size ⟨errandCode⟩ = 7 + 2 * 0 + 4 * 1 + 4 * 2 + 1 := by
  have hcompile : (errand.compile errandDefinitions).outcome = .ok ⟨errandCode⟩ := by cbv
  have haction : ∀ {name}, Action.isName name = true →
      Expands errandDefinitions (.call name) (.call name) := fun h =>
    .action (Option.isSome_iff_exists.mp h).choose_spec
  have hstride : Expands errandDefinitions (.call "stride")
      (.block [.call "move", .call "turnright"]) :=
    .instruction rfl rfl (.block (.cons (haction rfl) (.cons (haction rfl) .nil)))
  have hfetch : Expands errandDefinitions (.call "fetch")
      (.block [.whileDo (.ahead .empty false) (.block [.call "move", .call "turnright"]),
        .call "infect"]) :=
    .instruction rfl rfl (.block (.cons (.whileDo hstride) (.cons (haction rfl) .nil)))
  have hexpands : Expands errandDefinitions errand errandWrittenOut :=
    .block (.cons hfetch (.cons (.ifElse hfetch (haction rfl)) .nil))
  obtain ⟨t, code, hunique, hdecode, -, hactions, -, hsize⟩ := compile_keeps_actions hcompile
  obtain rfl := (hunique errandWrittenOut).mp hexpands
  refine ⟨hcompile, hexpands, code, hdecode, hactions.trans ?_, hsize.trans ?_⟩
  · simp [errandWrittenOut, callNames]
  · cbv

end Statement

end RobotScript
