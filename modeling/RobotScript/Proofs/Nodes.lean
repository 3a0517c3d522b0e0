import Mathlib.Data.List.Basic
import RobotScript.Proofs.CallGraph

/-!
# The nodes of a statement

A statement is a tree, and much that is said about it is said about the list of its nodes: which
names it calls, how many branches or loops it has, on which conditions. The list has each statement
before its parts, and the parts in the order of the text.

## Main definitions

* `Statement.nodes` — the statement and all that stands inside it.
* `Statement.kindCount`, `Statement.conditions` — how many nodes have a form, and the conditions of
  these nodes.

## Main results

* `callNames_eq_filterMap_nodes`: the names that a statement calls are those of its calls.
* `actionCount_eq_countP`: the calls of actions are counted among them.
* `kindCount_ifThen` and the like: what has a form is counted part by part.
-/

namespace RobotScript.Statement

/-- The statement and all statements inside it, each before its parts. -/
def nodes : Statement → List Statement
  | block body => block body :: body.flatMap nodes
  | ifThen c body => ifThen c body :: body.nodes
  | ifElse c thenBody elseBody =>
    ifElse c thenBody elseBody :: (thenBody.nodes ++ elseBody.nodes)
  | whileDo c body => whileDo c body :: body.nodes
  | call name => [call name]

/-- The condition of a branch or loop. -/
def condition? : Statement → Option Condition
  | ifThen c _ => some c
  | ifElse c _ _ => some c
  | whileDo c _ => some c
  | _ => none

/-- How many nodes of the statement have the form. -/
def kindCount (form : Kind) (s : Statement) : Nat :=
  s.nodes.countP fun t => t.kind = form

/-- The conditions of the nodes that have the form, in the order of the text. -/
def conditions (form : Kind) (s : Statement) : List Condition :=
  s.nodes.filterMap fun t => if t.kind = form then t.condition? else none

/-! ### Calls -/

/-- The names that a statement calls are those of its calls. -/
theorem callNames_eq_filterMap_nodes (s : Statement) :
    s.callNames = s.nodes.filterMap call? := by
  induction s using Statement.induction with
  | block body ih =>
      rw [callNames, nodes, List.filterMap_cons_none rfl, List.filterMap_flatMap]
      exact List.flatMap_congr ih
  | ifThen c body ih => rw [callNames, nodes, List.filterMap_cons_none rfl, ih]
  | ifElse c thenBody elseBody ihThen ihElse =>
      rw [callNames, nodes, List.filterMap_cons_none rfl, List.filterMap_append, ihThen, ihElse]
  | whileDo c body ih => rw [callNames, nodes, List.filterMap_cons_none rfl, ih]
  | call name =>
      rw [callNames, nodes]
      rfl

/-- The calls of actions are counted among the names that are called. -/
theorem actionCount_eq_countP (s : Statement) :
    s.actionCount = s.callNames.countP Action.isName := by
  induction s using Statement.induction with
  | block body ih =>
      rw [actionCount, callNames]
      induction body with
      | nil => rfl
      | cons s rest ihRest =>
          rw [actionCountAll, List.flatMap_cons, List.countP_append, ih s List.mem_cons_self,
            ihRest fun t ht => ih t (List.mem_cons_of_mem s ht)]
  | ifThen c body ih => rw [actionCount, callNames, ih]
  | ifElse c thenBody elseBody ihThen ihElse =>
      rw [actionCount, callNames, List.countP_append, ihThen, ihElse]
  | whileDo c body ih => rw [actionCount, callNames, ih]
  | call name =>
      rw [actionCount, callNames, List.countP_singleton]
      cases Action.isName name <;> rfl

/-! ### Counting forms -/

section

variable (form : Kind) (c : Condition) (body thenBody elseBody : Statement)

@[simp]
theorem kindCount_ifThen :
    (ifThen c body).kindCount form = body.kindCount form + if form = .ifThen then 1 else 0 := by
  simp [kindCount, nodes, kind, List.countP_cons, eq_comm]

@[simp]
theorem kindCount_ifElse :
    (ifElse c thenBody elseBody).kindCount form =
      thenBody.kindCount form + elseBody.kindCount form + if form = .ifElse then 1 else 0 := by
  simp [kindCount, nodes, kind, List.countP_cons, eq_comm]

@[simp]
theorem kindCount_whileDo :
    (whileDo c body).kindCount form = body.kindCount form + if form = .whileDo then 1 else 0 := by
  simp [kindCount, nodes, kind, List.countP_cons, eq_comm]

@[simp]
theorem kindCount_call (name : String) :
    (call name).kindCount form = if form = .call then 1 else 0 := by
  simp [kindCount, nodes, kind, List.countP_cons, eq_comm]

end

/-- The branches, loops or calls of a sequence are counted member by member. -/
theorem kindCount_block_cons {form : Kind} (hform : form ≠ .block) (s : Statement)
    (rest : List Statement) :
    (block (s :: rest)).kindCount form = s.kindCount form + (block rest).kindCount form := by
  simp [kindCount, nodes, kind, hform.symm]

end RobotScript.Statement
