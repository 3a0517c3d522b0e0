import RobotScript.Proofs.Canonical
import RobotScript.Proofs.Expansion

/-!
# Sequences inside sequences

A statement can be put together in ways that make no difference: a sequence inside a sequence, or a
single statement as a body where a sequence of one would do as well. `tidy` undoes both inside a
statement and `flat` makes a sequence of the statement itself too. Code does not show the
difference: a statement and its flat form have the same code at every address.

The members of the flat form of an expansion are plain: no sequences, with sequences for bodies,
calling only actions.

## Main definitions

* `Statement.tidy`, `Statement.flat` — the statement without needless sequences.
* `Statement.Plain` — the members of flat expansions.

## Main results

* `codeSize_flat`, `layout_flat`: **flattening does not change the code**.
* `plain_of_mem_members_tidy`: the members of the flat form of an expansion are plain.
-/

namespace RobotScript.Statement

/-! ### Flattening -/

/-- The statement with every sequence inside a sequence spliced into it, and every body of a branch
or loop that is no sequence made into a sequence of one. The statement itself keeps its form. -/
def tidy : Statement → Statement
  | block body => block (body.flatMap fun s => s.tidy.members)
  | ifThen c body => ifThen c (block body.tidy.members)
  | ifElse c thenBody elseBody =>
    ifElse c (block thenBody.tidy.members) (block elseBody.tidy.members)
  | whileDo c body => whileDo c (block body.tidy.members)
  | call name => call name

/-- The tidy statement as a sequence: itself, or itself as the only member. -/
def flat (s : Statement) : Statement :=
  block s.tidy.members

section

variable (c : Condition) (body thenBody elseBody : Statement)

@[simp]
theorem members_tidy_block (body : List Statement) :
    (block body).tidy.members = body.flatMap fun s => s.tidy.members := by
  rw [tidy]
  rfl

@[simp]
theorem members_tidy_ifThen : (ifThen c body).tidy.members = [ifThen c body.flat] := by
  rw [tidy]
  rfl

@[simp]
theorem members_tidy_ifElse :
    (ifElse c thenBody elseBody).tidy.members = [ifElse c thenBody.flat elseBody.flat] := by
  rw [tidy]
  rfl

@[simp]
theorem members_tidy_whileDo : (whileDo c body).tidy.members = [whileDo c body.flat] := by
  rw [tidy]
  rfl

@[simp]
theorem members_tidy_call (name : String) : (call name).tidy.members = [call name] := by
  rw [tidy]
  rfl

end

/-- Tidying keeps sequences sequences, and makes none of anything else. -/
theorem isBlock_tidy (s : Statement) : s.tidy.isBlock = s.isBlock := by
  cases s with
  | block | ifThen | ifElse | whileDo | call => simp [tidy, isBlock, block?]

/-- The flat form tells the tidy statement, but for whether that is a sequence. -/
theorem tidy_eq_of_flat_eq {s t : Statement} (h : s.flat = t.flat)
    (hblock : s.isBlock = t.isBlock) : s.tidy = t.tidy := by
  have hmembers : s.tidy.members = t.tidy.members := Statement.block.inj h
  rw [← isBlock_tidy s, ← isBlock_tidy t] at hblock
  cases ht : t.tidy.isBlock with
  | true => rw [← block_members (hblock.trans ht), ← block_members ht, hmembers]
  | false =>
      rw [members_of_not_isBlock (hblock.trans ht), members_of_not_isBlock ht] at hmembers
      exact (List.cons.inj hmembers).1

/-! ### Code -/

/-- The room that the code of more statements takes. -/
theorem codeSizeAll_append (body rest : List Statement) :
    codeSizeAll (body ++ rest) = codeSizeAll body + codeSizeAll rest := by
  induction body with
  | nil => simp [codeSizeAll]
  | cons s body ih =>
      rw [List.cons_append, codeSizeAll, codeSizeAll, ih]
      omega

/-- The code of more statements follows the code of those before. -/
theorem layoutAll_append (body rest : List Statement) (start : Nat) :
    layoutAll start (body ++ rest) =
      layoutAll start body ++ layoutAll (start + codeSizeAll body) rest := by
  induction body generalizing start with
  | nil => simp [layoutAll, codeSizeAll]
  | cons s body ih =>
      rw [List.cons_append, layoutAll, layoutAll, ih, codeSizeAll, List.append_assoc, Nat.add_assoc]

/-- The code of one statement. -/
theorem layoutAll_singleton (s : Statement) (start : Nat) :
    layoutAll start [s] = s.layout start := by
  simp [layoutAll]

/-- The code of the flat form takes the same room. -/
theorem codeSize_flat (s : Statement) : s.flat.codeSize = s.codeSize := by
  induction s using Statement.induction with
  | block body ih =>
      rw [flat, members_tidy_block, codeSize, codeSize]
      induction body with
      | nil => rfl
      | cons s rest ihRest =>
          have hs : codeSizeAll s.tidy.members = s.codeSize := by
            simpa [flat, codeSize] using ih s List.mem_cons_self
          rw [List.flatMap_cons, codeSizeAll_append, codeSizeAll, hs,
            ihRest fun t ht => ih t (List.mem_cons_of_mem s ht)]
  | ifThen c body ih => simp [flat, codeSize, codeSizeAll, ← ih]
  | ifElse c thenBody elseBody ihThen ihElse =>
      simp [flat, codeSize, codeSizeAll, ← ihThen, ← ihElse]
  | whileDo c body ih => simp [flat, codeSize, codeSizeAll, ← ih]
  | call name => simp [flat, codeSize, codeSizeAll]

/-- **Flattening does not change the code.** -/
theorem layout_flat (s : Statement) (start : Nat) : s.flat.layout start = s.layout start := by
  induction s using Statement.induction generalizing start with
  | block body ih =>
      rw [flat, members_tidy_block, layout, layout]
      induction body generalizing start with
      | nil => rfl
      | cons s rest ihRest =>
          have hsize : codeSizeAll s.tidy.members = s.codeSize := by
            simpa [flat, codeSize] using s.codeSize_flat
          have hs : layoutAll start s.tidy.members = s.layout start := by
            simpa [flat, layout] using ih s List.mem_cons_self start
          rw [List.flatMap_cons, layoutAll_append, layoutAll, hs, hsize,
            ihRest fun t ht => ih t (List.mem_cons_of_mem s ht)]
  | ifThen c body ih =>
      rw [flat, members_tidy_ifThen, layout, layoutAll_singleton, layout, layout, ih, codeSize_flat]
  | ifElse c thenBody elseBody ihThen ihElse =>
      rw [flat, members_tidy_ifElse, layout, layoutAll_singleton, layout, layout, ihThen, ihElse,
        codeSize_flat, codeSize_flat]
  | whileDo c body ih =>
      rw [flat, members_tidy_whileDo, layout, layoutAll_singleton, layout, layout, ih,
        codeSize_flat]
  | call name => rw [flat, members_tidy_call, layout, layoutAll_singleton]

/-! ### Plain statements -/

/-- The statement is no sequence, its bodies are sequences of plain statements, and all that it
calls are actions. -/
inductive Plain : Statement → Prop
  | action {name : String} {action : Action} :
      Action.ofName? name = some action → Plain (.call name)
  | ifThen {c : Condition} {body : List Statement} :
      (∀ s ∈ body, Plain s) → Plain (.ifThen c (.block body))
  | ifElse {c : Condition} {thenBody elseBody : List Statement} :
      (∀ s ∈ thenBody, Plain s) → (∀ s ∈ elseBody, Plain s) →
      Plain (.ifElse c (.block thenBody) (.block elseBody))
  | whileDo {c : Condition} {body : List Statement} :
      (∀ s ∈ body, Plain s) → Plain (.whileDo c (.block body))

/-- **The members of the flat form are plain**, if all that the statement calls are actions. -/
theorem plain_of_mem_members_tidy {s : Statement}
    (hcalls : ∀ name ∈ s.callNames, Action.isName name = true) :
    ∀ u ∈ s.tidy.members, Plain u := by
  induction s using Statement.induction with
  | block body ih =>
      intro u hu
      rw [members_tidy_block, List.mem_flatMap] at hu
      obtain ⟨s, hs, hu⟩ := hu
      refine ih s hs (fun name hname => hcalls name ?_) u hu
      rw [callNames, List.mem_flatMap]
      exact ⟨s, hs, hname⟩
  | ifThen c body ih =>
      rw [callNames] at hcalls
      rw [members_tidy_ifThen, List.forall_mem_singleton]
      exact .ifThen (ih hcalls)
  | ifElse c thenBody elseBody ihThen ihElse =>
      rw [callNames] at hcalls
      have hthen := ihThen fun name hname => hcalls name (List.mem_append_left _ hname)
      have helse := ihElse fun name hname => hcalls name (List.mem_append_right _ hname)
      rw [members_tidy_ifElse, List.forall_mem_singleton]
      exact .ifElse hthen helse
  | whileDo c body ih =>
      rw [callNames] at hcalls
      rw [members_tidy_whileDo, List.forall_mem_singleton]
      exact .whileDo (ih hcalls)
  | call name =>
      obtain ⟨action, hact⟩ := Option.isSome_iff_exists.mp (hcalls name (by simp [callNames]))
      rw [members_tidy_call, List.forall_mem_singleton]
      exact .action hact

end RobotScript.Statement
