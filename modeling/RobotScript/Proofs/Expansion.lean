import Mathlib.Data.List.Forall2
import RobotScript.Proofs.Generation

/-!
# Writing calls out

The generator inserts the body of an instruction wherever it is called. This module separates the
two things that happen there. `Expands defs s t` says that `t` is `s` with every call of an
instruction written out, also in the bodies that come in for calls; only calls of actions are left.
`layout` is the code of such a statement, as a function of the address where it starts. Its size
does not depend on that address.

## Main results

* `Expands.induction`: induction on the expansion, with the hypothesis for each member of a
  sequence.
* `sizeAll_layout`: the code of `s` takes `s.codeSize` numbers wherever it starts.
* `exists_expands_of_emit`: **generated code is laid out from the expansion**; a statement that has
  code has an expansion, and its code is the layout of that expansion.
-/

namespace RobotScript.Statement

/-! ### Expansion -/

/-- The statement `t` is `s` with each call of an instruction replaced by the instruction's body, in
which the calls have been replaced as well. -/
inductive Expands (defs : Definitions) : Statement → Statement → Prop
  | block {body body' : List Statement} :
      List.Forall₂ (Expands defs) body body' → Expands defs (.block body) (.block body')
  | ifThen {c : Condition} {body body' : Statement} :
      Expands defs body body' → Expands defs (.ifThen c body) (.ifThen c body')
  | ifElse {c : Condition} {thenBody thenBody' elseBody elseBody' : Statement} :
      Expands defs thenBody thenBody' → Expands defs elseBody elseBody' →
      Expands defs (.ifElse c thenBody elseBody) (.ifElse c thenBody' elseBody')
  | whileDo {c : Condition} {body body' : Statement} :
      Expands defs body body' → Expands defs (.whileDo c body) (.whileDo c body')
  | action {name : String} {action : Action} :
      Action.ofName? name = some action → Expands defs (.call name) (.call name)
  | instruction {name : String} {body t : Statement} :
      Action.ofName? name = none → defs.find? name = some body → Expands defs body t →
      Expands defs (.call name) t

/-- Induction on the expansion, with the hypothesis for each member of a sequence. -/
theorem Expands.induction {defs : Definitions} {motive : ∀ s t, Expands defs s t → Prop}
    (block : ∀ {body body'}
      (hbody : List.Forall₂ (fun s t => ∃ h : Expands defs s t, motive s t h) body body'),
      motive _ _ (.block (hbody.imp fun _ _ h => h.1)))
    (ifThen : ∀ {c body body'} (hbody : Expands defs body body'), motive _ _ hbody →
      motive _ _ (.ifThen (c := c) hbody))
    (ifElse : ∀ {c thenBody thenBody' elseBody elseBody'} (hthen : Expands defs thenBody thenBody')
      (helse : Expands defs elseBody elseBody'), motive _ _ hthen → motive _ _ helse →
      motive _ _ (.ifElse (c := c) hthen helse))
    (whileDo : ∀ {c body body'} (hbody : Expands defs body body'), motive _ _ hbody →
      motive _ _ (.whileDo (c := c) hbody))
    (action : ∀ {name action} (hact : Action.ofName? name = some action),
      motive _ _ (.action hact))
    (instruction : ∀ {name body t} (hact : Action.ofName? name = none)
      (hfind : defs.find? name = some body) (hbody : Expands defs body t), motive _ _ hbody →
      motive _ _ (.instruction hact hfind hbody))
    {s t : Statement} (h : Expands defs s t) : motive s t h :=
  @Expands.rec defs motive
    (fun body body' _ => List.Forall₂ (fun s t => ∃ h : Expands defs s t, motive s t h) body body')
    (fun _ ih => block ih) ifThen ifElse whileDo action instruction .nil
    (fun hs _ ih ihRest => .cons ⟨hs, ih⟩ ihRest) s t h

/-! ### The code of an expansion -/

mutual

/-- How many numbers the code of the statement takes if it calls only actions. -/
def codeSize : Statement → Nat
  | block body => codeSizeAll body
  | ifThen _ body => 2 + body.codeSize
  | ifElse _ thenBody elseBody => 2 + thenBody.codeSize + 2 + elseBody.codeSize
  | whileDo _ body => 2 + body.codeSize + 2
  | call name => (Action.isName name).toNat

/-- How many numbers the code of the statements takes together. -/
def codeSizeAll : List Statement → Nat
  | [] => 0
  | s :: rest => s.codeSize + codeSizeAll rest

end

mutual

/-- The code at the address `start` of a statement that calls only actions. -/
def layout (start : Nat) : Statement → List Instr
  | block body => layoutAll start body
  | ifThen c body => .jumpUnless c (start + 2 + body.codeSize) :: body.layout (start + 2)
  | ifElse c thenBody elseBody =>
    .jumpUnless c (start + 2 + thenBody.codeSize + 2) :: thenBody.layout (start + 2) ++
      .jump (start + 2 + thenBody.codeSize + 2 + elseBody.codeSize) ::
        elseBody.layout (start + 2 + thenBody.codeSize + 2)
  | whileDo c body =>
    .jumpUnless c (start + 2 + body.codeSize + 2) :: body.layout (start + 2) ++ [.jump start]
  | call name => (Action.ofName? name).toList.map .act

/-- The code of statements one after another, the first at the address `start`. -/
def layoutAll (start : Nat) : List Statement → List Instr
  | [] => []
  | s :: rest => s.layout start ++ layoutAll (start + s.codeSize) rest

end

/-- An action takes one number. -/
theorem codeSize_action {name : String} {action : Action} (h : Action.ofName? name = some action) :
    (call name).codeSize = 1 := by
  rw [codeSize, Action.isName, h]
  rfl

theorem sizeAll_layoutAll {body : List Statement}
    (h : ∀ s ∈ body, ∀ start, Instr.sizeAll (s.layout start) = s.codeSize) (start : Nat) :
    Instr.sizeAll (layoutAll start body) = codeSizeAll body := by
  induction body generalizing start with
  | nil => rfl
  | cons s rest ih =>
      have hs : Instr.sizeAll (s.layout start) = s.codeSize := h s (by simp) start
      have hrest := ih (fun t ht => h t (by simp [ht])) (start + s.codeSize)
      rw [layoutAll, Instr.sizeAll_append, hs, hrest, codeSizeAll]

/-- The code of a statement takes the same room wherever it starts. -/
theorem sizeAll_layout (s : Statement) (start : Nat) :
    Instr.sizeAll (s.layout start) = s.codeSize := by
  induction s using Statement.induction generalizing start with
  | block body ih =>
      rw [layout, codeSize]
      exact sizeAll_layoutAll ih start
  | ifThen c body ih =>
      rw [layout, codeSize, Instr.sizeAll, ih]
      rfl
  | ifElse c thenBody elseBody ihThen ihElse =>
      rw [layout, codeSize, List.cons_append, Instr.sizeAll, Instr.sizeAll_append, Instr.sizeAll,
        ihThen, ihElse]
      simp only [Instr.size, Instr.encode, Instr.target?, Option.toList_some, List.length_cons,
        List.length_nil]
      omega
  | whileDo c body ih =>
      rw [layout, codeSize, List.cons_append, Instr.sizeAll, Instr.sizeAll_append, ih]
      simp only [Instr.sizeAll, Instr.size, Instr.encode, Instr.target?, Option.toList_some,
        List.length_cons, List.length_nil]
      omega
  | call name =>
      rw [layout, codeSize, Action.isName]
      cases Action.ofName? name <;> rfl

/-! ### What the generator returns -/

/-- **Generated code is laid out from the expansion.** A statement that has code has an expansion,
and its code is the layout of the expansion at the same address. -/
theorem exists_expands_of_emit {defs : Definitions} {chain : List String} {levels start : Nat}
    {s : Statement} {code : List Instr}
    (h : (emit defs chain levels start s).outcome = .ok code) :
    ∃ t, Expands defs s t ∧ code = t.layout start := by
  refine @emit_induction defs chain levels start code
    (fun _ _ start s code => ∃ t, Expands defs s t ∧ code = t.layout start)
    (fun _ _ start body code => ∃ ts, List.Forall₂ (Expands defs) body ts ∧
      code = layoutAll start ts) ?block ?ifThen ?ifElse ?whileDo ?action ?instruction ?nil ?cons s h
  case block =>
    rintro _ _ start _ _ ⟨ts, hts, rfl⟩
    exact ⟨.block ts, .block hts, by rw [layout]⟩
  case ifThen =>
    rintro _ _ start c _ _ ⟨t, ht, rfl⟩
    exact ⟨.ifThen c t, .ifThen ht, by rw [layout, sizeAll_layout]⟩
  case ifElse =>
    rintro _ _ start c _ _ _ _ ⟨t, ht, rfl⟩ ⟨t', ht', rfl⟩
    rw [sizeAll_layout] at *
    exact ⟨.ifElse c t t', .ifElse ht ht', by rw [layout, sizeAll_layout]⟩
  case whileDo =>
    rintro _ _ start c _ _ ⟨t, ht, rfl⟩
    exact ⟨.whileDo c t, .whileDo ht, by rw [layout, sizeAll_layout]⟩
  case action =>
    intro _ _ start name action hact
    exact ⟨.call name, .action hact, by rw [layout, hact]; rfl⟩
  case instruction =>
    rintro _ _ start name _ _ hact hfind - ⟨t, ht, rfl⟩
    exact ⟨t, .instruction hact hfind ht, rfl⟩
  case nil =>
    intro _ _ start
    exact ⟨[], .nil, rfl⟩
  case cons =>
    rintro _ _ start _ _ _ _ ⟨t, ht, rfl⟩ ⟨ts, hts, rfl⟩
    exact ⟨t :: ts, .cons ht hts, by rw [layoutAll, sizeAll_layout]⟩

end RobotScript.Statement
