import RobotScript.Opcode
import RobotScript.Text.Outline
import RobotScript.Text.Quoted

/-!
# Statements

A statement is a sequence of statements, a branch, a loop, or the call of an instruction by name.
Bodies can be any statement; a program read from source has sequences there.

## Main definitions

* `Statement` with `Statement.Kind`.
* `Statement.block?`, `ifThen?`, `ifElse?`, `whileDo?`, `call?` — the parts of a statement of
  each kind.
* `Statement.insertAt?`, `Statement.removeAt?` — editing a sequence by index.
* `Statement.actionCount` — how many calls of actions the statement contains.
* `Statement.rename` — the statement with one name called in place of another.
* `Statement.simplify` — the statement with affirmative conditions in two-way branches.
* `Statement.outline` — the statement to be shown with its structure.
-/

namespace RobotScript

/-- A statement of a program. -/
inductive Statement where
  /-- Statements to be performed in order. -/
  | block (body : List Statement)
  /-- A branch that does nothing if the condition fails. -/
  | ifThen (condition : Condition) (body : Statement)
  /-- A branch with something to do either way. -/
  | ifElse (condition : Condition) (thenBody elseBody : Statement)
  /-- A loop that goes on for as long as the condition holds when it is tested. -/
  | whileDo (condition : Condition) (body : Statement)
  /-- The call of an action or of an instruction that the program defines. -/
  | call (name : String)
  deriving Inhabited, Repr

namespace Statement

/-! ### Induction and equality -/

/-- Induction on statements, with the hypothesis for each member of a sequence. -/
theorem induction {motive : Statement → Prop}
    (block : ∀ body, (∀ s ∈ body, motive s) → motive (.block body))
    (ifThen : ∀ c body, motive body → motive (.ifThen c body))
    (ifElse : ∀ c thenBody elseBody, motive thenBody → motive elseBody →
      motive (.ifElse c thenBody elseBody))
    (whileDo : ∀ c body, motive body → motive (.whileDo c body))
    (call : ∀ name, motive (.call name)) (s : Statement) : motive s :=
  @Statement.rec motive (fun body => ∀ s ∈ body, motive s) block ifThen ifElse whileDo call
    (by simp) (fun _ _ head tail => List.forall_mem_cons.2 ⟨head, tail⟩) s

mutual

/-- Whether two statements are equal. -/
def beq : Statement → Statement → Bool
  | block body, block body' => beqAll body body'
  | ifThen c body, ifThen c' body' => c == c' && body.beq body'
  | ifElse c thenBody elseBody, ifElse c' thenBody' elseBody' =>
    c == c' && thenBody.beq thenBody' && elseBody.beq elseBody'
  | whileDo c body, whileDo c' body' => c == c' && body.beq body'
  | call name, call name' => name == name'
  | _, _ => false

/-- Whether two sequences of statements are equal. -/
def beqAll : List Statement → List Statement → Bool
  | [], [] => true
  | s :: rest, s' :: rest' => s.beq s' && beqAll rest rest'
  | _, _ => false

end

theorem beqAll_iff {body body' : List Statement}
    (h : ∀ s ∈ body, ∀ s', s.beq s' = true ↔ s = s') : beqAll body body' = true ↔ body = body' := by
  induction body generalizing body' with
  | nil => cases body' <;> simp [beqAll]
  | cons s rest ih =>
    cases body' with
    | nil => simp [beqAll]
    | cons s' rest' =>
      have head := h s (by simp) s'
      have tail : beqAll rest rest' = true ↔ rest = rest' := ih fun t ht => h t (by simp [ht])
      simp [beqAll, head, tail]

theorem beq_iff (s s' : Statement) : s.beq s' = true ↔ s = s' := by
  induction s using Statement.induction generalizing s' with
  | block body ih => cases s' <;> simp [beq, beqAll_iff ih]
  | ifThen c body ih => cases s' <;> simp [beq, ih]
  | ifElse c thenBody elseBody ihThen ihElse =>
    cases s' <;> simp [beq, ihThen, ihElse, and_assoc]
  | whileDo c body ih => cases s' <;> simp [beq, ih]
  | call name => cases s' <;> simp [beq]

instance : DecidableEq Statement := fun s s' => decidable_of_iff _ (beq_iff s s')

/-! ### Kinds and parts -/

/-- The form of a statement. -/
inductive Kind where
  | block
  | ifThen
  | ifElse
  | whileDo
  | call
  deriving DecidableEq, Repr

/-- The name of a form. -/
def Kind.name : Kind → String
  | block => "BLOCK"
  | ifThen => "IF"
  | ifElse => "IF_ELSE"
  | whileDo => "WHILE"
  | call => "CALL"

/-- The form of the statement. -/
def kind : Statement → Kind
  | block _ => .block
  | ifThen _ _ => .ifThen
  | ifElse _ _ _ => .ifElse
  | whileDo _ _ => .whileDo
  | call _ => .call

/-- The sequence that does nothing. -/
def empty : Statement := block []

/-- The members of a sequence. -/
def block? : Statement → Option (List Statement)
  | block body => some body
  | _ => none

/-- The condition and the body of a one-way branch. -/
def ifThen? : Statement → Option (Condition × Statement)
  | ifThen c body => some (c, body)
  | _ => none

/-- The condition and the two bodies of a two-way branch. -/
def ifElse? : Statement → Option (Condition × Statement × Statement)
  | ifElse c thenBody elseBody => some (c, thenBody, elseBody)
  | _ => none

/-- The condition and the body of a loop. -/
def whileDo? : Statement → Option (Condition × Statement)
  | whileDo c body => some (c, body)
  | _ => none

/-- The name that is called. -/
def call? : Statement → Option String
  | call name => some name
  | _ => none

/-! ### Editing a sequence -/

/-- The sequence with `s` inserted before the member at `index`, or at the end if `index` is the
length; `none` beyond that. -/
def insertAt? (body : List Statement) (index : Nat) (s : Statement) : Option (List Statement) :=
  if index ≤ body.length then some (body.insertIdx index s) else none

/-- The member at `index` and the sequence without it; `none` if there is no such member. -/
def removeAt? (body : List Statement) (index : Nat) : Option (Statement × List Statement) :=
  body[index]?.map fun s => (s, body.eraseIdx index)

/-! ### Analyses and transformations -/

mutual

/-- How many calls of actions the statement contains. Calls of instructions are not followed. -/
def actionCount : Statement → Nat
  | block body => actionCountAll body
  | ifThen _ body => body.actionCount
  | ifElse _ thenBody elseBody => thenBody.actionCount + elseBody.actionCount
  | whileDo _ body => body.actionCount
  | call name => (Action.isName name).toNat

/-- How many calls of actions the statements contain together. -/
def actionCountAll : List Statement → Nat
  | [] => 0
  | s :: rest => s.actionCount + actionCountAll rest

end

/-- The name after `old` was given up for `new`. -/
def renamed (old new name : String) : String :=
  if name = old then new else name

/-- The statement that calls `new` wherever this one calls `old`. -/
def rename (old new : String) : Statement → Statement
  | block body => block (body.map (rename old new))
  | ifThen c body => ifThen c (body.rename old new)
  | ifElse c thenBody elseBody => ifElse c (thenBody.rename old new) (elseBody.rename old new)
  | whileDo c body => whileDo c (body.rename old new)
  | call name => call (renamed old new name)

/-- The statement in which each two-way branch on a negative condition has become the branch on
the affirmative one, with its bodies exchanged. -/
def simplify : Statement → Statement
  | block body => block (body.map simplify)
  | ifThen c body => ifThen c body.simplify
  | ifElse (.ahead sight true) thenBody elseBody =>
    ifElse (.ahead sight false) elseBody.simplify thenBody.simplify
  | ifElse c thenBody elseBody => ifElse c thenBody.simplify elseBody.simplify
  | whileDo c body => whileDo c body.simplify
  | call name => call name

/-! ### Showing the structure -/

open Text in
/-- The statement to be shown with its structure. -/
def outline : Statement → Outline
  | block body =>
    .group "Block" .round
      [.group "Block" .record [.labelled "statements" (.group "" .square (body.map outline))]]
  | ifThen c body =>
    .group "If" .record [.labelled "condition" (.atom c.title), .labelled "body" body.outline]
  | ifElse c thenBody elseBody =>
    .group "IfElse" .record
      [.labelled "condition" (.atom c.title), .labelled "then_body" thenBody.outline,
        .labelled "else_body" elseBody.outline]
  | whileDo c body =>
    .group "While" .record [.labelled "condition" (.atom c.title), .labelled "body" body.outline]
  | call name => .group "Call" .round [.atom (quoted name)]

end Statement

end RobotScript
