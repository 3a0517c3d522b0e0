import RobotScript.Program
import RobotScript.Token

/-!
# The grammar, by its derivation trees

A derivation tree records how a token list was derived: which alternative of the grammar each
statement is, and which token spells each condition. The grammar is the function that lists the
tokens of a tree, its yield:

* a program is `PROGRAM n IS`, its instructions, `BEGIN`, a block, `END n`;
* an instruction is `INSTRUCTION i IS`, a block, `END i`;
* a block is a run of statements;
* a statement is a name, or `IF c THEN block END IF`, or `IF c THEN block ELSE block END IF`, or
  `WHILE c DO block END WHILE`;
* a condition is the exact spelling of one, or a word that spells one in some other way.

A tree also says which statement or program it derives. No reader is mentioned here.

## Main definitions

* `Guard`, `StatementTree`, `ProgramTree` with `tokens` — the grammar.
* `StatementTree.statement`, `ProgramTree.Denotes` — what is derived.
* `ProgramTree.Valid` — the rules about names and nesting that the grammar does not express.

## Main results

* `StatementTree.tokens_append_inj`: **no yield is an initial part of another**.
* `ProgramTree.tokens_injective`: **the grammar is unambiguous**, a token list has at most one
  derivation.
-/

namespace RobotScript

/-! ### Nesting -/

mutual

/-- How many branches and loops of the statement stand inside one another at most. -/
def Statement.nesting : Statement → Nat
  | .block body => Statement.nestingAll body
  | .ifThen _ body => body.nesting + 1
  | .ifElse _ thenBody elseBody => max thenBody.nesting elseBody.nesting + 1
  | .whileDo _ body => body.nesting + 1
  | .call _ => 0

/-- The nesting of the statement with the most. -/
def Statement.nestingAll : List Statement → Nat
  | [] => 0
  | s :: rest => max s.nesting (Statement.nestingAll rest)

end

/-- The nesting of statements one after another. -/
theorem Statement.nestingAll_append (body rest : List Statement) :
    nestingAll (body ++ rest) = max (nestingAll body) (nestingAll rest) := by
  induction body with
  | nil => simp [nestingAll]
  | cons s body ih => rw [List.cons_append, nestingAll, nestingAll, ih, Nat.max_assoc]

/-! ### Conditions -/

/-- What stands where a condition is due. -/
inductive Guard where
  /-- The exact spelling of the condition. -/
  | exact (condition : Condition)
  /-- A word that could be a name, but spells the condition up to letter case and hyphens. -/
  | ident (word : String) (condition : Condition)
      (spelled : Condition.ofWord? word = some condition)
  /-- A word that could be nothing else, and spells the condition up to letter case and hyphens. -/
  | other (word : String) (condition : Condition)
      (spelled : Condition.ofWord? word = some condition)

namespace Guard

/-- The token that stands there. -/
def token : Guard → Token
  | exact c => .condition c
  | ident word _ _ => .ident word
  | other word _ _ => .other word

/-- The condition that is meant. -/
def condition : Guard → Condition
  | exact c => c
  | ident _ c _ => c
  | other _ c _ => c

/-- A token stands for one condition in one way. -/
theorem token_injective {g g' : Guard} (h : g.token = g'.token) : g = g' := by
  cases g with
  | exact c =>
      cases g' with
      | exact c' => simpa [token] using h
      | ident word' c' spelled' => simp [token] at h
      | other word' c' spelled' => simp [token] at h
  | ident word c spelled =>
      cases g' with
      | exact c' => simp [token] at h
      | ident word' c' spelled' =>
          obtain rfl : word = word' := Token.ident.inj h
          obtain rfl : c = c' := Option.some.inj (spelled.symm.trans spelled')
          rfl
      | other word' c' spelled' => simp [token] at h
  | other word c spelled =>
      cases g' with
      | exact c' => simp [token] at h
      | ident word' c' spelled' => simp [token] at h
      | other word' c' spelled' =>
          obtain rfl : word = word' := Token.other.inj h
          obtain rfl : c = c' := Option.some.inj (spelled.symm.trans spelled')
          rfl

end Guard

/-! ### Statements -/

/-- How a statement was derived. -/
inductive StatementTree where
  /-- `name` -/
  | call (name : String)
  /-- `IF c THEN body END IF` -/
  | ifThen (guard : Guard) (body : List StatementTree)
  /-- `IF c THEN thenBody ELSE elseBody END IF` -/
  | ifElse (guard : Guard) (thenBody elseBody : List StatementTree)
  /-- `WHILE c DO body END WHILE` -/
  | whileDo (guard : Guard) (body : List StatementTree)

namespace StatementTree

/-- Induction on derivation trees, with the hypothesis for each member of a block. -/
theorem induction {motive : StatementTree → Prop}
    (call : ∀ name, motive (.call name))
    (ifThen : ∀ g body, (∀ t ∈ body, motive t) → motive (.ifThen g body))
    (ifElse : ∀ g thenBody elseBody, (∀ t ∈ thenBody, motive t) → (∀ t ∈ elseBody, motive t) →
      motive (.ifElse g thenBody elseBody))
    (whileDo : ∀ g body, (∀ t ∈ body, motive t) → motive (.whileDo g body))
    (t : StatementTree) : motive t :=
  @StatementTree.rec motive (fun body => ∀ t ∈ body, motive t) call ifThen ifElse whileDo
    (by simp) (fun _ _ head tail => List.forall_mem_cons.2 ⟨head, tail⟩) t

/-- The yield of a statement. -/
def tokens : StatementTree → List Token
  | call name => [.ident name]
  | ifThen g body =>
    [.keyword .ifKw, g.token, .keyword .thenKw] ++ body.flatMap tokens ++
      [.keyword .endKw, .keyword .ifKw]
  | ifElse g thenBody elseBody =>
    [.keyword .ifKw, g.token, .keyword .thenKw] ++ thenBody.flatMap tokens ++
      [.keyword .elseKw] ++ elseBody.flatMap tokens ++ [.keyword .endKw, .keyword .ifKw]
  | whileDo g body =>
    [.keyword .whileKw, g.token, .keyword .doKw] ++ body.flatMap tokens ++
      [.keyword .endKw, .keyword .whileKw]

/-- The yield of a block. -/
def blockTokens (body : List StatementTree) : List Token :=
  body.flatMap tokens

/-- The statement that is derived. -/
def statement : StatementTree → Statement
  | call name => .call name
  | ifThen g body => .ifThen g.condition (.block (body.map statement))
  | ifElse g thenBody elseBody =>
    .ifElse g.condition (.block (thenBody.map statement)) (.block (elseBody.map statement))
  | whileDo g body => .whileDo g.condition (.block (body.map statement))

/-- The sequence that a block derives. -/
def block (body : List StatementTree) : Statement :=
  .block (body.map statement)

/-- The nesting of an empty block. -/
@[simp]
theorem nesting_block_nil : (block []).nesting = 0 := rfl

/-- The nesting of a block with one more statement before it. -/
theorem nesting_block_cons (t : StatementTree) (body : List StatementTree) :
    (block (t :: body)).nesting = max t.statement.nesting (block body).nesting := by
  simp only [block, List.map_cons, Statement.nesting, Statement.nestingAll]

/-- The nesting of a block with one more statement after it. -/
theorem nesting_block_concat (body : List StatementTree) (t : StatementTree) :
    (block (body ++ [t])).nesting = max (block body).nesting t.statement.nesting := by
  simp only [block, List.map_append, List.map_cons, List.map_nil, Statement.nesting,
    Statement.nestingAll_append, Statement.nestingAll, Nat.max_zero]

/-! ### Unambiguity of statements -/

/-- A statement starts with one of the tokens that can start one. -/
theorem exists_tokens_eq_cons (t : StatementTree) :
    ∃ first more, t.tokens = first :: more ∧ first.startsStatement = true := by
  cases t with
  | call name => exact ⟨.ident name, [], by rw [tokens], rfl⟩
  | ifThen g body => exact ⟨.keyword .ifKw, _, by rw [tokens]; rfl, rfl⟩
  | ifElse g thenBody elseBody => exact ⟨.keyword .ifKw, _, by rw [tokens]; rfl, rfl⟩
  | whileDo g body => exact ⟨.keyword .whileKw, _, by rw [tokens]; rfl, rfl⟩

/-- Where the next token cannot start a statement, a block that could go on with one is at its
end. -/
theorem eq_nil_of_blockTokens_append {body : List StatementTree} {token : Token}
    {rest rest' : List Token} (htoken : token.startsStatement = false)
    (h : blockTokens body ++ rest = token :: rest') : body = [] := by
  cases body with
  | nil => rfl
  | cons t body =>
      obtain ⟨first, more, hfirst, hstarts⟩ := exists_tokens_eq_cons t
      rw [blockTokens, List.flatMap_cons, hfirst] at h
      obtain rfl : first = token := (List.cons.inj h).1
      rw [htoken] at hstarts
      cases hstarts

/-- Blocks before tokens that cannot start a statement are equal if their yields with those tokens
are, provided that this much is known of their statements. -/
theorem blockTokens_append_inj_of {body body' : List StatementTree} {token token' : Token}
    {rest rest' : List Token}
    (ih : ∀ t ∈ body, ∀ t' rest rest', t.tokens ++ rest = t'.tokens ++ rest' →
      t = t' ∧ rest = rest')
    (htoken : token.startsStatement = false) (htoken' : token'.startsStatement = false)
    (h : blockTokens body ++ token :: rest = blockTokens body' ++ token' :: rest') :
    body = body' ∧ token = token' ∧ rest = rest' := by
  induction body generalizing body' with
  | nil =>
      obtain rfl := eq_nil_of_blockTokens_append htoken h.symm
      exact ⟨rfl, List.cons.inj h⟩
  | cons t body ihBody =>
      cases body' with
      | nil => exact absurd (eq_nil_of_blockTokens_append htoken' h) (List.cons_ne_nil t body)
      | cons t' body' =>
          simp only [blockTokens, List.flatMap_cons, List.append_assoc] at h
          obtain ⟨rfl, hbody⟩ := ih t List.mem_cons_self t' _ _ h
          obtain ⟨rfl, hrest⟩ := ihBody (fun u hu => ih u (List.mem_cons_of_mem t hu)) hbody
          exact ⟨rfl, hrest⟩

/-- **No yield of a statement is an initial part of another**: whatever follows, the statement can
be told from the tokens. -/
theorem tokens_append_inj (t t' : StatementTree) (rest rest' : List Token)
    (h : t.tokens ++ rest = t'.tokens ++ rest') : t = t' ∧ rest = rest' := by
  induction t using StatementTree.induction generalizing t' rest rest' with
  | call name =>
      cases t' with
      | call name' => simpa [tokens] using h
      | ifThen g' body' => simp [tokens] at h
      | ifElse g' thenBody' elseBody' => simp [tokens] at h
      | whileDo g' body' => simp [tokens] at h
  | ifThen g body ih =>
      cases t' with
      | call name' => simp [tokens] at h
      | ifThen g' body' =>
          simp only [tokens, List.append_assoc, List.cons_append, List.nil_append, List.cons.injEq,
            true_and] at h
          obtain rfl := Guard.token_injective h.1
          obtain ⟨rfl, -, h⟩ := blockTokens_append_inj_of ih rfl rfl h.2
          exact ⟨rfl, (List.cons.inj h).2⟩
      | ifElse g' thenBody' elseBody' =>
          simp only [tokens, List.append_assoc, List.cons_append, List.nil_append, List.cons.injEq,
            true_and] at h
          obtain ⟨-, hkeyword, -⟩ := blockTokens_append_inj_of ih rfl rfl h.2
          cases hkeyword
      | whileDo g' body' => simp [tokens] at h
  | ifElse g thenBody elseBody ihThen ihElse =>
      cases t' with
      | call name' => simp [tokens] at h
      | ifThen g' body' =>
          simp only [tokens, List.append_assoc, List.cons_append, List.nil_append, List.cons.injEq,
            true_and] at h
          obtain ⟨-, hkeyword, -⟩ := blockTokens_append_inj_of ihThen rfl rfl h.2
          cases hkeyword
      | ifElse g' thenBody' elseBody' =>
          simp only [tokens, List.append_assoc, List.cons_append, List.nil_append, List.cons.injEq,
            true_and] at h
          obtain rfl := Guard.token_injective h.1
          obtain ⟨rfl, -, h⟩ := blockTokens_append_inj_of ihThen rfl rfl h.2
          obtain ⟨rfl, -, h⟩ := blockTokens_append_inj_of ihElse rfl rfl h
          exact ⟨rfl, (List.cons.inj h).2⟩
      | whileDo g' body' => simp [tokens] at h
  | whileDo g body ih =>
      cases t' with
      | call name' => simp [tokens] at h
      | ifThen g' body' => simp [tokens] at h
      | ifElse g' thenBody' elseBody' => simp [tokens] at h
      | whileDo g' body' =>
          simp only [tokens, List.append_assoc, List.cons_append, List.nil_append, List.cons.injEq,
            true_and] at h
          obtain rfl := Guard.token_injective h.1
          obtain ⟨rfl, -, h⟩ := blockTokens_append_inj_of ih rfl rfl h.2
          exact ⟨rfl, (List.cons.inj h).2⟩

/-- Blocks before tokens that cannot start a statement can be told from the tokens. -/
theorem blockTokens_append_inj {body body' : List StatementTree} {token token' : Token}
    {rest rest' : List Token} (htoken : token.startsStatement = false)
    (htoken' : token'.startsStatement = false)
    (h : blockTokens body ++ token :: rest = blockTokens body' ++ token' :: rest') :
    body = body' ∧ token = token' ∧ rest = rest' :=
  blockTokens_append_inj_of (fun t _ => tokens_append_inj t) htoken htoken' h

end StatementTree

/-! ### Programs -/

/-- How a program was derived: its name, its instructions in the order in which they stand, and its
main body. -/
structure ProgramTree where
  name : String
  instructions : List (String × List StatementTree)
  body : List StatementTree

namespace ProgramTree

/-- The yield of an instruction. -/
def instructionTokens (instruction : String × List StatementTree) : List Token :=
  [.keyword .instructionKw, .ident instruction.1, .keyword .isKw] ++
    StatementTree.blockTokens instruction.2 ++ [.keyword .endKw, .ident instruction.1]

/-- The yield of a program. -/
def tokens (d : ProgramTree) : List Token :=
  [.keyword .programKw, .ident d.name, .keyword .isKw] ++
    d.instructions.flatMap instructionTokens ++
    [.keyword .beginKw] ++ StatementTree.blockTokens d.body ++ [.keyword .endKw, .ident d.name]

/-- The rules about a list of instructions: their names are distinct, none is the name of an action,
and no branches or loops stand more than 128 deep in one another. -/
structure ValidInstructions (instructions : List (String × List StatementTree)) : Prop where
  distinct : (instructions.map Prod.fst).Nodup
  notAction : ∀ i ∈ instructions, Action.isName i.1 = false
  nesting : ∀ i ∈ instructions, (StatementTree.block i.2).nesting ≤ 128

/-- The rules about a program that its grammar does not express. -/
structure Valid (d : ProgramTree) : Prop where
  instructions : ValidInstructions d.instructions
  nesting : (StatementTree.block d.body).nesting ≤ 128

/-- The definitions are those of a list of instructions, and no others. -/
def Defines (instructions : List (String × List StatementTree)) (defs : Definitions) : Prop :=
  ∀ name body, defs.find? name = some body ↔
    ∃ i ∈ instructions, i.1 = name ∧ StatementTree.block i.2 = body

/-- The program that is derived: it has the tree's name, exactly the tree's instructions, and the
tree's main body. -/
structure Denotes (d : ProgramTree) (p : Program) : Prop where
  name : p.name = d.name
  definitions : Defines d.instructions p.definitions
  body : p.body = StatementTree.block d.body

/-! ### Unambiguity of programs -/

/-- Instructions before the main body can be told from the tokens. -/
theorem instructions_append_inj {instructions instructions' : List (String × List StatementTree)}
    {rest rest' : List Token}
    (h : instructions.flatMap instructionTokens ++ .keyword .beginKw :: rest =
      instructions'.flatMap instructionTokens ++ .keyword .beginKw :: rest') :
    instructions = instructions' ∧ rest = rest' := by
  induction instructions generalizing instructions' with
  | nil =>
      cases instructions' with
      | nil => exact ⟨rfl, (List.cons.inj h).2⟩
      | cons i' more' => simp [instructionTokens] at h
  | cons i more ih =>
      cases instructions' with
      | nil => simp [instructionTokens] at h
      | cons i' more' =>
          obtain ⟨name, body⟩ := i
          obtain ⟨name', body'⟩ := i'
          simp only [List.flatMap_cons, instructionTokens, List.append_assoc, List.cons_append,
            List.nil_append, List.cons.injEq, true_and, Token.ident.injEq] at h
          obtain ⟨rfl, hbody⟩ := h
          obtain ⟨rfl, -, hclosing⟩ := StatementTree.blockTokens_append_inj rfl rfl hbody
          obtain ⟨rfl, hrest⟩ := ih (List.cons.inj hclosing).2
          exact ⟨rfl, hrest⟩

/-- **The grammar is unambiguous.** -/
theorem tokens_injective {d d' : ProgramTree} (h : d.tokens = d'.tokens) : d = d' := by
  obtain ⟨name, instructions, body⟩ := d
  obtain ⟨name', instructions', body'⟩ := d'
  simp only [tokens, List.append_assoc, List.cons_append, List.nil_append, List.cons.injEq,
    true_and, Token.ident.injEq] at h
  obtain ⟨rfl, hinstructions⟩ := h
  obtain ⟨rfl, hbody⟩ := instructions_append_inj hinstructions
  obtain ⟨rfl, -⟩ := StatementTree.blockTokens_append_inj rfl rfl hbody
  rfl

end ProgramTree

end RobotScript
