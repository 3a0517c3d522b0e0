import RobotScript.Proofs.CallGraph
import RobotScript.Proofs.Derivation
import RobotScript.Proofs.Scanning

/-!
# Canonical bodies and their derivations

A text cannot show every statement. It can show sequences only as bodies, it has to be able to spell
the names, and branches and loops may only stand so deep in one another. The bodies that keep to
this are canonical.

Every statement has derivation trees, read off its structure: a sequence inside a sequence is
spliced into it, as the layout does it too. So the tokens of the layout are the yield of these trees
wherever its sequences stand. A canonical body is what its trees derive, and what trees derive from
the tokens of a text is canonical.

## Main definitions

* `Statement.isRegular` — sequences are bodies and nothing else.
* `Statement.CanonicalBody` — what a text can show.
* `Statement.trees` — the derivation that the layout shows.

## Main results

* `Statement.CanonicalBody.block_trees`: the trees of a canonical body derive it.
* `Statement.show_lines`: **the layout of a statement shows the yield of its trees**.
* `StatementTree.canonicalBody_block`: what is derived from proper tokens is canonical.
-/

namespace RobotScript

namespace Statement

/-! ### Canonical statements -/

/-- The statement is a sequence. -/
def isBlock (s : Statement) : Bool :=
  s.block?.isSome

mutual

/-- The bodies of branches and loops are sequences, and no sequence is a member of another. -/
def isRegular : Statement → Bool
  | .block body => isRegularAll body
  | .ifThen _ body => body.isBlock && body.isRegular
  | .ifElse _ thenBody elseBody =>
    (thenBody.isBlock && thenBody.isRegular) && (elseBody.isBlock && elseBody.isRegular)
  | .whileDo _ body => body.isBlock && body.isRegular
  | .call _ => true

/-- The statements are regular and none is a sequence. -/
def isRegularAll : List Statement → Bool
  | [] => true
  | s :: rest => (!s.isBlock && s.isRegular) && isRegularAll rest

end

/-- Statements are regular together if each is regular and no sequence. -/
theorem isRegularAll_iff {body : List Statement} :
    isRegularAll body = true ↔ ∀ s ∈ body, s.isBlock = false ∧ s.isRegular = true := by
  induction body with
  | nil => simp [isRegularAll]
  | cons s rest ih => simp [isRegularAll, ih]

/-- The statement can be shown as the body of a program or instruction: it is a regular sequence, it
calls nothing but identifiers, and no branches and loops stand more than 128 deep in one another. -/
structure CanonicalBody (s : Statement) : Prop where
  isBlock : s.isBlock = true
  isRegular : s.isRegular = true
  calls : ∀ name ∈ s.callNames, isIdentifier name = true
  nesting : s.nesting ≤ 128

/-! ### Derivations of statements -/

/-- The derivation trees of a statement, each condition in its exact spelling. -/
def trees : Statement → List StatementTree
  | block body => body.flatMap trees
  | ifThen c body => [.ifThen (.exact c) body.trees]
  | ifElse c thenBody elseBody => [.ifElse (.exact c) thenBody.trees elseBody.trees]
  | whileDo c body => [.whileDo (.exact c) body.trees]
  | call name => [.call name]

/-- The members of a sequence; anything else is its own only member. -/
def members (s : Statement) : List Statement :=
  s.block?.getD [s]

/-- A sequence is made of its members. -/
theorem block_members {s : Statement} (h : s.isBlock = true) : block s.members = s := by
  cases s with
  | block body => rfl
  | ifThen | ifElse | whileDo | call => cases h

/-- What is no sequence is its only member. -/
theorem members_of_not_isBlock {s : Statement} (h : s.isBlock = false) : s.members = [s] := by
  cases s with
  | block body => cases h
  | ifThen | ifElse | whileDo | call => rfl

/-- The trees of a regular statement derive its members. -/
theorem map_statement_trees {s : Statement} (h : s.isRegular = true) :
    s.trees.map StatementTree.statement = s.members := by
  induction s using Statement.induction with
  | block body ih =>
      have heach := isRegularAll_iff.mp h
      rw [trees, List.map_flatMap]
      change _ = body
      clear h
      induction body with
      | nil => rfl
      | cons s rest ihRest =>
          obtain ⟨⟨hblock, hregular⟩, hrest⟩ := List.forall_mem_cons.mp heach
          rw [List.flatMap_cons, ih s List.mem_cons_self hregular, members_of_not_isBlock hblock,
            ihRest (fun t ht => ih t (List.mem_cons_of_mem s ht)) hrest]
          rfl
  | ifThen c body ih =>
      obtain ⟨hblock, hregular⟩ : body.isBlock = true ∧ body.isRegular = true := by
        simpa [isRegular] using h
      simp only [trees, List.map_cons, List.map_nil, StatementTree.statement, ih hregular,
        block_members hblock, Guard.condition]
      rfl
  | ifElse c thenBody elseBody ihThen ihElse =>
      obtain ⟨⟨hblock, hregular⟩, hblock', hregular'⟩ :
          (thenBody.isBlock = true ∧ thenBody.isRegular = true) ∧
            elseBody.isBlock = true ∧ elseBody.isRegular = true := by
        simpa [isRegular] using h
      simp only [trees, List.map_cons, List.map_nil, StatementTree.statement, ihThen hregular,
        ihElse hregular', block_members hblock, block_members hblock', Guard.condition]
      rfl
  | whileDo c body ih =>
      obtain ⟨hblock, hregular⟩ : body.isBlock = true ∧ body.isRegular = true := by
        simpa [isRegular] using h
      simp only [trees, List.map_cons, List.map_nil, StatementTree.statement, ih hregular,
        block_members hblock, Guard.condition]
      rfl
  | call name =>
      rw [trees, List.map_singleton, StatementTree.statement]
      rfl

/-- **The trees of a canonical body derive it.** -/
theorem CanonicalBody.block_trees {s : Statement} (h : s.CanonicalBody) :
    StatementTree.block s.trees = s := by
  rw [StatementTree.block, map_statement_trees h.isRegular, block_members h.isBlock]

/-! ### The layout of statements -/

/-- The line that opens a branch or loop. -/
theorem spells_opening (k : Keyword) (c : Condition) (k' : Keyword) :
    List.Forall₂ Spells [k.spelling, c.spelling, k'.spelling]
      [.keyword k, .condition c, .keyword k'] :=
  .cons (spells_keyword k) (.cons (spells_condition c) (.cons (spells_keyword k') .nil))

/-- The line that closes a branch or loop. -/
theorem spells_closing (k : Keyword) :
    List.Forall₂ Spells [Keyword.endKw.spelling, k.spelling] [.keyword .endKw, .keyword k] :=
  .cons (spells_keyword .endKw) (.cons (spells_keyword k) .nil)

/-- **The layout of a statement shows the yield of its trees**, if the statement calls nothing but
identifiers. Here it need not be regular: the layout splices sequences as the trees do. -/
theorem show_lines {s : Statement} (h : ∀ name ∈ s.callNames, isIdentifier name = true)
    (indent : Nat) :
    Line.Show (s.lines indent) (StatementTree.blockTokens s.trees) := by
  induction s using Statement.induction generalizing indent with
  | block body ih =>
      rw [callNames] at h
      rw [lines, trees, StatementTree.blockTokens, List.flatMap_assoc]
      induction body with
      | nil => exact .nil
      | cons s rest ihRest =>
          rw [List.flatMap_cons] at h
          rw [List.flatMap_cons, List.flatMap_cons]
          have hhead := ih s List.mem_cons_self
            (fun name hname => h name (List.mem_append_left _ hname)) indent
          exact hhead.append (ihRest (fun t ht => ih t (List.mem_cons_of_mem s ht))
            fun name hname => h name (List.mem_append_right _ hname))
  | ifThen c body ih =>
      have hbody := ih (by simpa [callNames] using h) (indent + Line.step)
      have hall := Line.Show.cons indent (spells_opening .ifKw c .thenKw)
        (hbody.append (.cons indent (spells_closing .ifKw) .nil))
      simpa [lines, trees, StatementTree.blockTokens, StatementTree.tokens, Guard.token,
        Keyword.spelling] using hall
  | ifElse c thenBody elseBody ihThen ihElse =>
      have hthen := ihThen (fun name hname => h name (by simp [callNames, hname]))
        (indent + Line.step)
      have helse := ihElse (fun name hname => h name (by simp [callNames, hname]))
        (indent + Line.step)
      have hall := Line.Show.cons indent (spells_opening .ifKw c .thenKw)
        (hthen.append (.cons indent (.cons (spells_keyword .elseKw) .nil)
          (helse.append (.cons indent (spells_closing .ifKw) .nil))))
      simpa [lines, trees, StatementTree.blockTokens, StatementTree.tokens, Guard.token,
        Keyword.spelling] using hall
  | whileDo c body ih =>
      have hbody := ih (by simpa [callNames] using h) (indent + Line.step)
      have hall := Line.Show.cons indent (spells_opening .whileKw c .doKw)
        (hbody.append (.cons indent (spells_closing .whileKw) .nil))
      simpa [lines, trees, StatementTree.blockTokens, StatementTree.tokens, Guard.token,
        Keyword.spelling] using hall
  | call name =>
      have hname := h name (by simp [callNames])
      have hall := Line.Show.cons indent (.cons (spells_identifier hname) .nil) .nil
      simpa [lines, trees, StatementTree.blockTokens, StatementTree.tokens] using hall

end Statement

namespace StatementTree

/-! ### What can be derived -/

/-- A block of what is regular and no sequence is regular. -/
theorem isRegular_block_of {body : List StatementTree}
    (h : ∀ t ∈ body, t.statement.isBlock = false ∧ t.statement.isRegular = true) :
    (block body).isRegular = true := by
  rw [block, Statement.isRegular, Statement.isRegularAll_iff, List.forall_mem_map]
  exact h

/-- What a tree derives is regular, and no sequence. -/
theorem isRegular_statement (t : StatementTree) :
    t.statement.isBlock = false ∧ t.statement.isRegular = true := by
  induction t using StatementTree.induction with
  | call name =>
      rw [statement]
      exact ⟨rfl, rfl⟩
  | ifThen g body ih =>
      rw [statement, ← block, Statement.isRegular, isRegular_block_of ih]
      exact ⟨rfl, rfl⟩
  | ifElse g thenBody elseBody ihThen ihElse =>
      rw [statement, ← block, ← block, Statement.isRegular, isRegular_block_of ihThen,
        isRegular_block_of ihElse]
      exact ⟨rfl, rfl⟩
  | whileDo g body ih =>
      rw [statement, ← block, Statement.isRegular, isRegular_block_of ih]
      exact ⟨rfl, rfl⟩

/-- The names that a block calls are among its tokens, if those of its statements are. -/
theorem ident_mem_blockTokens_of {body : List StatementTree}
    (h : ∀ t ∈ body, ∀ name ∈ t.statement.callNames, Token.ident name ∈ t.tokens)
    {name : String} (hname : name ∈ (block body).callNames) :
    Token.ident name ∈ blockTokens body := by
  rw [block, Statement.callNames, List.flatMap_map, List.mem_flatMap] at hname
  obtain ⟨t, ht, hcalled⟩ := hname
  exact List.mem_flatMap.mpr ⟨t, ht, h t ht name hcalled⟩

/-- The names that a statement calls are among its tokens. -/
theorem ident_mem_tokens (t : StatementTree) :
    ∀ name ∈ t.statement.callNames, Token.ident name ∈ t.tokens := by
  induction t using StatementTree.induction with
  | call name =>
      intro name' hname
      rw [statement, Statement.callNames, List.mem_singleton] at hname
      rw [hname, tokens]
      exact List.mem_cons_self
  | ifThen g body ih =>
      intro name hname
      rw [statement, ← block, Statement.callNames] at hname
      have hmem := ident_mem_blockTokens_of ih hname
      simp only [tokens, List.mem_append]
      exact .inl (.inr hmem)
  | ifElse g thenBody elseBody ihThen ihElse =>
      intro name hname
      rw [statement, ← block, ← block, Statement.callNames, List.mem_append] at hname
      simp only [tokens, List.mem_append]
      rcases hname with hthen | helse
      · exact .inl (.inl (.inl (.inr (ident_mem_blockTokens_of ihThen hthen))))
      · exact .inl (.inr (ident_mem_blockTokens_of ihElse helse))
  | whileDo g body ih =>
      intro name hname
      rw [statement, ← block, Statement.callNames] at hname
      have hmem := ident_mem_blockTokens_of ih hname
      simp only [tokens, List.mem_append]
      exact .inl (.inr hmem)

/-- **What is derived from proper tokens is canonical**, if its nesting is. -/
theorem canonicalBody_block {body : List StatementTree}
    (hproper : ∀ token ∈ blockTokens body, token.IsProper)
    (hnesting : (block body).nesting ≤ 128) : (block body).CanonicalBody := by
  refine ⟨rfl, isRegular_block_of fun t _ => isRegular_statement t, ?_, hnesting⟩
  intro name hname
  have hmem := ident_mem_blockTokens_of (fun t _ => ident_mem_tokens t) hname
  exact (hproper _ hmem).2 name rfl

end StatementTree

end RobotScript
