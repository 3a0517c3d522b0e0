import Mathlib.Tactic
import RobotScript.Proofs.Nodes
import RobotScript.Proofs.Rewriting

/-!
# The affirmative form of a statement

Exchanging the bodies of every two-way branch on a negative condition gives the affirmative form. It
is reached in one pass, although the bodies that are exchanged hold branches of their own. The form
is a normal form: statements that mirror each other, by exchanges at any of their branches, have the
same affirmative form, and no others do.

Everything else stays. What a node of a statement has to itself, apart from the condition of a
two-way branch, is the same in a mirrored statement, so what is collected from the nodes is the same
up to order.

## Main definitions

* `Statement.IsAffirmative` — no two-way branch has a negative condition.

## Main results

* `isAffirmative_simplify`, `simplify_eq_self_iff`: the affirmative form is affirmative, and what is
  affirmative is its own affirmative form.
* `simplify_rename`: the affirmative form of a renamed statement is the renamed affirmative form.
* `Mirrors.perm_filterMap_nodes`: **mirrored statements have the same nodes**, up to order and
  exchanges.
* `simplify_eq_iff_mirrors`: **the affirmative forms are equal exactly if the statements mirror each
  other**.
* `simplify_normalForm`: all that together.
-/

namespace RobotScript

/-! ### Conditions -/

namespace Condition

variable {c c' : Condition}

/-- Of a condition and its negation, one is negative. -/
theorem isNegative_of_negated? (h : c.negated? = some c') : c'.isNegative = !c.isNegative := by
  cases c with
  | ahead sight negative =>
      obtain rfl := Option.some.inj h
      rfl
  | random => cases h
  | always => cases h

/-- A negative condition has a negation. -/
theorem exists_negated?_of_isNegative (h : c.isNegative = true) :
    ∃ c', c.negated? = some c' ∧ c'.isNegative = false := by
  cases c with
  | ahead sight negative => exact ⟨.ahead sight !negative, rfl, by simpa [isNegative] using h⟩
  | random => cases h
  | always => cases h

end Condition

namespace Statement

variable {s s' s'' : Statement} {old new : String}

/-! ### Affirmative statements -/

/-- No two-way branch of the statement, at any depth, has a negative condition. -/
def IsAffirmative (s : Statement) : Prop :=
  ∀ c ∈ s.conditions .ifElse, c.isNegative = false

instance (s : Statement) : Decidable s.IsAffirmative :=
  inferInstanceAs (Decidable (∀ c ∈ s.conditions .ifElse, c.isNegative = false))

section

variable {c : Condition} {body thenBody elseBody : Statement}

@[simp]
theorem isAffirmative_block_iff {body : List Statement} :
    (block body).IsAffirmative ↔ ∀ s ∈ body, s.IsAffirmative := by
  simp only [IsAffirmative, conditions, nodes, kind, List.filterMap_cons, reduceCtorEq, if_false,
    List.filterMap_flatMap, List.mem_flatMap]
  constructor
  · intro h s hs c hc
    exact h c ⟨s, hs, hc⟩
  · rintro h c ⟨s, hs, hc⟩
    exact h s hs c hc

@[simp]
theorem isAffirmative_ifThen_iff : (ifThen c body).IsAffirmative ↔ body.IsAffirmative := by
  simp [IsAffirmative, conditions, nodes, kind]

@[simp]
theorem isAffirmative_ifElse_iff :
    (ifElse c thenBody elseBody).IsAffirmative ↔
      c.isNegative = false ∧ thenBody.IsAffirmative ∧ elseBody.IsAffirmative := by
  simp only [IsAffirmative, conditions, nodes, kind, List.filterMap_cons, if_true, condition?,
    List.filterMap_append, List.forall_mem_cons, List.forall_mem_append]

@[simp]
theorem isAffirmative_whileDo_iff : (whileDo c body).IsAffirmative ↔ body.IsAffirmative := by
  simp [IsAffirmative, conditions, nodes, kind]

@[simp]
theorem isAffirmative_call (name : String) : (call name).IsAffirmative := by
  simp [IsAffirmative, conditions, nodes, kind]

/-- A branch on an affirmative condition stays as it is. -/
theorem simplify_ifElse_of_affirmative (h : c.isNegative = false) :
    (ifElse c thenBody elseBody).simplify = ifElse c thenBody.simplify elseBody.simplify := by
  rw [simplify]
  rintro sight rfl
  cases h

/-- A branch on a negative condition becomes the branch on its negation. -/
theorem simplify_ifElse_of_negative {c' : Condition} (h : c.isNegative = true)
    (hc : c.negated? = some c') :
    (ifElse c thenBody elseBody).simplify = ifElse c' elseBody.simplify thenBody.simplify := by
  cases c with
  | ahead sight negative =>
      obtain rfl : negative = true := h
      obtain rfl := Option.some.inj hc
      rw [simplify]
      rfl
  | random => cases h
  | always => cases h

end

/-! ### One pass is enough -/

/-- **The affirmative form is affirmative.** -/
theorem isAffirmative_simplify (s : Statement) : s.simplify.IsAffirmative := by
  induction s using Statement.induction with
  | block body ih => simpa [simplify] using ih
  | ifThen c body ih => simpa [simplify] using ih
  | ifElse c thenBody elseBody ihThen ihElse =>
      cases hneg : c.isNegative with
      | false =>
          rw [simplify_ifElse_of_affirmative hneg]
          exact isAffirmative_ifElse_iff.mpr ⟨hneg, ihThen, ihElse⟩
      | true =>
          obtain ⟨c', hc, hneg'⟩ := Condition.exists_negated?_of_isNegative hneg
          rw [simplify_ifElse_of_negative hneg hc]
          exact isAffirmative_ifElse_iff.mpr ⟨hneg', ihElse, ihThen⟩
  | whileDo c body ih => simpa [simplify] using ih
  | call name =>
      rw [simplify]
      exact isAffirmative_call name

/-- What is affirmative is its own affirmative form. -/
theorem IsAffirmative.simplify_eq (h : s.IsAffirmative) : s.simplify = s := by
  induction s using Statement.induction with
  | block body ih =>
      have hmembers := isAffirmative_block_iff.mp h
      rw [simplify, List.map_congr_left fun s hs => ih s hs (hmembers s hs), List.map_id']
  | ifThen c body ih => rw [simplify, ih (isAffirmative_ifThen_iff.mp h)]
  | ifElse c thenBody elseBody ihThen ihElse =>
      obtain ⟨hneg, hthen, helse⟩ := isAffirmative_ifElse_iff.mp h
      rw [simplify_ifElse_of_affirmative hneg, ihThen hthen, ihElse helse]
  | whileDo c body ih => rw [simplify, ih (isAffirmative_whileDo_iff.mp h)]
  | call name => rw [simplify]

/-- A statement is its own affirmative form exactly if it is affirmative. -/
theorem simplify_eq_self_iff : s.simplify = s ↔ s.IsAffirmative := by
  constructor
  · intro h
    rw [← h]
    exact s.isAffirmative_simplify
  · exact IsAffirmative.simplify_eq

/-- The affirmative form of a renamed statement is the renamed affirmative form. -/
theorem simplify_rename (s : Statement) :
    (s.rename old new).simplify = s.simplify.rename old new := by
  induction s using Statement.induction with
  | block body ih =>
      rw [rename, simplify, simplify, rename, List.map_map, List.map_map]
      exact congrArg block (List.map_congr_left ih)
  | ifThen c body ih => rw [rename, simplify, simplify, rename, ih]
  | ifElse c thenBody elseBody ihThen ihElse =>
      cases hneg : c.isNegative with
      | false =>
          rw [rename, simplify_ifElse_of_affirmative hneg, simplify_ifElse_of_affirmative hneg,
            rename, ihThen, ihElse]
      | true =>
          obtain ⟨c', hc, -⟩ := Condition.exists_negated?_of_isNegative hneg
          rw [rename, simplify_ifElse_of_negative hneg hc, simplify_ifElse_of_negative hneg hc,
            rename, ihThen, ihElse]
  | whileDo c body ih => rw [rename, simplify, simplify, rename, ih]
  | call name => rw [rename, simplify, simplify, rename]

/-! ### What mirrored statements share -/

/-- Mirroring at one set of branches and then at another is mirroring. -/
theorem Mirrors.trans (h : s.Mirrors s') (h' : s'.Mirrors s'') : s.Mirrors s'' := by
  induction s using Statement.induction generalizing s' s'' with
  | block body ih =>
      cases h with
      | block hbody =>
          cases h' with
          | block hbody' =>
              refine .block ?_
              rename_i body' body''
              induction hbody generalizing body'' with
              | nil =>
                  cases hbody'
                  exact .nil
              | cons hs _ ihRest =>
                  cases hbody' with
                  | cons hs' hrest' =>
                      exact .cons (ih _ List.mem_cons_self hs hs')
                        (ihRest (fun t ht => ih t (List.mem_cons_of_mem _ ht)) hrest')
  | ifThen c body ih =>
      cases h with
      | ifThen hbody =>
          cases h' with
          | ifThen hbody' => exact .ifThen (ih hbody hbody')
  | ifElse c thenBody elseBody ihThen ihElse =>
      cases h with
      | ifElse hthen helse =>
          cases h' with
          | ifElse hthen' helse' => exact .ifElse (ihThen hthen hthen') (ihElse helse helse')
          | exchange hc' hthen' helse' =>
              exact .exchange hc' (ihThen hthen hthen') (ihElse helse helse')
      | exchange hc hthen helse =>
          cases h' with
          | ifElse helse' hthen' => exact .exchange hc (ihThen hthen hthen') (ihElse helse helse')
          | exchange hc' helse' hthen' =>
              -- exchanged twice, the branch has its own condition again
              obtain rfl := Option.some.inj ((Condition.negated?_symm hc).symm.trans hc')
              exact .ifElse (ihThen hthen hthen') (ihElse helse helse')
  | whileDo c body ih =>
      cases h with
      | whileDo hbody =>
          cases h' with
          | whileDo hbody' => exact .whileDo (ih hbody hbody')
  | call name =>
      cases h
      exact h'

/-- Mirrored statements have the same affirmative form. -/
theorem Mirrors.simplify_eq (h : s.Mirrors s') : s.simplify = s'.simplify := by
  induction s using Statement.induction generalizing s' with
  | block body ih =>
      cases h with
      | block hbody =>
          rw [simplify, simplify]
          refine congrArg Statement.block ?_
          induction hbody with
          | nil => rfl
          | cons hs _ ihRest =>
              rw [List.map_cons, List.map_cons, ih _ List.mem_cons_self hs,
                ihRest fun t ht => ih t (List.mem_cons_of_mem _ ht)]
  | ifThen c body ih =>
      cases h with
      | ifThen hbody => rw [simplify, simplify, ih hbody]
  | ifElse c thenBody elseBody ihThen ihElse =>
      cases h with
      | ifElse hthen helse =>
          cases hneg : c.isNegative with
          | false =>
              rw [simplify_ifElse_of_affirmative hneg, simplify_ifElse_of_affirmative hneg,
                ihThen hthen, ihElse helse]
          | true =>
              obtain ⟨c', hc, -⟩ := Condition.exists_negated?_of_isNegative hneg
              rw [simplify_ifElse_of_negative hneg hc, simplify_ifElse_of_negative hneg hc,
                ihThen hthen, ihElse helse]
      | exchange hc hthen helse =>
          -- one of the two conditions is negative, and that side is exchanged back
          have hneg' := Condition.isNegative_of_negated? hc
          cases hneg : c.isNegative with
          | false =>
              rw [hneg, Bool.not_false] at hneg'
              rw [simplify_ifElse_of_affirmative hneg,
                simplify_ifElse_of_negative hneg' (Condition.negated?_symm hc), ihThen hthen,
                ihElse helse]
          | true =>
              rw [hneg, Bool.not_true] at hneg'
              rw [simplify_ifElse_of_negative hneg hc, simplify_ifElse_of_affirmative hneg',
                ihThen hthen, ihElse helse]
  | whileDo c body ih =>
      cases h with
      | whileDo hbody => rw [simplify, simplify, ih hbody]
  | call name =>
      cases h
      rfl

/-- **The affirmative forms are equal exactly if the statements mirror each other.** -/
theorem simplify_eq_iff_mirrors : s.simplify = s'.simplify ↔ s.Mirrors s' := by
  constructor
  · intro h
    have hback : s.simplify.Mirrors s' := h ▸ s'.mirrors_simplify.symm
    exact s.mirrors_simplify.trans hback
  · exact Mirrors.simplify_eq

section

variable {α : Type*} {f : Statement → Option α}

/-- What is collected from two nodes and the nodes below them is the same up to order, if it is the
same for the two. -/
theorem perm_filterMap_cons {rest rest' : List Statement} (hs : f s' = f s)
    (hrest : (rest'.filterMap f).Perm (rest.filterMap f)) :
    ((s' :: rest').filterMap f).Perm ((s :: rest).filterMap f) := by
  rw [List.filterMap_cons, List.filterMap_cons, hs]
  cases f s with
  | none => exact hrest
  | some a => exact hrest.cons a

/-- **Mirrored statements have the same nodes**, up to order and to what an exchange changes. -/
theorem Mirrors.perm_filterMap_nodes (hf : ∀ s s' : Statement, s.Mirrors s' → f s' = f s)
    (h : s.Mirrors s') : (s'.nodes.filterMap f).Perm (s.nodes.filterMap f) := by
  have hroot := hf s s' h
  induction s using Statement.induction generalizing s' with
  | block body ih =>
      cases h with
      | block hbody =>
          rw [nodes, nodes]
          refine perm_filterMap_cons hroot ?_
          clear hroot
          induction hbody with
          | nil => exact .nil
          | cons hs _ ihRest =>
              rw [List.flatMap_cons, List.flatMap_cons, List.filterMap_append,
                List.filterMap_append]
              exact (ih _ List.mem_cons_self hs (hf _ _ hs)).append
                (ihRest fun t ht => ih t (List.mem_cons_of_mem _ ht))
  | ifThen c body ih =>
      cases h with
      | ifThen hbody =>
          rw [nodes, nodes]
          exact perm_filterMap_cons hroot (ih hbody (hf _ _ hbody))
  | ifElse c thenBody elseBody ihThen ihElse =>
      cases h with
      | ifElse hthen helse =>
          rw [nodes, nodes]
          refine perm_filterMap_cons hroot ?_
          rw [List.filterMap_append, List.filterMap_append]
          exact (ihThen hthen (hf _ _ hthen)).append (ihElse helse (hf _ _ helse))
      | exchange hc hthen helse =>
          rw [nodes, nodes]
          refine perm_filterMap_cons hroot ?_
          rw [List.filterMap_append, List.filterMap_append]
          exact List.perm_append_comm.trans
            ((ihThen hthen (hf _ _ hthen)).append (ihElse helse (hf _ _ helse)))
  | whileDo c body ih =>
      cases h with
      | whileDo hbody =>
          rw [nodes, nodes]
          exact perm_filterMap_cons hroot (ih hbody (hf _ _ hbody))
  | call name =>
      cases h
      exact .refl _

end

/-- Mirrored statements call the same names, up to order. -/
theorem Mirrors.perm_callNames (h : s.Mirrors s') : s'.callNames.Perm s.callNames := by
  rw [callNames_eq_filterMap_nodes, callNames_eq_filterMap_nodes]
  refine h.perm_filterMap_nodes fun t t' ht => ?_
  cases ht <;> rfl

/-- Mirrored statements call as many actions. -/
theorem Mirrors.actionCount_eq (h : s.Mirrors s') : s'.actionCount = s.actionCount := by
  rw [actionCount_eq_countP, actionCount_eq_countP]
  exact h.perm_callNames.countP_eq Action.isName

/-- Mirrored statements have the same conditions in one-way branches and in loops, up to order. -/
theorem Mirrors.perm_conditions (h : s.Mirrors s') {form : Kind} (hform : form ≠ .ifElse) :
    (s'.conditions form).Perm (s.conditions form) := by
  refine h.perm_filterMap_nodes fun t t' ht => ?_
  cases ht with
  | ifElse | exchange => rw [kind, kind, if_neg hform.symm, if_neg hform.symm]
  | block | ifThen | whileDo | call => rfl

/-- **The affirmative form is a normal form, and nothing else is changed on the way to it.** It is
affirmative, and a statement is its own affirmative form exactly if it is affirmative; so going to
the affirmative form twice is going there once. It does not matter whether names are changed before
or after. The affirmative form has as many calls of actions, the same called names, the same nesting
and the same conditions in one-way branches and in loops, up to order. Two statements have the same
affirmative form exactly if one is the other with the condition negated and the bodies exchanged at
some two-way branches. -/
theorem simplify_normalForm (s : Statement) :
    s.simplify.IsAffirmative ∧ (s.simplify = s ↔ s.IsAffirmative) ∧
    s.simplify.simplify = s.simplify ∧
    (∀ old new, (s.rename old new).simplify = s.simplify.rename old new) ∧
    s.simplify.actionCount = s.actionCount ∧ s.simplify.callNames.Perm s.callNames ∧
    s.simplify.nesting = s.nesting ∧
    (s.simplify.conditions .ifThen).Perm (s.conditions .ifThen) ∧
    (s.simplify.conditions .whileDo).Perm (s.conditions .whileDo) ∧
    ∀ s', s.simplify = s'.simplify ↔ s.Mirrors s' := by
  have haffirmative := s.isAffirmative_simplify
  have hmirrors := s.mirrors_simplify
  exact ⟨haffirmative, simplify_eq_self_iff, haffirmative.simplify_eq, fun _ _ => s.simplify_rename,
    hmirrors.actionCount_eq, hmirrors.perm_callNames, hmirrors.alike.nesting_eq,
    hmirrors.perm_conditions (by simp), hmirrors.perm_conditions (by simp),
    fun _ => simplify_eq_iff_mirrors⟩

end Statement

end RobotScript
