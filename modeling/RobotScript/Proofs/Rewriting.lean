import Mathlib.Tactic
import RobotScript.Proofs.BranchExchange
import RobotScript.Proofs.Renaming
import RobotScript.Proofs.RoundTrip

/-!
# Rewriting programs that can be written

A program that has been read can be written and read back. Exchanging the branches of negative tests
and renaming keep it so, any number of times, as long as new names can be spelled and do not collide
with the names that are there. Both rewrites leave the shape of a statement as it is, up to the
order of the bodies of a branch, and a shape is all that the rules about sequences and nesting see.

## Main definitions

* `Statement.Alike` — statements of the same shape.
* `Program.CanRename` — the new name can take the place of the old one.
* `Program.Rewrites` — one rewrite.

## Main results

* `Statement.Alike.isRegular_eq`, `Statement.Alike.nesting_eq`: the shape decides where sequences
  stand and how deep the nesting is.
* `Definitions.perm_names_rename`: renaming keeps the instructions apart.
* `Program.Rewrites.canonical`: **a rewrite keeps a program canonical**.
* `Program.parse_render_of_rewrites`: **after any number of rewrites a program that was read can be
  written and read back**.
-/

namespace RobotScript

variable {old new : String}

namespace Statement

/-! ### Shapes -/

/-- The statements have the same shape, and where one calls a name the other calls a related one.
They may differ in their conditions and in the order of the bodies of a two-way branch. -/
inductive Alike (called : String → String → Prop) : Statement → Statement → Prop
  | block {body body' : List Statement} :
      List.Forall₂ (Alike called) body body' → Alike called (.block body) (.block body')
  | ifThen {c c' : Condition} {body body' : Statement} :
      Alike called body body' → Alike called (.ifThen c body) (.ifThen c' body')
  | ifElse {c c' : Condition} {thenBody thenBody' elseBody elseBody' : Statement} :
      Alike called thenBody thenBody' → Alike called elseBody elseBody' →
      Alike called (.ifElse c thenBody elseBody) (.ifElse c' thenBody' elseBody')
  | exchange {c c' : Condition} {thenBody thenBody' elseBody elseBody' : Statement} :
      Alike called thenBody thenBody' → Alike called elseBody elseBody' →
      Alike called (.ifElse c thenBody elseBody) (.ifElse c' elseBody' thenBody')
  | whileDo {c c' : Condition} {body body' : Statement} :
      Alike called body body' → Alike called (.whileDo c body) (.whileDo c' body')
  | call {name name' : String} : called name name' → Alike called (.call name) (.call name')

/-- Renaming keeps the shape. -/
theorem alike_rename (s : Statement) :
    s.Alike (fun name name' => name' = renamed old new name) (s.rename old new) := by
  induction s using Statement.induction with
  | block body ih =>
      rw [rename]
      exact .block (List.forall₂_map_right_iff.mpr (List.forall₂_same.mpr ih))
  | ifThen c body ih =>
      rw [rename]
      exact .ifThen ih
  | ifElse c thenBody elseBody ihThen ihElse =>
      rw [rename]
      exact .ifElse ihThen ihElse
  | whileDo c body ih =>
      rw [rename]
      exact .whileDo ih
  | call name =>
      rw [rename]
      exact .call rfl

/-- Exchanging branches keeps the shape, and the names that are called. -/
theorem Mirrors.alike {s s' : Statement} (h : s.Mirrors s') : s.Alike (· = ·) s' := by
  induction s using Statement.induction generalizing s' with
  | block body ih =>
      cases h with
      | block hbody =>
          have hmembers := (List.forall₂_and_left body _).mpr ⟨ih, hbody⟩
          exact .block (hmembers.imp fun _ _ hs => hs.1 hs.2)
  | ifThen c body ih =>
      cases h with
      | ifThen hbody => exact .ifThen (ih hbody)
  | ifElse c thenBody elseBody ihThen ihElse =>
      cases h with
      | ifElse hthen helse => exact .ifElse (ihThen hthen) (ihElse helse)
      | exchange _ hthen helse => exact .exchange (ihThen hthen) (ihElse helse)
  | whileDo c body ih =>
      cases h with
      | whileDo hbody => exact .whileDo (ih hbody)
  | call name =>
      cases h
      exact .call rfl

variable {called : String → String → Prop} {s s' : Statement}

/-- Sequences are alike to sequences only. -/
theorem Alike.isBlock_eq (h : s.Alike called s') : s'.isBlock = s.isBlock := by
  cases h <;> rfl

/-- The shape decides where sequences stand. -/
theorem Alike.isRegular_eq (h : s.Alike called s') : s'.isRegular = s.isRegular := by
  induction s using Statement.induction generalizing s' with
  | block body ih =>
      cases h with
      | block hbody =>
          rw [isRegular, isRegular]
          induction hbody with
          | nil => rfl
          | cons hs _ ihRest =>
              rw [isRegularAll, isRegularAll, hs.isBlock_eq, ih _ List.mem_cons_self hs,
                ihRest fun t ht => ih t (List.mem_cons_of_mem _ ht)]
  | ifThen c body ih =>
      cases h with
      | ifThen hbody => rw [isRegular, isRegular, hbody.isBlock_eq, ih hbody]
  | ifElse c thenBody elseBody ihThen ihElse =>
      cases h with
      | ifElse hthen helse =>
          rw [isRegular, isRegular, hthen.isBlock_eq, helse.isBlock_eq, ihThen hthen, ihElse helse]
      | exchange hthen helse =>
          rw [isRegular, isRegular, hthen.isBlock_eq, helse.isBlock_eq, ihThen hthen, ihElse helse,
            Bool.and_comm]
  | whileDo c body ih =>
      cases h with
      | whileDo hbody => rw [isRegular, isRegular, hbody.isBlock_eq, ih hbody]
  | call name =>
      cases h
      rfl

/-- The shape decides how deep the nesting is. -/
theorem Alike.nesting_eq (h : s.Alike called s') : s'.nesting = s.nesting := by
  induction s using Statement.induction generalizing s' with
  | block body ih =>
      cases h with
      | block hbody =>
          rw [nesting, nesting]
          induction hbody with
          | nil => rfl
          | cons hs _ ihRest =>
              rw [nestingAll, nestingAll, ih _ List.mem_cons_self hs,
                ihRest fun t ht => ih t (List.mem_cons_of_mem _ ht)]
  | ifThen c body ih =>
      cases h with
      | ifThen hbody => rw [nesting, nesting, ih hbody]
  | ifElse c thenBody elseBody ihThen ihElse =>
      cases h with
      | ifElse hthen helse => rw [nesting, nesting, ihThen hthen, ihElse helse]
      | exchange hthen helse => rw [nesting, nesting, ihThen hthen, ihElse helse, Nat.max_comm]
  | whileDo c body ih =>
      cases h with
      | whileDo hbody => rw [nesting, nesting, ih hbody]
  | call name =>
      cases h
      rfl

/-- Each name that is called comes from a name that was called. -/
theorem Alike.exists_called (h : s.Alike called s') {name' : String}
    (hname : name' ∈ s'.callNames) : ∃ name ∈ s.callNames, called name name' := by
  induction s using Statement.induction generalizing s' with
  | block body ih =>
      cases h with
      | block hbody =>
          rw [callNames] at hname ⊢
          induction hbody with
          | nil => cases hname
          | cons hs _ ihRest =>
              simp only [List.flatMap_cons, List.mem_append] at hname ⊢
              rcases hname with hhead | htail
              · obtain ⟨name, hmem, hcalled⟩ := ih _ List.mem_cons_self hs hhead
                exact ⟨name, .inl hmem, hcalled⟩
              · obtain ⟨name, hmem, hcalled⟩ :=
                  ihRest (fun t ht => ih t (List.mem_cons_of_mem _ ht)) htail
                exact ⟨name, .inr hmem, hcalled⟩
  | ifThen c body ih =>
      cases h with
      | ifThen hbody =>
          rw [callNames] at hname ⊢
          exact ih hbody hname
  | ifElse c thenBody elseBody ihThen ihElse =>
      simp only [callNames, List.mem_append, or_and_right, exists_or]
      cases h with
      | ifElse hthen helse =>
          rw [callNames, List.mem_append] at hname
          exact hname.imp (ihThen hthen) (ihElse helse)
      | exchange hthen helse =>
          rw [callNames, List.mem_append] at hname
          exact (hname.imp (ihElse helse) (ihThen hthen)).symm
  | whileDo c body ih =>
      cases h with
      | whileDo hbody =>
          rw [callNames] at hname ⊢
          exact ih hbody hname
  | call name =>
      cases h with
      | call hcalled =>
          rw [callNames, List.mem_singleton] at hname
          obtain rfl := hname
          exact ⟨name, by rw [callNames]; exact List.mem_cons_self, hcalled⟩

/-- What is alike to a canonical body is canonical, if the names that it calls are identifiers. -/
theorem CanonicalBody.of_alike (h : s.CanonicalBody) (halike : s.Alike called s')
    (hcalled : ∀ name name', called name name' → isIdentifier name = true →
      isIdentifier name' = true) : s'.CanonicalBody where
  isBlock := halike.isBlock_eq.trans h.isBlock
  isRegular := halike.isRegular_eq.trans h.isRegular
  calls name' hname := by
    obtain ⟨name, hmem, hrelated⟩ := halike.exists_called hname
    exact hcalled name name' hrelated (h.calls name hmem)
  nesting := halike.nesting_eq.trans_le h.nesting

/-- A renamed identifier is one, if the new name is. -/
theorem isIdentifier_renamed (hnew : isIdentifier new = true) {name : String}
    (h : isIdentifier name = true) : isIdentifier (renamed old new name) = true := by
  unfold renamed
  split_ifs
  · exact hnew
  · exact h

/-- Renaming keeps a body canonical. -/
theorem CanonicalBody.rename (h : s.CanonicalBody) (hnew : isIdentifier new = true) :
    (s.rename old new).CanonicalBody := by
  refine h.of_alike s.alike_rename ?_
  rintro name _ rfl hname
  exact isIdentifier_renamed hnew hname

/-- Exchanging the branches of negative tests keeps a body canonical. -/
theorem CanonicalBody.simplify (h : s.CanonicalBody) : s.simplify.CanonicalBody := by
  refine h.of_alike s.mirrors_simplify.alike ?_
  rintro name _ rfl hname
  exact hname

end Statement

/-! ### Definitions -/

namespace Definitions

variable {defs : Definitions}

/-- If the new name is that of no other instruction, no two instructions get the same name. -/
theorem nodup_map_renamed
    (h : defs.contains old = true → new = old ∨ defs.contains new = false) :
    (defs.names.map (Statement.renamed old new)).Nodup := by
  -- a name other than the old one is not what the old one becomes
  have hapart : ∀ a ∈ defs.names, ∀ b ∈ defs.names, a = old → b ≠ old → new ≠ b := by
    rintro a ha b hb rfl hne rfl
    rcases h ((contains_iff_mem_names _ _).mpr ha) with heq | hfree
    · exact hne heq
    · rw [(contains_iff_mem_names _ _).mpr hb] at hfree
      cases hfree
  refine defs.nodup_names.map_on fun a ha b hb heq => ?_
  unfold Statement.renamed at heq
  split_ifs at heq with haold hbold hbold
  · rw [haold, hbold]
  · exact absurd heq (hapart a ha b hb haold hbold)
  · exact absurd heq.symm (hapart b hb a ha hbold haold)
  · exact heq

/-- **Renaming keeps the instructions apart**: their names are the renamed names. -/
theorem perm_names_rename
    (h : defs.contains old = true → new = old ∨ defs.contains new = false) :
    (defs.rename old new).names.Perm (defs.names.map (Statement.renamed old new)) := by
  have hnodup := nodup_map_renamed h
  refine (List.perm_ext_iff_of_nodup (nodup_names _) hnodup).mpr fun name => ?_
  simp only [names, List.mem_map, mem_entries_rename hnodup]
  constructor
  · rintro ⟨e, ⟨e', he', rfl⟩, rfl⟩
    exact ⟨e'.1, ⟨e', he', rfl⟩, rfl⟩
  · rintro ⟨key, ⟨e', he', rfl⟩, rfl⟩
    exact ⟨_, ⟨e', he', rfl⟩, rfl⟩

/-- Renaming keeps the number of instructions. -/
theorem size_rename
    (h : defs.contains old = true → new = old ∨ defs.contains new = false) :
    (defs.rename old new).size = defs.size := by
  have hlength := (perm_names_rename h).length_eq
  simpa [names, size] using hlength

end Definitions

/-! ### Programs -/

namespace Program

/-- The name `new` can take the place of `old` in the program. It is an identifier. If `old` is the
name of an instruction, `new` is the same name, or the name of no action and of no instruction. -/
structure CanRename (p : Program) (old new : String) : Prop where
  isIdentifier : isIdentifier new = true
  free : p.definitions.contains old = true →
    new = old ∨ Action.isName new = false ∧ p.definitions.contains new = false

/-- One rewrite leads from the first program to the second. -/
inductive Rewrites : Program → Program → Prop
  | simplify (p : Program) : Rewrites p p.simplify
  | rename {p : Program} {old new : String} : p.CanRename old new → Rewrites p (p.rename old new)

variable {p q : Program}

/-- The new name is that of no other instruction. -/
theorem CanRename.free_key (h : p.CanRename old new) :
    p.definitions.contains old = true → new = old ∨ p.definitions.contains new = false :=
  fun hold => (h.free hold).imp_right And.right

/-- Exchanging the branches of negative tests keeps a program canonical. -/
theorem Canonical.simplify (h : p.Canonical) : p.simplify.Canonical where
  name := h.name
  keys := by
    have hnames : p.simplify.definitions.names = p.definitions.names := by
      simp [Program.simplify, Definitions.mapBodies, Definitions.names]
    rw [hnames]
    exact h.keys
  body := h.body.simplify
  bodies e he := by
    obtain ⟨e', he', rfl⟩ := List.mem_map.mp he
    exact (h.bodies e' he').simplify

/-- Renaming keeps a program canonical. -/
theorem Canonical.rename (h : p.Canonical) (hnew : p.CanRename old new) :
    (p.rename old new).Canonical where
  name := h.name
  keys key hkey := by
    obtain ⟨name, hname, rfl⟩ :=
      List.mem_map.mp ((Definitions.perm_names_rename hnew.free_key).mem_iff.mp hkey)
    by_cases hold : name = old
    · subst hold
      rw [Statement.renamed, if_pos rfl]
      rcases hnew.free ((Definitions.contains_iff_mem_names _ _).mpr hname) with heq | hfree
      · rw [heq]
        exact h.keys _ hname
      · exact ⟨hnew.isIdentifier, hfree.1⟩
    · rw [Statement.renamed, if_neg hold]
      exact h.keys _ hname
  body := h.body.rename hnew.isIdentifier
  bodies e he := by
    have hnodup := Definitions.nodup_map_renamed hnew.free_key
    obtain ⟨e', he', rfl⟩ := (Definitions.mem_entries_rename hnodup).mp he
    exact (h.bodies e' he').rename hnew.isIdentifier

/-- **A rewrite keeps a program canonical.** -/
theorem Rewrites.canonical (h : p.Rewrites q) (hp : p.Canonical) : q.Canonical := by
  cases h with
  | simplify => exact hp.simplify
  | rename hnew => exact hp.rename hnew

/-- A rewrite keeps the number of instructions. -/
theorem Rewrites.size_eq (h : p.Rewrites q) : q.definitions.size = p.definitions.size := by
  cases h with
  | simplify => simp [Program.simplify, Definitions.mapBodies, Definitions.size]
  | rename hnew => exact Definitions.size_rename hnew.free_key

/-- What one rewrite keeps, any number of rewrites keep. -/
theorem canonical_of_rewrites (h : Relation.ReflTransGen Rewrites p q) (hp : p.Canonical) :
    q.Canonical ∧ q.definitions.size = p.definitions.size := by
  induction h with
  | refl => exact ⟨hp, rfl⟩
  | tail _ hstep ih => exact ⟨hstep.canonical ih.1, hstep.size_eq.trans ih.2⟩

/-- **Rewriting keeps a program that was read fit to be written and read back.** After any number of
exchanges of branches and of renamings with new names that fit, the text of the program's layout is
read as the program. It has as many instructions as before, and their names are distinct identifiers
and not those of actions. -/
theorem parse_render_of_rewrites {source : String} (h : Program.parse source = .ok p)
    (hrewrites : Relation.ReflTransGen Rewrites p q) :
    Program.parse q.render = .ok q ∧
      q.definitions.names.Nodup ∧ q.definitions.size = p.definitions.size ∧
      ∀ key ∈ q.definitions.names, isIdentifier key = true ∧ Action.isName key = false := by
  obtain ⟨hq, hsize⟩ := canonical_of_rewrites hrewrites (canonical_of_parse h)
  exact ⟨hq.parse_render, q.definitions.nodup_names, hsize, hq.keys⟩

/-- A robot that hops if it can, and peeps, which it has not learnt. -/
def hopper : Program where
  name := "Hopper"
  definitions := .ofList [("hop", .block [.ifElse (.ahead .empty true) (.block [.call "turnleft"])
    (.block [.call "move", .call "hop"])])]
  body := .block [.call "hop", .call "peep"]

/-- A text of the robot. -/
def hopperText : String :=
  "PROGRAM Hopper IS
    INSTRUCTION hop IS
      IF next-is-not-empty THEN turnleft ELSE move hop END IF
    END hop
  BEGIN hop peep END Hopper"

/-- The robot hops under another name, with its branches exchanged, and infects where it was to
peep. The name that is given up there is not that of an instruction, so the new one may be that of
an action. -/
def leaper : Program where
  name := "Hopper"
  definitions := .ofList [("leap", .block [.ifElse (.ahead .empty false)
    (.block [.call "move", .call "leap"]) (.block [.call "turnleft"])])]
  body := .block [.call "leap", .call "infect"]

/-- The second robot comes from the text of the first, and can be written and read. -/
theorem parse_render_of_rewrites_leaper :
    Program.parse hopperText = .ok hopper ∧
    Relation.ReflTransGen Rewrites hopper leaper ∧ Program.parse leaper.render = .ok leaper := by
  have hparse : Program.parse hopperText = .ok hopper := by decide +kernel
  have hhop : hopper.simplify.CanRename "hop" "leap" := ⟨rfl, fun _ => .inr ⟨rfl, rfl⟩⟩
  have hpeep : (hopper.simplify.rename "hop" "leap").CanRename "peep" "infect" := by
    have hunknown : (hopper.simplify.rename "hop" "leap").definitions.contains "peep" = false := by
      decide +kernel
    exact ⟨rfl, fun h => absurd (h.symm.trans hunknown) Bool.noConfusion⟩
  have hrewrites : Relation.ReflTransGen Rewrites hopper leaper := by
    have hleaper : (hopper.simplify.rename "hop" "leap").rename "peep" "infect" = leaper := by cbv
    rw [← hleaper]
    exact .tail (.tail (.single (.simplify hopper)) (.rename hhop)) (.rename hpeep)
  exact ⟨hparse, hrewrites, (parse_render_of_rewrites hparse hrewrites).1⟩

end Program

end RobotScript
