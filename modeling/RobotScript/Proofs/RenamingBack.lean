import Mathlib.Tactic
import RobotScript.Proofs.Rewriting

/-!
# Renaming back

Renaming gives up a name for another, everywhere. If the new name was not there before, renaming it
back restores the program. If it was, then what had it cannot be told any more from what got it, and
renaming back takes the name away from both.

The second half follows from the first law of renaming, that the old name is gone: after renaming
back the new name is gone, so a program that mentions it is not restored. That law holds of two
instructions that collide as well, of which only one is kept.

## Main definitions

* `Program.Mentions` — the name is that of an instruction, or is called.

## Main results

* `Statement.callNames_rename`: a renamed statement calls the renamed names.
* `Definitions.exists_of_mem_entries_rename`: the entries of renamed definitions are renamed
  entries, also when names collide.
* `Program.not_mentions_rename`: **the old name is gone**.
* `Program.rename_rename_eq_iff`: **renaming back restores a program exactly if the new name was not
  there before**.
-/

namespace RobotScript

variable {old new : String}

/-! ### Names -/

namespace Statement

/-- No renamed name is the old one. -/
theorem renamed_ne (hne : old ≠ new) (name : String) : renamed old new name ≠ old := by
  unfold renamed
  split_ifs with h
  · exact hne.symm
  · exact h

/-- A name other than the new one is renamed back to itself. -/
theorem renamed_renamed {name : String} (h : name ≠ new) :
    renamed new old (renamed old new name) = name := by
  by_cases hold : name = old
  · simp [renamed, hold]
  · simp [renamed, hold, h]

/-- A renamed statement calls the renamed names. -/
theorem callNames_rename (s : Statement) :
    (s.rename old new).callNames = s.callNames.map (renamed old new) := by
  induction s using Statement.induction with
  | block body ih =>
      rw [rename, callNames, callNames, List.flatMap_map, List.map_flatMap]
      exact List.flatMap_congr ih
  | ifThen c body ih => rw [rename, callNames, callNames, ih]
  | ifElse c thenBody elseBody ihThen ihElse =>
      rw [rename, callNames, callNames, List.map_append, ihThen, ihElse]
  | whileDo c body ih => rw [rename, callNames, callNames, ih]
  | call name =>
      rw [rename, callNames, callNames]
      rfl

/-- A renamed statement does not call the old name. -/
theorem not_mem_callNames_rename (hne : old ≠ new) (s : Statement) :
    old ∉ (s.rename old new).callNames := by
  rw [callNames_rename, List.mem_map]
  rintro ⟨name, -, hname⟩
  exact renamed_ne hne name hname

/-- A statement that does not call the new name is restored by renaming back. -/
theorem rename_rename_of_not_mem {s : Statement} (h : new ∉ s.callNames) :
    (s.rename old new).rename new old = s := by
  induction s using Statement.induction with
  | block body ih =>
      rw [callNames, List.mem_flatMap, not_exists] at h
      have hmembers : ∀ s ∈ body, (s.rename old new).rename new old = s := fun s hs =>
        ih s hs fun hmem => h s ⟨hs, hmem⟩
      rw [rename, rename, List.map_map]
      exact congrArg block ((List.map_congr_left hmembers).trans (List.map_id' body))
  | ifThen c body ih =>
      rw [callNames] at h
      rw [rename, rename, ih h]
  | ifElse c thenBody elseBody ihThen ihElse =>
      rw [callNames, List.mem_append, not_or] at h
      rw [rename, rename, ihThen h.1, ihElse h.2]
  | whileDo c body ih =>
      rw [callNames] at h
      rw [rename, rename, ih h]
  | call name =>
      rw [callNames, List.mem_singleton] at h
      rw [rename, rename, renamed_renamed (Ne.symm h)]

end Statement

/-! ### Definitions -/

namespace Definitions

variable {defs : Definitions}

theorem mem_of_find?_foldl_insert {entries : List (String × Statement)} {name : String}
    {body : Statement}
    (h : (entries.foldl (fun defs e => defs.insert e.1 e.2) defs).find? name = some body) :
    (name, body) ∈ entries ∨ defs.find? name = some body := by
  induction entries generalizing defs with
  | nil => exact .inr h
  | cons entry rest ih =>
      rcases ih h with hmem | hfind
      · exact .inl (List.mem_cons_of_mem entry hmem)
      · rw [find?_insert] at hfind
        split_ifs at hfind with hkey
        · obtain rfl := Option.some.inj hfind
          exact .inl (hkey ▸ List.mem_cons_self)
        · exact .inr hfind

/-- The definitions of a list are entries of the list, whichever count for a name that occurs
twice. -/
theorem mem_of_mem_entries_ofList {entries : List (String × Statement)} {e : String × Statement}
    (h : e ∈ (ofList entries).entries) : e ∈ entries := by
  rw [← find?_eq_some_iff_mem] at h
  rcases mem_of_find?_foldl_insert h with hmem | hfind
  · exact hmem
  · cases hfind

/-- The entries of renamed definitions are renamed entries. Where two names become one, not all
renamed entries are there. -/
theorem exists_of_mem_entries_rename {e : String × Statement}
    (h : e ∈ (defs.rename old new).entries) :
    ∃ e' ∈ defs.entries, (Statement.renamed old new e'.1, e'.2.rename old new) = e :=
  List.mem_map.mp (mem_of_mem_entries_ofList h)

/-- No renamed instruction has the old name. -/
theorem contains_rename_eq_false (hne : old ≠ new) :
    (defs.rename old new).contains old = false := by
  rw [Bool.eq_false_iff, ne_eq, contains_iff_mem_names, names, List.mem_map]
  rintro ⟨e, he, hname⟩
  obtain ⟨e', -, rfl⟩ := exists_of_mem_entries_rename he
  exact Statement.renamed_ne hne e'.1 hname

/-- Definitions in which the new name does not occur are restored by renaming back. -/
theorem rename_rename_of_fresh (hne : old ≠ new) (hkey : defs.contains new = false)
    (hcalls : ∀ e ∈ defs.entries, new ∉ e.2.callNames) :
    (defs.rename old new).rename new old = defs := by
  have hthere : (defs.names.map (Statement.renamed old new)).Nodup :=
    nodup_map_renamed fun _ => .inr hkey
  have hback : ((defs.rename old new).names.map (Statement.renamed new old)).Nodup :=
    nodup_map_renamed fun _ => .inr (contains_rename_eq_false hne)
  have hnames : ∀ e ∈ defs.entries, e.1 ≠ new := by
    rintro e he rfl
    rw [(contains_iff_mem_names _ _).mpr (List.mem_map_of_mem he)] at hkey
    cases hkey
  -- there and back, an entry is itself again
  have hrestored : ∀ e ∈ defs.entries,
      (Statement.renamed new old (Statement.renamed old new e.1),
        (e.2.rename old new).rename new old) = e := fun e he => by
    rw [Statement.renamed_renamed (hnames e he),
      Statement.rename_rename_of_not_mem (hcalls e he)]
  refine ext_find? fun name body => ?_
  rw [find?_eq_some_iff_mem, find?_eq_some_iff_mem, mem_entries_rename hback]
  simp only [mem_entries_rename hthere]
  constructor
  · rintro ⟨_, ⟨e, he, rfl⟩, hmem⟩
    rw [hrestored e he] at hmem
    exact hmem ▸ he
  · intro hmem
    exact ⟨_, ⟨_, hmem, rfl⟩, hrestored _ hmem⟩

end Definitions

/-! ### Programs -/

namespace Program

/-- The name is that of an instruction, or is called in the main body or in an instruction. -/
def Mentions (p : Program) (name : String) : Prop :=
  p.definitions.contains name = true ∨ p.Calls name

/-- **The old name is gone** after renaming. -/
theorem not_mentions_rename (hne : old ≠ new) (p : Program) : ¬ (p.rename old new).Mentions old := by
  rintro (hkey | hbody | ⟨e, he, hcall⟩)
  · rw [rename, Definitions.contains_rename_eq_false hne] at hkey
    cases hkey
  · exact p.body.not_mem_callNames_rename hne hbody
  · obtain ⟨e', -, rfl⟩ := Definitions.exists_of_mem_entries_rename he
    exact e'.2.not_mem_callNames_rename hne hcall

/-- A program that does not mention the new name is restored by renaming back. -/
theorem rename_rename_of_not_mentions (hne : old ≠ new) {p : Program} (h : ¬ p.Mentions new) :
    (p.rename old new).rename new old = p := by
  obtain ⟨hkey, hcalls⟩ := not_or.mp h
  obtain ⟨hbody, hbodies⟩ := not_or.mp hcalls
  have hdefinitions : (p.definitions.rename old new).rename new old = p.definitions :=
    Definitions.rename_rename_of_fresh hne (Bool.eq_false_iff.mpr hkey) fun e he hcall =>
      hbodies ⟨e, he, hcall⟩
  have hbody' : (p.body.rename old new).rename new old = p.body :=
    Statement.rename_rename_of_not_mem hbody
  rw [rename, rename, hdefinitions, hbody']

/-- **Renaming back restores a program exactly if the new name was not there before**: no
instruction had it, and it was not called in the main body or in any instruction. In every program
the old name is gone after renaming. It makes no difference here whether both names are those of
instructions. -/
theorem rename_rename_eq_iff (p : Program) (hne : old ≠ new) :
    ((p.rename old new).rename new old = p ↔
      p.definitions.contains new = false ∧ ¬ p.Calls new) ∧
    (p.rename old new).definitions.contains old = false ∧ ¬ (p.rename old new).Calls old := by
  have hfresh : ∀ (q : Program) (name : String), ¬ q.Mentions name ↔
      q.definitions.contains name = false ∧ ¬ q.Calls name := fun q name => by
    rw [Mentions, not_or, Bool.not_eq_true]
  rw [← hfresh, ← hfresh]
  refine ⟨⟨fun h => ?_, rename_rename_of_not_mentions hne⟩, p.not_mentions_rename hne⟩
  rw [← h]
  exact not_mentions_rename hne.symm _

/-- A robot that greets by a bow and a nod; how to nod it has not learnt. -/
def courtier : Program where
  name := "Courtier"
  definitions := .ofList [("bow", .block [.call "turnleft", .call "turnright"]),
    ("greet", .ifThen (.ahead .friend false) (.block [.call "bow", .call "nod"]))]
  body := .whileDo .random (.call "greet")

/-- The bow can be called a curtsy and a bow again. It cannot be called a nod, which is called and
not defined, nor a greeting, and then be told from it. -/
theorem rename_rename_eq_iff_courtier :
    (courtier.rename "bow" "curtsy").rename "curtsy" "bow" = courtier ∧
    (courtier.rename "bow" "nod").rename "nod" "bow" ≠ courtier ∧
    (courtier.rename "bow" "greet").rename "greet" "bow" ≠ courtier := by
  have hentries : courtier.definitions.entries =
      [("bow", .block [.call "turnleft", .call "turnright"]),
        ("greet", .ifThen (.ahead .friend false) (.block [.call "bow", .call "nod"]))] := rfl
  have hcurtsy : ¬ courtier.Calls "curtsy" := by
    rw [Calls, hentries]
    simp [courtier, Statement.callNames]
  have hnod : courtier.Calls "nod" := by
    rw [Calls, hentries]
    simp [Statement.callNames]
  refine ⟨(rename_rename_eq_iff courtier (by decide)).1.mpr ⟨rfl, hcurtsy⟩, fun h => ?_,
    fun h => ?_⟩
  · exact ((rename_rename_eq_iff courtier (by decide)).1.mp h).2 hnod
  · have hgreet := ((rename_rename_eq_iff courtier (by decide)).1.mp h).1
    cases hgreet

end Program

end RobotScript
