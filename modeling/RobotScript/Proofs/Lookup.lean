import Mathlib.Data.List.Sort
import RobotScript.Definitions

/-!
# Looking up definitions

Definitions are kept as a list in ascending order of their names. Looking a name up finds the one
entry with that name, and what can be looked up determines the list.

## Main results

* `Definitions.find?_eq_some_iff_mem`: a name has a body exactly if they are an entry together.
* `Definitions.eq_entries_of_sorted`: **entries in any order, sorted by their names, are the
  entries**.
* `Definitions.ext_find?`: **two collections in which every name has the same body are equal**.
* `Definitions.find?_mapBodies`: the bodies after a change of all bodies.
* `Definitions.find?_ofList_eq_some_iff`: the definitions of a list in which no name occurs twice
  are its entries.
-/

namespace RobotScript.Definitions

/-- What is found is an entry. -/
theorem mem_of_findIn {name : String} {body : Statement} {entries : List (String × Statement)}
    (h : findIn name entries = some body) : (name, body) ∈ entries := by
  induction entries with
  | nil => cases h
  | cons entry rest ih =>
      obtain ⟨key, old⟩ := entry
      by_cases hkey : key = name
      · rw [findIn, if_pos hkey] at h
        obtain rfl := Option.some.inj h
        rw [hkey]
        exact List.mem_cons_self
      · rw [findIn, if_neg hkey] at h
        exact List.mem_cons_of_mem _ (ih h)

/-- In an ascending list every entry is found, since no other has its name. -/
theorem findIn_of_mem {name : String} {body : Statement} {entries : List (String × Statement)}
    (hascending : entries.Pairwise fun a b => a.1 < b.1) (h : (name, body) ∈ entries) :
    findIn name entries = some body := by
  induction entries with
  | nil => cases h
  | cons entry rest ih =>
      obtain ⟨hbelow, hrest⟩ := List.pairwise_cons.mp hascending
      rcases List.mem_cons.mp h with rfl | hmem
      · rw [findIn, if_pos rfl]
      · have hlt : entry.1 < name := hbelow (name, body) hmem
        have hne : entry.1 ≠ name := by
          rintro heq
          rw [heq] at hlt
          exact String.lt_irrefl name hlt
        rw [findIn, if_neg hne, ih hrest hmem]

/-- A name has a body exactly if they are an entry together. -/
theorem find?_eq_some_iff_mem (defs : Definitions) {name : String} {body : Statement} :
    defs.find? name = some body ↔ (name, body) ∈ defs.entries :=
  ⟨mem_of_findIn, findIn_of_mem defs.ascending⟩

theorem names_ascending (defs : Definitions) : defs.names.Pairwise (· < ·) :=
  List.pairwise_map.mpr defs.ascending

/-- No name occurs twice. -/
theorem nodup_names (defs : Definitions) : defs.names.Nodup :=
  defs.names_ascending.imp Std.ne_of_lt

/-- There is one way to sort what has distinct names. -/
theorem eq_of_sorted {α : Type} {name : α → String} {ascending sorted : List α}
    (hascending : ascending.Pairwise fun a b => name a < name b) (hperm : sorted.Perm ascending)
    (hsorted : sorted.Pairwise fun a b => name a ≤ name b) : sorted = ascending := by
  have hnodup : (ascending.map name).Nodup :=
    List.pairwise_map.mpr (hascending.imp Std.ne_of_lt)
  refine List.Perm.eq_of_pairwise ?_ hsorted (hascending.imp Std.le_of_lt) hperm
  intro a b ha hb hab hba
  exact List.inj_on_of_nodup_map hnodup (hperm.mem_iff.mp ha) hb (String.le_antisymm hab hba)

/-- **Entries in any order, sorted by their names, are the entries.** -/
theorem eq_entries_of_sorted {defs : Definitions} {sorted : List (String × Statement)}
    (hperm : sorted.Perm defs.entries) (hsorted : sorted.Pairwise fun a b => a.1 ≤ b.1) :
    sorted = defs.entries :=
  eq_of_sorted defs.ascending hperm hsorted

/-- **Two collections in which every name has the same body are equal.** -/
theorem ext_find? {defs defs' : Definitions}
    (h : ∀ name body, defs.find? name = some body ↔ defs'.find? name = some body) :
    defs = defs' := by
  have : Std.Irrefl fun a b : String × Statement => a.1 < b.1 :=
    ⟨fun a => String.lt_irrefl a.1⟩
  have : Std.Antisymm fun a b : String × Statement => a.1 < b.1 :=
    ⟨fun a b hab hba => absurd (String.lt_trans hab hba) (String.lt_irrefl a.1)⟩
  have hmem : ∀ entry, entry ∈ defs.entries ↔ entry ∈ defs'.entries := fun entry => by
    rw [← find?_eq_some_iff_mem, ← find?_eq_some_iff_mem]
    exact h entry.1 entry.2
  have hentries := List.Pairwise.eq_of_mem_iff defs.ascending defs'.ascending hmem
  cases defs
  cases defs'
  obtain rfl := hentries
  rfl

theorem findIn_map (f : Statement → Statement) (name : String)
    (entries : List (String × Statement)) :
    findIn name (entries.map fun e => (e.1, f e.2)) = (findIn name entries).map f := by
  induction entries with
  | nil => rfl
  | cons entry rest ih =>
      obtain ⟨key, body⟩ := entry
      by_cases hkey : key = name
      · simp [findIn, hkey]
      · simp [findIn, hkey, ih]

/-- After a change of all bodies a name has the changed body. -/
theorem find?_mapBodies (f : Statement → Statement) (defs : Definitions) (name : String) :
    (defs.mapBodies f).find? name = (defs.find? name).map f :=
  findIn_map f name defs.entries

theorem find?_foldl_insert_eq_some_iff {entries : List (String × Statement)}
    (hnodup : (entries.map Prod.fst).Nodup) (defs : Definitions) {name : String}
    {body : Statement} :
    (entries.foldl (fun defs e => defs.insert e.1 e.2) defs).find? name = some body ↔
      (name, body) ∈ entries ∨ name ∉ entries.map Prod.fst ∧ defs.find? name = some body := by
  induction entries generalizing defs with
  | nil => simp
  | cons entry rest ih =>
      obtain ⟨key, value⟩ := entry
      obtain ⟨hfresh, hrest⟩ := List.nodup_cons.mp hnodup
      rw [List.foldl_cons, ih hrest, find?_insert]
      by_cases hkey : key = name
      · subst hkey
        have hnot : (key, body) ∉ rest := fun h => hfresh (List.mem_map.mpr ⟨_, h, rfl⟩)
        simp [hnot, hfresh, eq_comm]
      · simp [hkey, Ne.symm hkey]

/-- The definitions of a list in which no name occurs twice are its entries. -/
theorem find?_ofList_eq_some_iff {entries : List (String × Statement)}
    (hnodup : (entries.map Prod.fst).Nodup) {name : String} {body : Statement} :
    (ofList entries).find? name = some body ↔ (name, body) ∈ entries := by
  rw [ofList, find?_foldl_insert_eq_some_iff hnodup]
  simp

end RobotScript.Definitions
