import RobotScript.Statement

/-!
# Definitions of instructions

The instructions that a program defines, each a name with a body. They are kept in ascending order
of their names and each name occurs once, so that two collections with the same bodies under the
same names are equal.

## Main definitions

* `Definitions` — bodies by name.
* `Definitions.find?`, `insert`, `names`, `size`, `ofList`.
* `Definitions.mapBodies`, `Definitions.rename` — changing the bodies, or a name.
-/

namespace RobotScript

/-- Bodies by name, in ascending order of the names. -/
structure Definitions where
  entries : List (String × Statement)
  ascending : entries.Pairwise fun a b => a.1 < b.1
  deriving DecidableEq

namespace Definitions

/-- No definitions. -/
def empty : Definitions := ⟨[], .nil⟩

/-- The body that `name` has in a list of definitions. -/
def findIn (name : String) : List (String × Statement) → Option Statement
  | [] => none
  | (key, body) :: rest => if key = name then some body else findIn name rest

/-- The body of the instruction called `name`. -/
def find? (defs : Definitions) (name : String) : Option Statement :=
  findIn name defs.entries

/-- An instruction called `name` is defined. -/
def contains (defs : Definitions) (name : String) : Bool :=
  (defs.find? name).isSome

/-- The names of the instructions, in ascending order. -/
def names (defs : Definitions) : List String :=
  defs.entries.map Prod.fst

/-- The number of instructions. -/
def size (defs : Definitions) : Nat :=
  defs.entries.length

/-- An ascending list of definitions with the body of `name` set to `body`. -/
def insertIn (name : String) (body : Statement) :
    List (String × Statement) → List (String × Statement)
  | [] => [(name, body)]
  | (key, old) :: rest =>
    if name < key then (name, body) :: (key, old) :: rest
    else if name = key then (name, body) :: rest
    else (key, old) :: insertIn name body rest

theorem mem_insertIn {name : String} {body : Statement} {entries : List (String × Statement)}
    {e : String × Statement} (h : e ∈ insertIn name body entries) :
    e = (name, body) ∨ e ∈ entries := by
  fun_induction insertIn name body entries <;> grind

theorem insertIn_ascending {name : String} {body : Statement}
    {entries : List (String × Statement)} (h : entries.Pairwise fun a b => a.1 < b.1) :
    (insertIn name body entries).Pairwise fun a b => a.1 < b.1 := by
  fun_induction insertIn name body entries with
  | case1 => simp
  | case2 key old rest lt =>
    refine List.pairwise_cons.2 ⟨fun e he => ?_, h⟩
    rcases List.mem_cons.1 he with rfl | he
    · exact lt
    · exact String.lt_trans lt ((List.pairwise_cons.1 h).1 e he)
  | case3 => exact List.pairwise_cons.2 (List.pairwise_cons.1 h)
  | case4 key old rest notLt ne ih =>
    obtain ⟨below, ascending⟩ := List.pairwise_cons.1 h
    refine List.pairwise_cons.2 ⟨fun e he => ?_, ih ascending⟩
    rcases mem_insertIn he with rfl | he
    · exact Std.lt_of_le_of_ne (String.not_lt.1 notLt) (Ne.symm ne)
    · exact below e he

/-- The definitions with the body of `name` set to `body`. -/
def insert (defs : Definitions) (name : String) (body : Statement) : Definitions :=
  ⟨insertIn name body defs.entries, insertIn_ascending defs.ascending⟩

theorem findIn_insertIn (name key : String) (body : Statement)
    (entries : List (String × Statement)) :
    findIn key (insertIn name body entries) =
      if name = key then some body else findIn key entries := by
  fun_induction insertIn name body entries with
  | case1 => simp [findIn]
  | case2 => simp [findIn]
  | case3 =>
    by_cases h : name = key
    · simp [findIn, h]
    · simp [findIn, h]
  | case4 old value rest _ ne ih =>
    by_cases h : old = key
    · subst h
      simp [findIn, ne]
    · simp [findIn, h, ih]

/-- After setting a body the name has that body, and other names have the body they had. -/
theorem find?_insert (defs : Definitions) (name key : String) (body : Statement) :
    (defs.insert name body).find? key = if name = key then some body else defs.find? key :=
  findIn_insertIn name key body defs.entries

@[simp]
theorem find?_empty (key : String) : empty.find? key = none := rfl

theorem isSome_findIn_iff (key : String) (entries : List (String × Statement)) :
    (findIn key entries).isSome ↔ key ∈ entries.map Prod.fst := by
  fun_induction findIn key entries with
  | case1 => simp
  | case2 => simp
  | case3 old value rest ne ih => simp [ih, Ne.symm ne]

/-- The names are those that have a body. -/
theorem contains_iff_mem_names (defs : Definitions) (key : String) :
    defs.contains key ↔ key ∈ defs.names :=
  isSome_findIn_iff key defs.entries

/-- The definitions of a list; of two bodies for one name the later counts. -/
def ofList (entries : List (String × Statement)) : Definitions :=
  entries.foldl (fun defs e => defs.insert e.1 e.2) empty

/-- The definitions with each body changed. -/
def mapBodies (f : Statement → Statement) (defs : Definitions) : Definitions :=
  ⟨defs.entries.map fun e => (e.1, f e.2), List.pairwise_map.2 defs.ascending⟩

/-- The definitions after the name `old` was given up for `new`, in names and in calls. -/
def rename (old new : String) (defs : Definitions) : Definitions :=
  ofList (defs.entries.map fun e => (Statement.renamed old new e.1, e.2.rename old new))

end Definitions

end RobotScript
