import Mathlib.Tactic
import RobotScript.CommandLine.Files

/-!
# What is written is read back, and nothing else changes

Files in memory are found by walking through directories, and whether something is a directory
depends on the files that there are. So it is not immediate that storing a file leaves the way to it
as it was. It does: what was a directory on the way stays one, since only the place of the file
itself becomes a file, and that was no directory before. What is refused is refused before any of
this, and storing a file changes nothing about it.

## Main definitions

* `FileSystem.bytes?` — the map from places to bytes that files are.

## Main results

* `bytes?_store`: storing changes one place.
* `node?_store_of_directory`, `locate_store`: directories stay, and so does where a path leads.
* `write_eq_ok_iff`: writing stores the bytes where the path leads, unless it is refused.
* `read_of_write`: **what is written is read back**, unless reading is refused.
-/

namespace RobotScript.FileSystem

/-- The bytes of the file at a place. -/
def bytes? (fs : FileSystem) (place : List String) : Option ByteArray :=
  fs.files.lookup place

variable {fs fs' : FileSystem} {place other : List String} {bytes : ByteArray}

/-! ### Storing -/

/-- Leaving out the files at one place changes nothing at another. -/
theorem lookup_filter_ne (h : other ≠ place) (files : List (List String × ByteArray)) :
    (files.filter (·.1 ≠ place)).lookup other = files.lookup other := by
  induction files with
  | nil => rfl
  | cons file files ih =>
      obtain ⟨key, content⟩ := file
      by_cases hkey : key = place
      · have hne : (other == key) = false := beq_false_of_ne (hkey ▸ h)
        rw [List.filter_cons_of_neg (by simpa using hkey), ih, List.lookup_cons, hne]
      · rw [List.filter_cons_of_pos (by simpa using hkey), List.lookup_cons, List.lookup_cons, ih]

/-- **Storing changes one place.** -/
theorem bytes?_store (fs : FileSystem) (place other : List String) (bytes : ByteArray) :
    (fs.store place bytes).bytes? other =
      if other = place then some bytes else fs.bytes? other := by
  rw [bytes?, store, List.lookup_cons]
  split_ifs with h
  · rw [beq_iff_eq.mpr h]
  · rw [beq_false_of_ne h]
    exact lookup_filter_ne h fs.files

/-- A place without a file is a directory exactly if it leads to the working directory or to some
file. -/
theorem node?_eq_directory_iff :
    fs.node? place = some .directory ↔ fs.bytes? place = none ∧
      (place <+: fs.workingDirectory ∨ ∃ file ∈ fs.files, place <+: file.1) := by
  unfold node? bytes?
  cases fs.files.lookup place with
  | some bytes => simp
  | none => simp [or_iff_not_imp_left]

theorem node?_eq_file_iff : fs.node? place = some (.file bytes) ↔ fs.bytes? place = some bytes := by
  unfold node? bytes?
  cases fs.files.lookup place with
  | some bytes => simp
  | none => simp

/-- What is a directory stays one, if no file is stored in its place. -/
theorem node?_store_of_directory (h : fs.node? other = some .directory) (hne : other ≠ place) :
    (fs.store place bytes).node? other = some .directory := by
  obtain ⟨hnone, hleads⟩ := node?_eq_directory_iff.mp h
  refine node?_eq_directory_iff.mpr ⟨by rw [bytes?_store, if_neg hne, hnone], ?_⟩
  refine hleads.imp_right fun ⟨file, hfile, hprefix⟩ => ?_
  by_cases hplace : file.1 = place
  · exact ⟨(place, bytes), List.mem_cons_self, hplace ▸ hprefix⟩
  · exact ⟨file, List.mem_cons_of_mem _ (List.mem_filter.mpr ⟨hfile, by simpa using hplace⟩),
      hprefix⟩

/-! ### Where a path leads -/

/-- A walk goes on from a directory. -/
theorem walk_cons_eq_ok_iff {directory directory' names : List String} {name : String} :
    fs.walk directory (name :: names) = .ok directory' ↔
      ∃ next, enter directory name = .ok next ∧ fs.node? next = some .directory ∧
        fs.walk next names = .ok directory' := by
  rw [walk]
  cases enter directory name with
  | error fault => simp [bind, Except.bind]
  | ok next =>
      simp only [bind, Except.bind, Except.ok.injEq, exists_eq_left']
      rcases fs.node? next with _ | _ | _
      · simp
      · simp
      · simp

/-- A walk through directories leads to the same directory after a file is stored in a place that is
no directory. -/
theorem walk_store (hplace : fs.node? place ≠ some .directory)
    {directory directory' names : List String} (h : fs.walk directory names = .ok directory') :
    (fs.store place bytes).walk directory names = .ok directory' := by
  induction names generalizing directory with
  | nil => exact h
  | cons name names ih =>
      obtain ⟨next, henter, hnext, hrest⟩ := walk_cons_eq_ok_iff.mp h
      have hne : next ≠ place := fun heq => hplace (heq ▸ hnext)
      exact walk_cons_eq_ok_iff.mpr
        ⟨next, henter, node?_store_of_directory hnext hne, ih hrest⟩

/-- A path leads to where its last name leads from the directory that holds it. -/
theorem locate_eq_ok_iff {path : String} :
    fs.locate path = .ok place ↔ ∃ directory, fs.holder path = .ok directory ∧
      match (pathNames path).getLast? with
      | none => directory = place
      | some name => enter directory name = .ok place := by
  unfold locate
  cases fs.holder path with
  | error fault => simp [bind, Except.bind]
  | ok directory =>
      simp only [bind, Except.bind, Except.ok.injEq, exists_eq_left']
      cases (pathNames path).getLast? with
      | none => simp [pure, Except.pure]
      | some name => rfl

/-- A path leads where it led before a file was stored in a place that is no directory. -/
theorem locate_store {path : String} {place' : List String}
    (hplace : fs.node? place ≠ some .directory) (h : fs.locate path = .ok place') :
    (fs.store place bytes).locate path = .ok place' := by
  obtain ⟨directory, hholder, hlast⟩ := locate_eq_ok_iff.mp h
  refine locate_eq_ok_iff.mpr ⟨directory, ?_, hlast⟩
  unfold holder at hholder ⊢
  split_ifs at hholder ⊢
  · exact walk_store hplace hholder
  · exact walk_store hplace hholder

/-! ### Writing and reading -/

theorem permit_eq_ok_iff {task : FileTask} : fs.permit task = .ok () ↔ fs.refusal? task = none := by
  unfold permit
  cases fs.refusal? task with
  | some fault => simp
  | none => simp

/-- A write that is refused fails with the cause of that, whatever it is. -/
theorem write_of_refusal? {path : String} {fault : FileFault}
    (h : fs.refusal? (.write path bytes) = some fault) : fs.write path bytes = .error fault := by
  rw [write, permit, h]
  rfl

/-- **Writing stores the bytes where the path leads**, if it is not refused, that is no directory
and the path does not have to be one. -/
theorem write_eq_ok_iff {path : String} :
    fs.write path bytes = .ok fs' ↔
      fs.refusal? (.write path bytes) = none ∧ namesDirectory path = false ∧
        ∃ place, fs.locate path = .ok place ∧ fs.node? place ≠ some .directory ∧
          fs' = fs.store place bytes := by
  cases hrefusal : fs.refusal? (.write path bytes) with
  | some fault => simp [write_of_refusal? hrefusal]
  | none =>
      rw [write, permit_eq_ok_iff.mpr hrefusal]
      cases hholder : fs.holder path with
      | error fault =>
          have hlocate : fs.locate path = .error fault := by
            rw [locate, hholder]
            rfl
          simp [bind, Except.bind, hlocate]
      | ok directory =>
          simp only [bind, Except.bind]
          cases namesDirectory path with
          | true => simp
          | false =>
              cases fs.locate path with
              | error fault => simp
              | ok place =>
                  rcases hnode : fs.node? place with _ | _ | _
                  · simp [hnode, pure, Except.pure, eq_comm]
                  · simp [hnode, pure, Except.pure, eq_comm]
                  · simp [hnode]

/-- What is written stands where the path leads. -/
theorem exists_bytes?_of_write {path : String} (h : fs.write path bytes = .ok fs') :
    ∃ place, fs.locate path = .ok place ∧ fs'.bytes? place = some bytes := by
  obtain ⟨-, -, place, hlocate, -, rfl⟩ := write_eq_ok_iff.mp h
  exact ⟨place, hlocate, by rw [bytes?_store, if_pos rfl]⟩

/-- **What is written is read back**, unless reading is refused. -/
theorem read_of_write {path : String} (h : fs.write path bytes = .ok fs')
    (hread : fs.refusal? (.read path) = none) : fs'.read path = .ok bytes := by
  obtain ⟨-, hnames, place, hlocate, hplace, rfl⟩ := write_eq_ok_iff.mp h
  have hpermit : (fs.store place bytes).permit (.read path) = .ok () := permit_eq_ok_iff.mpr hread
  have hfile : (fs.store place bytes).node? place = some (.file bytes) := by
    rw [node?_eq_file_iff, bytes?_store, if_pos rfl]
  have hlocate' : (fs.store place bytes).locate path = .ok place := locate_store hplace hlocate
  simp [read, hpermit, hlocate', hfile, hnames, bind, Except.bind, pure, Except.pure]

/-- Writing changes nothing but the bytes at the place where the path leads. -/
theorem locate_of_bytes?_ne {path : String} (h : fs.write path bytes = .ok fs')
    (hne : fs'.bytes? place ≠ fs.bytes? place) : fs.locate path = .ok place := by
  obtain ⟨-, -, place', hlocate, -, rfl⟩ := write_eq_ok_iff.mp h
  by_cases hplace : place = place'
  · rw [hplace, hlocate]
  · rw [bytes?_store, if_neg hplace] at hne
    exact absurd rfl hne

end RobotScript.FileSystem
