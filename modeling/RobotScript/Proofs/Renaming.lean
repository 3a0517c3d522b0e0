import Mathlib.Tactic
import RobotScript.Proofs.BoundedExpansion
import RobotScript.Proofs.Lookup

/-!
# Renaming an instruction

The names of instructions are gone from the code, so giving one of them up for another changes
nothing there. The new name must be free: no action and no instruction has it. It need not be
unheard of, since a body that no call leads to may call it; in a program that has code, no other
body can. Where the program has no code, such calls would matter, because they are what is reported,
or stop being undefined.

Renaming maps both names to one, so it is not injective. It is injective on the names other than the
new one, and these are the only names that generating code looks up on its way to an outcome.

## Main definitions

* `CompileError.rename` — the error with one name in place of another.
* `Program.Calls` — the name is called in the main body or in an instruction.

## Main results

* `Definitions.mem_entries_rename`: the entries of the renamed definitions.
* `Definitions.find?_rename`: the renamed definitions, looked up under renamed names.
* `Statement.emit_rename_of_ok`, `Statement.emit_rename_of_error`: **generating code commutes with
  renaming**, where it succeeds and where it fails.
* `Program.compile_rename`: a renamed program has the same code, or the renamed error.
-/

namespace RobotScript

open Logged

/-- The error after the name `old` was given up for `new`. -/
def CompileError.rename (old new : String) : CompileError → CompileError
  | undefined name => undefined (Statement.renamed old new name)
  | recursive chain => recursive (chain.map (Statement.renamed old new))
  | tooDeep limit chain => tooDeep limit (chain.map (Statement.renamed old new))

/-- The program calls the name, in its main body or in the body of an instruction. -/
def Program.Calls (p : Program) (name : String) : Prop :=
  name ∈ p.body.callNames ∨ ∃ e ∈ p.definitions.entries, name ∈ e.2.callNames

variable {old new : String}

/-! ### Names -/

namespace Statement

/-- Of the names other than the new one, no two become the same. -/
theorem renamed_injOn : Set.InjOn (renamed old new) {name | name ≠ new} := by
  intro a ha b hb h
  unfold renamed at h
  split_ifs at h with hold hold' hold'
  · rw [hold, hold']
  · exact absurd h.symm hb
  · exact absurd h ha
  · exact h

/-- A renamed name is an action's exactly if it was one before. -/
theorem ofName?_renamed (hold : Action.ofName? old = none) (hnew : Action.ofName? new = none)
    (name : String) : Action.ofName? (renamed old new name) = Action.ofName? name := by
  unfold renamed
  split_ifs with h
  · rw [h, hold, hnew]
  · rfl

/-- A name that is among renamed names was among the names before. -/
theorem mem_of_renamed_mem_map {chain : List String} {name : String} (hchain : new ∉ chain)
    (hname : name ≠ new) (h : renamed old new name ∈ chain.map (renamed old new)) :
    name ∈ chain := by
  obtain ⟨key, hkey, heq⟩ := List.mem_map.mp h
  have hne : key ≠ new := fun h => hchain (h ▸ hkey)
  rwa [renamed_injOn hne hname heq] at hkey

/-- The circle of calls that closes with a name is the renamed circle. -/
theorem dropWhile_map_renamed {chain : List String} {name : String} (hchain : new ∉ chain)
    (hname : name ≠ new) :
    (chain.map (renamed old new)).dropWhile (· ≠ renamed old new name) =
      (chain.dropWhile (· ≠ name)).map (renamed old new) := by
  induction chain with
  | nil => rfl
  | cons key rest ih =>
      have hkey : key ≠ new := fun h => hchain (h ▸ List.mem_cons_self)
      have hrest : new ∉ rest := fun h => hchain (List.mem_cons_of_mem _ h)
      by_cases h : key = name
      · simp [h]
      · have h' : renamed old new key ≠ renamed old new name := fun heq =>
          h (renamed_injOn hkey hname heq)
        rw [List.map_cons, List.dropWhile_cons_of_pos (by simpa using h'),
          List.dropWhile_cons_of_pos (by simpa using h), ih hrest]

end Statement

/-! ### Definitions -/

namespace Definitions

variable {defs : Definitions}

/-- A defined name is not one that is free. -/
theorem ne_of_find? (hfree : defs.find? new = none) {name : String} {body : Statement}
    (hfind : defs.find? name = some body) : name ≠ new := by
  rintro rfl
  rw [hfree] at hfind
  cases hfind

/-- If no two names become the same, the renamed entries are the entries of the renamed
definitions. -/
theorem mem_entries_rename (hnodup : (defs.names.map (Statement.renamed old new)).Nodup)
    {e : String × Statement} :
    e ∈ (defs.rename old new).entries ↔
      ∃ e' ∈ defs.entries, (Statement.renamed old new e'.1, e'.2.rename old new) = e := by
  have hnames : (defs.entries.map fun e =>
      (Statement.renamed old new e.1, e.2.rename old new)).map Prod.fst =
        defs.names.map (Statement.renamed old new) := by simp [names]
  rw [← find?_eq_some_iff_mem, rename, find?_ofList_eq_some_iff (hnames ▸ hnodup), List.mem_map]

/-- If the new name is free, the renamed definitions have the renamed bodies under the renamed
names. -/
theorem find?_rename (hfree : defs.find? new = none) {name : String} (hname : name ≠ new) :
    (defs.rename old new).find? (Statement.renamed old new name) =
      (defs.find? name).map (Statement.rename old new) := by
  have hkeys : ∀ e ∈ defs.entries, e.1 ≠ new := fun e he =>
    ne_of_find? hfree ((find?_eq_some_iff_mem defs).mpr he)
  have hnodup : (defs.names.map (Statement.renamed old new)).Nodup := by
    refine defs.nodup_names.map_on fun a ha b hb h => ?_
    obtain ⟨e, he, rfl⟩ := List.mem_map.mp ha
    obtain ⟨e', he', rfl⟩ := List.mem_map.mp hb
    exact Statement.renamed_injOn (hkeys e he) (hkeys e' he') h
  ext body
  rw [find?_eq_some_iff_mem, mem_entries_rename hnodup, Option.map_eq_some_iff]
  constructor
  · rintro ⟨⟨key, inner⟩, he, heq⟩
    obtain ⟨hkey, rfl⟩ := Prod.mk.inj heq
    obtain rfl : key = name := Statement.renamed_injOn (hkeys _ he) hname hkey
    exact ⟨inner, (find?_eq_some_iff_mem defs).mpr he, rfl⟩
  · rintro ⟨inner, hfind, rfl⟩
    exact ⟨(name, inner), (find?_eq_some_iff_mem defs).mp hfind, rfl⟩

/-- What was defined is defined under the renamed name, with the renamed body. -/
theorem find?_rename_of_some (hfree : defs.find? new = none) {name : String} {body : Statement}
    (hfind : defs.find? name = some body) :
    (defs.rename old new).find? (Statement.renamed old new name) =
      some (body.rename old new) := by
  rw [find?_rename hfree (ne_of_find? hfree hfind), hfind, Option.map_some]

end Definitions

/-! ### Generating code -/

namespace Statement

variable {defs : Definitions} {chain : List String} {levels start : Nat} {s : Statement}

/-- A sequence stays one. -/
theorem block?_rename (s : Statement) :
    (s.rename old new).block? = s.block?.map (List.map (rename old new)) := by
  cases s <;> simp [rename, block?]

/-- The renamed call of an instruction has the outcome of the renamed body. -/
theorem emit_rename_call (hold : Action.ofName? old = none) (hnew : Action.ofName? new = none)
    (hfree : defs.find? new = none) (hchain : new ∉ chain) {name : String} {body : Statement}
    (hact : Action.ofName? name = none) (hfind : defs.find? name = some body)
    (hmem : name ∉ chain) :
    (emit (defs.rename old new) (chain.map (renamed old new)) (levels + 1) start
      ((call name).rename old new)).outcome =
      (emit (defs.rename old new) ((chain ++ [name]).map (renamed old new)) levels start
        (body.rename old new)).outcome := by
  have hact' := (ofName?_renamed hold hnew name).trans hact
  have hmem' : renamed old new name ∉ chain.map (renamed old new) := fun h =>
    hmem (mem_of_renamed_mem_map hchain (Definitions.ne_of_find? hfree hfind) h)
  rw [rename, emit_call_instruction_outcome hact' (Definitions.find?_rename_of_some hfree hfind)
    hmem', List.map_append, List.map_singleton]

/-- Inside the body of an instruction the new name is not being inserted either. -/
theorem not_mem_chain_append (hfree : defs.find? new = none) (hchain : new ∉ chain)
    {name : String} {body : Statement} (hfind : defs.find? name = some body) :
    new ∉ chain ++ [name] := by
  simp [hchain, (Definitions.ne_of_find? hfree hfind).symm]

/-- **What has code has the same code after renaming.** Generating it meets no call of the new name,
which is not defined. -/
theorem emit_rename_of_ok (hold : Action.ofName? old = none) (hnew : Action.ofName? new = none)
    (hfree : defs.find? new = none) (hchain : new ∉ chain) {code : List Instr}
    (h : (emit defs chain levels start s).outcome = .ok code) :
    (emit (defs.rename old new) (chain.map (renamed old new)) levels start
      (s.rename old new)).outcome = .ok code := by
  revert hchain
  refine @emit_induction defs chain levels start code
    (fun chain levels start s code => new ∉ chain →
      (emit (defs.rename old new) (chain.map (renamed old new)) levels start
        (s.rename old new)).outcome = .ok code)
    (fun chain levels start body code => new ∉ chain →
      (emitAll (defs.rename old new) (chain.map (renamed old new)) levels start
        (body.map (rename old new))).outcome = .ok code) ?block ?ifThen ?ifElse ?whileDo ?action
      ?instruction ?nil ?cons s h
  case block =>
    intro chain levels start body code ih hchain
    rw [rename, emit_block]
    exact ih hchain
  case ifThen =>
    intro chain levels start c body code ih hchain
    rw [rename]
    exact emit_ifThen_eq_ok_iff.mpr ⟨code, ih hchain, rfl⟩
  case ifElse =>
    intro chain levels start c _ _ thenCode elseCode ihThen ihElse hchain
    rw [rename]
    exact emit_ifElse_eq_ok_iff.mpr ⟨thenCode, elseCode, ihThen hchain, ihElse hchain, rfl⟩
  case whileDo =>
    intro chain levels start c body code ih hchain
    rw [rename]
    exact emit_whileDo_eq_ok_iff.mpr ⟨code, ih hchain, rfl⟩
  case action =>
    intro chain levels start name action hact hchain
    rw [rename, emit_call_action ((ofName?_renamed hold hnew name).trans hact), outcome_pure]
  case instruction =>
    intro chain levels start name body code hact hfind hmem ih hchain
    rw [emit_rename_call hold hnew hfree hchain hact hfind hmem]
    exact ih (not_mem_chain_append hfree hchain hfind)
  case nil =>
    intro chain levels start _
    rw [List.map_nil, emitAll_nil, outcome_pure]
  case cons =>
    intro chain levels start s rest first later ih ihRest hchain
    exact emitAll_cons_eq_ok_iff.mpr ⟨first, later, ih hchain, ihRest hchain, rfl⟩

/-- **What has no code has the renamed error after renaming**, unless a call of the new name is the
error. -/
theorem emit_rename_of_error (hold : Action.ofName? old = none) (hnew : Action.ofName? new = none)
    (hfree : defs.find? new = none) (hchain : new ∉ chain) {e : CompileError}
    (h : (emit defs chain levels start s).outcome = .error e) (he : e ≠ .undefined new) :
    (emit (defs.rename old new) (chain.map (renamed old new)) levels start
      (s.rename old new)).outcome = .error (e.rename old new) := by
  revert hchain he
  refine @emit_error_induction defs chain levels start e
    (fun chain levels start s e => new ∉ chain → e ≠ .undefined new →
      (emit (defs.rename old new) (chain.map (renamed old new)) levels start
        (s.rename old new)).outcome = .error (e.rename old new))
    (fun chain levels start body e => new ∉ chain → e ≠ .undefined new →
      (emitAll (defs.rename old new) (chain.map (renamed old new)) levels start
        (body.map (rename old new))).outcome = .error (e.rename old new))
    ?block ?noLevel ?ifThen ?thenBody ?elseBody ?whileDo ?undefined ?recursive ?instruction ?first
      ?later s h
  case block =>
    intro chain levels start body e ih hchain he
    rw [rename, emit_block]
    exact ih hchain he
  case noLevel =>
    intro chain start s hs hchain he
    have hs' : (s.rename old new).block? = none := by rw [block?_rename, hs, Option.map_none]
    rw [emit_zero hs', outcome_fail, CompileError.rename]
  case ifThen =>
    intro chain levels start c body e ih hchain he
    rw [rename]
    exact emit_ifThen_eq_error_iff.mpr (ih hchain he)
  case thenBody =>
    intro chain levels start c thenBody elseBody e ih hchain he
    rw [rename]
    exact emit_ifElse_eq_error_iff.mpr (.inl (ih hchain he))
  case elseBody =>
    -- After the code of the first body.
    intro chain levels start c thenBody elseBody thenCode e hthen ih hchain he
    have hthen' := emit_rename_of_ok hold hnew hfree hchain hthen
    rw [rename]
    exact emit_ifElse_eq_error_iff.mpr (.inr ⟨thenCode, hthen', ih hchain he⟩)
  case whileDo =>
    intro chain levels start c body e ih hchain he
    rw [rename]
    exact emit_whileDo_eq_error_iff.mpr (ih hchain he)
  case undefined =>
    intro chain levels start name hact hfind hchain he
    have hname : name ≠ new := fun h => he (by rw [h])
    have hact' := (ofName?_renamed hold hnew name).trans hact
    have hfind' : (defs.rename old new).find? (renamed old new name) = none := by
      rw [Definitions.find?_rename hfree hname, hfind, Option.map_none]
    rw [rename, emit_call_undefined hact' hfind', outcome_fail, CompileError.rename]
  case recursive =>
    intro chain levels start name body hact hfind hmem hchain he
    have hact' := (ofName?_renamed hold hnew name).trans hact
    rw [rename, emit_call_recursive hact' (Definitions.find?_rename_of_some hfree hfind)
      (List.mem_map_of_mem hmem), outcome_fail, CompileError.rename,
      dropWhile_map_renamed hchain (Definitions.ne_of_find? hfree hfind), List.map_append,
      List.map_singleton]
  case instruction =>
    intro chain levels start name body e hact hfind hmem ih hchain he
    rw [emit_rename_call hold hnew hfree hchain hact hfind hmem]
    exact ih (not_mem_chain_append hfree hchain hfind) he
  case first =>
    intro chain levels start s rest e ih hchain he
    exact emitAll_cons_eq_error_iff.mpr (.inl (ih hchain he))
  case later =>
    -- After the code of the statements before.
    intro chain levels start s rest code e hs ih hchain he
    have hs' := emit_rename_of_ok hold hnew hfree hchain hs
    exact emitAll_cons_eq_error_iff.mpr (.inr ⟨code, hs', ih hchain he⟩)

end Statement

/-! ### Programs -/

/-- If a program does not call a name, compiling it does not report the name as undefined. -/
theorem Program.compile_ne_undefined {p : Program} {name : String} (h : ¬ p.Calls name)
    {e : CompileError} (he : p.compile.outcome = .error e) : e ≠ .undefined name := by
  rintro rfl
  obtain ⟨hreach, -⟩ :=
    Statement.reaches_of_emit_undefined (Statement.compile_eq_error_iff.mp he)
  rcases Statement.reaches_iff_callsInstruction.mp hreach with hcall | ⟨key, body, -, hfind, hcall⟩
  · exact h (.inl hcall.1)
  · exact h (.inr ⟨(key, body), (Definitions.find?_eq_some_iff_mem _).mp hfind, hcall.1⟩)

/-- **Renaming an instruction does not change the code.** Let neither name be that of an action, and
let no instruction have the new name. A program that has code has the same code after renaming. If
moreover it does not call the new name, a program without code has none after renaming either, and
the error is the renamed error. -/
theorem Program.compile_rename (p : Program) (hold : Action.isName old = false)
    (hnew : Action.isName new = false) (hfree : p.definitions.contains new = false) :
    (∀ bc, p.compile.outcome = .ok bc → (p.rename old new).compile.outcome = .ok bc) ∧
    (¬ p.Calls new → ∀ e, p.compile.outcome = .error e →
      (p.rename old new).compile.outcome = .error (e.rename old new)) := by
  have hold' : Action.ofName? old = none := by simpa [Action.isName] using hold
  have hnew' : Action.ofName? new = none := by simpa [Action.isName] using hnew
  have hfree' : p.definitions.find? new = none := by simpa [Definitions.contains] using hfree
  constructor
  · intro bc hbc
    obtain ⟨code, hcode, rfl⟩ := Statement.compile_eq_ok_iff.mp hbc
    have hcode' := Statement.emit_rename_of_ok hold' hnew' hfree' List.not_mem_nil hcode
    exact Statement.compile_eq_ok_iff.mpr ⟨code, hcode', rfl⟩
  · intro hcalls e he
    have hne := compile_ne_undefined hcalls he
    have herror := Statement.compile_eq_error_iff.mp he
    exact Statement.compile_eq_error_iff.mpr
      (Statement.emit_rename_of_error hold' hnew' hfree' List.not_mem_nil herror hne)

/-- A robot that spins and infects. An instruction that it does not use calls something
undefined. -/
def dancer : Program where
  name := "Dancer"
  definitions := .ofList [("spin", .block [.call "turnleft", .call "turnleft"]),
    ("bow", .call "twirl")]
  body := .block [.call "spin", .call "infect"]

/-- A robot with two instructions that call each other. -/
def waltz : Program where
  name := "Waltz"
  definitions := .ofList [("lead", .ifThen .random (.call "follow")),
    ("follow", .block [.call "move", .call "lead"])]
  body := .call "lead"

/-- The dancer's code stays as it is when its instruction takes the undefined name, and the circle
of the waltz is reported under the new name. -/
theorem Program.compile_rename_dancer :
    (dancer.rename "spin" "twirl").compile.outcome = .ok ⟨[1, 1, 3, 5]⟩ ∧
    dancer.Calls "twirl" ∧
    (waltz.rename "lead" "guide").compile.outcome =
      .error (.recursive ["guide", "follow", "guide"]) := by
  have hdancer : dancer.compile.outcome = .ok ⟨[1, 1, 3, 5]⟩ := by cbv
  have hwaltz : waltz.compile.outcome = .error (.recursive ["lead", "follow", "lead"]) := by cbv
  have hentries : waltz.definitions.entries =
      [("follow", .block [.call "move", .call "lead"]),
        ("lead", .ifThen .random (.call "follow"))] := rfl
  have hcalls : ¬ waltz.Calls "guide" := by
    rw [Calls, hentries]
    simp [waltz, Statement.callNames]
  refine ⟨(compile_rename dancer rfl rfl rfl).1 _ hdancer, .inr ⟨("bow", .call "twirl"), ?_, ?_⟩,
    (compile_rename waltz rfl rfl rfl).2 hcalls _ hwaltz⟩
  · exact List.mem_cons_self
  · simp [Statement.callNames]

end RobotScript
