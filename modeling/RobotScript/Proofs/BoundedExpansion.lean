import RobotScript.Proofs.CallGraph
import RobotScript.Proofs.Generation

/-!
# Which programs have code

Generating code inserts the body of an instruction wherever the instruction is called, with one
traversal that stops at the first undefined name, at the first instruction found inside itself, and
at the first statement with too many around it. What it finds on its way amounts to three properties
of the call graph and of the tree of inserted bodies, none of which mentions the traversal.

## Main definitions

* `Statement.Bounded` — those properties, at a place inside the bodies of given instructions and
  with a given number of levels left.

## Main results

* `bounded_block_iff`, `bounded_compound_iff`, `bounded_instruction_iff`: **one level at a time**,
  as the traversal goes.
* `emit_succeeds_iff`: the traversal succeeds exactly on bounded statements.
* `reaches_of_emit_undefined`: a name that is reported as undefined is reached and not defined.
* `emit_congr_of_reaches`: what is not reached plays no part.
* `emit_congr`: what is defined under the name of an action plays no part.
* `compile_succeeds_iff`: a main body has code exactly if everything it reaches is defined, nothing
  it reaches leads back to itself, and no path has more than 512 nodes that are not sequences.
-/

namespace RobotScript.Statement

open Logged

/-- The statement can be expanded inside the bodies of the instructions in `chain`, with `levels`
more branches, loops and calls inside one another. -/
structure Bounded (defs : Definitions) (chain : List String) (levels : Nat) (s : Statement) :
    Prop where
  /-- What is reached is defined. -/
  defined : ∀ name, s.Reaches defs name → defs.contains name
  /-- What is reached is not being inserted already. -/
  fresh : ∀ name, s.Reaches defs name → name ∉ chain
  /-- What is reached does not lead back to itself. -/
  acyclic : ∀ name, s.Reaches defs name → ¬ Relation.TransGen defs.Leads name name
  /-- No path goes deeper than the levels. -/
  shallow : ∀ path, Path defs s path → openCount path ≤ levels

variable {defs : Definitions} {chain : List String} {levels start : Nat}

/-! ### One level at a time -/

/-- Where nothing is called directly, everything but the depth passes between a statement and the
statements below it. -/
theorem bounded_iff_nodesBelow {s : Statement} {inner : Nat} (hs : s.call? = none)
    (hshallow : (∀ path, Path defs s path → openCount path ≤ levels) ↔
      ∀ t ∈ s.nodesBelow defs, ∀ path, Path defs t path → openCount path ≤ inner) :
    Bounded defs chain levels s ↔ ∀ t ∈ s.nodesBelow defs, Bounded defs chain inner t := by
  constructor
  · intro h t ht
    have hup : ∀ name, t.Reaches defs name → s.Reaches defs name := fun name hname =>
      reaches_of_mem_nodesBelow hs ht hname
    exact ⟨fun name hname => h.defined name (hup name hname),
      fun name hname => h.fresh name (hup name hname),
      fun name hname => h.acyclic name (hup name hname), hshallow.mp h.shallow t ht⟩
  · intro h
    refine ⟨?_, ?_, ?_, hshallow.mpr fun t ht => (h t ht).shallow⟩
    all_goals
      intro name hname
      obtain ⟨t, ht, hname⟩ := (reaches_iff_nodesBelow hs name).mp hname
    · exact (h t ht).defined name hname
    · exact (h t ht).fresh name hname
    · exact (h t ht).acyclic name hname

/-- A sequence is bounded as its members are, at the same level. -/
theorem bounded_block_iff {body : List Statement} :
    Bounded defs chain levels (block body) ↔ ∀ t ∈ body, Bounded defs chain levels t :=
  bounded_iff_nodesBelow rfl openCount_le_iff_block

/-- A branch or a loop is bounded as its bodies are, one level further in. -/
theorem bounded_compound_iff {s : Statement} (hblock : s.block? = none) (hcall : s.call? = none) :
    Bounded defs chain (levels + 1) s ↔ ∀ t ∈ s.nodesBelow defs, Bounded defs chain levels t :=
  bounded_iff_nodesBelow hcall (openCount_le_iff_nodesBelow hblock)

/-- Without a level left, nothing but a sequence is bounded. -/
theorem not_bounded_zero {s : Statement} (hs : s.block? = none) : ¬ Bounded defs chain 0 s := by
  intro h
  have hle := h.shallow [s] (.root s)
  simp [openCount, hs] at hle

/-- The call of an action is bounded. -/
theorem bounded_action {name : String} {action : Action}
    (hact : Action.ofName? name = some action) : Bounded defs chain (levels + 1) (call name) := by
  refine ⟨?_, ?_, ?_, (openCount_le_iff_nodesBelow rfl).mpr ?_⟩
  · exact fun name' hname => absurd hname (not_reaches_action hact name')
  · exact fun name' hname => absurd hname (not_reaches_action hact name')
  · exact fun name' hname => absurd hname (not_reaches_action hact name')
  · simp [nodesBelow_action hact]

/-- The call of something that is not defined is not bounded. -/
theorem not_bounded_undefined {name : String} (hact : Action.ofName? name = none)
    (hfind : defs.find? name = none) : ¬ Bounded defs chain levels (call name) := by
  intro h
  have hdefined := h.defined name (reaches_call_self hact)
  simp [Definitions.contains, hfind] at hdefined

/-- **The call of an instruction** is bounded if the instruction is not being inserted already and
its body is bounded inside it, one level further in. The circles of the graph show up here: an
instruction that leads back to itself is reached again from its own body. -/
theorem bounded_instruction_iff {name : String} {body : Statement}
    (hact : Action.ofName? name = none) (hfind : defs.find? name = some body) :
    Bounded defs chain (levels + 1) (call name) ↔
      name ∉ chain ∧ Bounded defs (chain ++ [name]) levels body := by
  have hreach : ∀ name', (call name).Reaches defs name' ↔
      name' = name ∨ body.Reaches defs name' := reaches_call_iff hact hfind
  have hdeep : (∀ path, Path defs (call name) path → openCount path ≤ levels + 1) ↔
      ∀ path, Path defs body path → openCount path ≤ levels := by
    rw [openCount_le_iff_nodesBelow rfl, nodesBelow_call hact hfind, List.forall_mem_singleton]
  constructor
  · intro h
    refine ⟨h.fresh name (reaches_call_self hact), ?_, ?_, ?_, hdeep.mp h.shallow⟩
    · exact fun name' hname => h.defined name' ((hreach name').mpr (.inr hname))
    · intro name' hname hmem
      rcases List.mem_append.mp hmem with hchain | hsame
      · exact h.fresh name' ((hreach name').mpr (.inr hname)) hchain
      · obtain rfl := List.mem_singleton.mp hsame
        exact h.acyclic name' (reaches_call_self hact) ((transGen_leads_iff hfind name').mpr hname)
    · exact fun name' hname => h.acyclic name' ((hreach name').mpr (.inr hname))
  · rintro ⟨hchain, h⟩
    refine ⟨?_, ?_, ?_, hdeep.mpr h.shallow⟩
    all_goals
      intro name' hname
      rcases (hreach name').mp hname with rfl | hbody
    · simp [Definitions.contains, hfind]
    · exact h.defined name' hbody
    · exact hchain
    · exact fun hmem => h.fresh name' hbody (List.mem_append_left _ hmem)
    · intro hcircle
      exact h.fresh name' ((transGen_leads_iff hfind name').mp hcircle) (by simp)
    · exact h.acyclic name' hbody

/-! ### The traversal -/

/-- **Generating code succeeds exactly on bounded statements.** The induction is the traversal's
own: each of its cases is one of the equivalences above. -/
theorem emit_succeeds_iff (s : Statement) :
    (∃ code, (emit defs chain levels start s).outcome = .ok code) ↔
      Bounded defs chain levels s := by
  refine (emit.mutual_induct defs
    (fun chain levels start s =>
      (∃ code, (emit defs chain levels start s).outcome = .ok code) ↔ Bounded defs chain levels s)
    (fun chain levels start body =>
      (∃ code, (emitAll defs chain levels start body).outcome = .ok code) ↔
        ∀ s ∈ body, Bounded defs chain levels s)
    ?block ?noLevel ?ifThen ?ifElse ?whileDo ?action ?undefined ?recursive ?instruction ?nil
      ?cons).1 chain levels start s
  case block =>
    intro chain start body levels ih
    rw [emit_block, ih, bounded_block_iff]
  case noLevel =>
    intro chain start s hs
    have hblock := block?_eq_none hs
    simp [emit_zero hblock, not_bounded_zero hblock]
  case ifThen =>
    intro chain start c body levels ih
    simp only [emit_ifThen_eq_ok_iff]
    rw [bounded_compound_iff rfl rfl, nodesBelow, List.forall_mem_singleton, ← ih]
    constructor
    · rintro ⟨-, inner, hinner, -⟩
      exact ⟨inner, hinner⟩
    · rintro ⟨inner, hinner⟩
      exact ⟨_, inner, hinner, rfl⟩
  case ifElse =>
    intro chain start c thenBody elseBody levels ihThen ihElse
    simp only [emit_ifElse_eq_ok_iff]
    rw [bounded_compound_iff rfl rfl, nodesBelow, List.forall_mem_cons, List.forall_mem_singleton]
    constructor
    · rintro ⟨-, thenCode, elseCode, hthen, helse, -⟩
      exact ⟨ihThen.mp ⟨thenCode, hthen⟩, (ihElse thenCode).mp ⟨elseCode, helse⟩⟩
    · rintro ⟨hthen, helse⟩
      obtain ⟨thenCode, hthen⟩ := ihThen.mpr hthen
      obtain ⟨elseCode, helse⟩ := (ihElse thenCode).mpr helse
      exact ⟨_, thenCode, elseCode, hthen, helse, rfl⟩
  case whileDo =>
    intro chain start c body levels ih
    simp only [emit_whileDo_eq_ok_iff]
    rw [bounded_compound_iff rfl rfl, nodesBelow, List.forall_mem_singleton, ← ih]
    constructor
    · rintro ⟨-, inner, hinner, -⟩
      exact ⟨inner, hinner⟩
    · rintro ⟨inner, hinner⟩
      exact ⟨_, inner, hinner, rfl⟩
  case action =>
    intro chain start name levels action hact
    simp [emit_call_action hact, bounded_action hact]
  case undefined =>
    intro chain start name levels hact hfind
    simp [emit_call_undefined hact hfind, not_bounded_undefined hact hfind]
  case recursive =>
    intro chain start name levels hact body hfind hmem
    simp [emit_call_recursive hact hfind hmem, bounded_instruction_iff hact hfind, hmem]
  case instruction =>
    intro chain start name levels hact body hfind hmem ih
    rw [emit_call_instruction_outcome hact hfind hmem, ih, bounded_instruction_iff hact hfind]
    exact (and_iff_right hmem).symm
  case nil =>
    intro chain levels start
    simp [emitAll_nil]
  case cons =>
    intro chain levels start s rest ih ihRest
    simp only [emitAll_cons_eq_ok_iff]
    rw [List.forall_mem_cons]
    constructor
    · rintro ⟨-, first, later, hfirst, hlater, -⟩
      exact ⟨ih.mp ⟨first, hfirst⟩, (ihRest first).mp ⟨later, hlater⟩⟩
    · rintro ⟨hfirst, hlater⟩
      obtain ⟨first, hfirst⟩ := ih.mpr hfirst
      obtain ⟨later, hlater⟩ := (ihRest first).mpr hlater
      exact ⟨_, first, later, hfirst, hlater, rfl⟩

/-! ### Undefined names -/

/-- A name that the traversal reports as undefined is reached from where it started, and is not
defined. -/
theorem reaches_of_emit_undefined {s : Statement} {name : String}
    (h : (emit defs chain levels start s).outcome = .error (.undefined name)) :
    s.Reaches defs name ∧ defs.find? name = none := by
  generalize he : CompileError.undefined name = e at h
  revert he
  refine @emit_error_induction defs chain levels start e
    (fun _ _ _ s e => CompileError.undefined name = e →
      s.Reaches defs name ∧ defs.find? name = none)
    (fun _ _ _ body e => CompileError.undefined name = e →
      (∃ s ∈ body, s.Reaches defs name) ∧ defs.find? name = none)
    ?block ?noLevel ?ifThen ?thenBody ?elseBody ?whileDo ?undefined ?recursive ?instruction ?first
      ?later s h
  case block =>
    intro _ _ _ body e ih he
    exact (ih he).imp_left (reaches_iff_nodesBelow rfl name).mpr
  case noLevel =>
    intro _ _ s _ he
    cases he
  case ifThen =>
    intro _ _ _ c body e ih he
    exact (ih he).imp_left (reaches_of_mem_nodesBelow rfl (by simp [nodesBelow]))
  case thenBody =>
    intro _ _ _ c thenBody elseBody e ih he
    exact (ih he).imp_left (reaches_of_mem_nodesBelow rfl (by simp [nodesBelow]))
  case elseBody =>
    intro _ _ _ c thenBody elseBody _ e _ ih he
    exact (ih he).imp_left (reaches_of_mem_nodesBelow rfl (by simp [nodesBelow]))
  case whileDo =>
    intro _ _ _ c body e ih he
    exact (ih he).imp_left (reaches_of_mem_nodesBelow rfl (by simp [nodesBelow]))
  case undefined =>
    intro _ _ _ name' hact hfind he
    obtain rfl := CompileError.undefined.inj he
    exact ⟨reaches_call_self hact, hfind⟩
  case recursive =>
    intro _ _ _ name' body _ _ _ he
    cases he
  case instruction =>
    intro _ _ _ name' body e hact hfind _ ih he
    exact (ih he).imp_left fun hbody => (reaches_call_iff hact hfind name).mpr (.inr hbody)
  case first =>
    intro _ _ _ s rest e ih he
    exact (ih he).imp_left fun hs => ⟨s, List.mem_cons_self, hs⟩
  case later =>
    intro _ _ _ s rest _ e _ ih he
    obtain ⟨⟨t, ht, hreach⟩, hfind⟩ := ih he
    exact ⟨⟨t, List.mem_cons_of_mem _ ht, hreach⟩, hfind⟩

/-! ### Definitions that play no part -/

/-- **Generating code reads no definition but those of instructions that are reached.** -/
theorem emit_congr_of_reaches {defs' : Definitions} {s : Statement}
    (h : ∀ name, s.Reaches defs name → defs'.find? name = defs.find? name) :
    emit defs' chain levels start s = emit defs chain levels start s := by
  revert h
  refine (emit.mutual_induct defs
    (fun chain levels start s =>
      (∀ name, s.Reaches defs name → defs'.find? name = defs.find? name) →
        emit defs' chain levels start s = emit defs chain levels start s)
    (fun chain levels start body =>
      (∀ s ∈ body, ∀ name, s.Reaches defs name → defs'.find? name = defs.find? name) →
        emitAll defs' chain levels start body = emitAll defs chain levels start body)
    ?block ?noLevel ?ifThen ?ifElse ?whileDo ?action ?undefined ?recursive ?instruction ?nil
      ?cons).1 chain levels start s
  case block =>
    intro chain start body levels ih h
    rw [emit_block, emit_block, ih fun t ht name hname =>
      h name (reaches_of_mem_nodesBelow rfl ht hname)]
  case noLevel =>
    intro chain start s hs _
    have hblock := block?_eq_none hs
    rw [emit_zero hblock, emit_zero hblock]
  case ifThen =>
    intro chain start c body levels ih h
    have hbody := ih fun name hname =>
      h name (reaches_of_mem_nodesBelow rfl (by simp [nodesBelow]) hname)
    simp only [emit, hbody]
  case ifElse =>
    intro chain start c thenBody elseBody levels ihThen ihElse h
    have hthen := ihThen fun name hname =>
      h name (reaches_of_mem_nodesBelow rfl (by simp [nodesBelow]) hname)
    have helse := fun code => ihElse code fun name hname =>
      h name (reaches_of_mem_nodesBelow rfl (by simp [nodesBelow]) hname)
    simp only [emit, hthen, helse]
  case whileDo =>
    intro chain start c body levels ih h
    have hbody := ih fun name hname =>
      h name (reaches_of_mem_nodesBelow rfl (by simp [nodesBelow]) hname)
    simp only [emit, hbody]
  case action =>
    intro chain start name levels action hact _
    rw [emit_call_action hact, emit_call_action hact]
  case undefined =>
    intro chain start name levels hact hfind h
    have hfind' := (h name (reaches_call_self hact)).trans hfind
    rw [emit_call_undefined hact hfind, emit_call_undefined hact hfind']
  case recursive =>
    intro chain start name levels hact body hfind hmem h
    have hfind' := (h name (reaches_call_self hact)).trans hfind
    rw [emit_call_recursive hact hfind hmem, emit_call_recursive hact hfind' hmem]
  case instruction =>
    intro chain start name levels hact body hfind hmem ih h
    have hfind' := (h name (reaches_call_self hact)).trans hfind
    have hbody := ih fun name' hname =>
      h name' ((reaches_call_iff hact hfind name').mpr (.inr hname))
    simp only [emit, hact, hfind, hfind', hmem, if_false, hbody]
  case nil =>
    intro chain levels start _
    rw [emitAll_nil, emitAll_nil]
  case cons =>
    intro chain levels start s rest ih ihRest h
    obtain ⟨hs, hrest⟩ := List.forall_mem_cons.mp h
    simp only [emitAll, ih hs, fun code => ihRest code hrest]

/-- Generating code reads no definition but those of names that call no action. -/
theorem emit_congr {defs' : Definitions}
    (h : ∀ name, Action.ofName? name = none → defs'.find? name = defs.find? name) (s : Statement) :
    emit defs' chain levels start s = emit defs chain levels start s :=
  emit_congr_of_reaches fun name hname => h name hname.ofName?_eq_none

/-- The outcome of compiling does not depend on what is defined under the name of an action. -/
theorem compile_insert_action (body inner : Statement) (action : Action) :
    (body.compile (defs.insert action.name inner)).outcome = (body.compile defs).outcome := by
  have hfind : ∀ name, Action.ofName? name = none →
      (defs.insert action.name inner).find? name = defs.find? name := by
    intro name hact
    have hne : action.name ≠ name := by
      rintro rfl
      cases action <;> simp [Action.ofName?, Action.all, Action.name] at hact
    rw [Definitions.find?_insert, if_neg hne]
  rw [compile_outcome, compile_outcome, emit_congr hfind]

/-! ### Main bodies -/

/-- **Compiling succeeds exactly on the programs with a bounded expansion**: whatever the main body
reaches through calls of instructions is defined, nothing that it reaches leads back to itself, and
in the tree in which every call of an instruction has the body of the instruction below it, no path
from the root has more than 512 nodes that are not sequences. Calls of actions are not followed:
defining something under the name of an action changes nothing. -/
theorem compile_succeeds_iff (defs : Definitions) (body : Statement) :
    ((∃ bc, (body.compile defs).outcome = .ok bc) ↔
      (∀ name, body.Reaches defs name → defs.contains name) ∧
      (∀ name, body.Reaches defs name → ¬ Relation.TransGen defs.Leads name name) ∧
      ∀ path, Path defs body path → openCount path ≤ 512) ∧
    ∀ (action : Action) (inner : Statement),
      (body.compile (defs.insert action.name inner)).outcome = (body.compile defs).outcome := by
  refine ⟨?_, fun action inner => compile_insert_action body inner action⟩
  have hcode : (∃ bc, (body.compile defs).outcome = .ok bc) ↔ Bounded defs [] maxDepth body := by
    rw [← @emit_succeeds_iff defs [] maxDepth 0]
    simp only [compile_eq_ok_iff]
    constructor
    · rintro ⟨-, code, h, -⟩
      exact ⟨code, h⟩
    · rintro ⟨code, h⟩
      exact ⟨_, code, h, rfl⟩
  rw [hcode]
  constructor
  · intro h
    exact ⟨h.defined, h.acyclic, h.shallow⟩
  · rintro ⟨hdefined, hacyclic, hshallow⟩
    exact ⟨hdefined, fun _ _ => List.not_mem_nil, hacyclic, hshallow⟩

end RobotScript.Statement
