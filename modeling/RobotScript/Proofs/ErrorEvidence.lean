import Mathlib.Tactic
import RobotScript.Proofs.BoundedExpansion

/-!
# What a compile error says is so

The errors of code generation carry names: an undefined name, the instructions of a circle, or the
instructions that were being inserted where the levels ran out. That they say something about the
program is not obvious for the second: the circle is cut out of the list of instructions that are
being inserted, and nothing in the generator says that each of these calls the next. Here that is
the invariant `Inserting` of a place in the traversal, with the other facts that the errors need.

A program that is too deep has a path with one level too many, and a way to it along which no
instruction is inserted twice. It is found from the inside out, one node at each level.

## Main definitions

* `Definitions.IsCircle` — instructions of which each calls the next, the last being the first.
* `Statement.insertedNames` — the instructions whose bodies are inserted along a path.
* `Statement.Inserting` — what is so wherever the traversal has come to.
* `Statement.RunsOut` — what is so wherever its levels run out.

## Main results

* `emit_recursive_isCircle`: the instructions that are reported form a circle that is reached.
* `runsOut_of_emit_tooDeep`: some path has one level more than there are.
* `compile_error_evidence`: **every compile error carries evidence**.
-/

namespace RobotScript

/-- The names are those of instructions of which each calls the next. The last is the first, and
there is no other repetition. -/
structure Definitions.IsCircle (defs : Definitions) (names : List String) : Prop where
  two_le_length : 2 ≤ names.length
  head?_eq_getLast? : names.head? = names.getLast?
  nodup : names.dropLast.Nodup
  instruction : ∀ name ∈ names, Action.ofName? name = none ∧ defs.contains name = true
  leads : names.IsChain defs.Leads

namespace Statement

open Logged

variable {defs : Definitions} {chain : List String} {levels start : Nat}

/-! ### Circles -/

/-- Where the traversal has come to: it is at `s`, inside the bodies of the instructions in `chain`,
the outermost first, and started at `root`. -/
structure Inserting (defs : Definitions) (root : Statement) (chain : List String) (s : Statement) :
    Prop where
  nodup : chain.Nodup
  instruction : ∀ name ∈ chain, Action.ofName? name = none ∧ defs.contains name = true
  leads : chain.IsChain defs.Leads
  reached : ∀ name ∈ chain, root.Reaches defs name
  /-- What is called here is reached, and is called by the innermost instruction. -/
  called : ∀ name, s.CallsInstruction name →
    root.Reaches defs name ∧ ∀ last ∈ chain.getLast?, defs.Leads last name

namespace Inserting

variable {root s : Statement}

/-- The traversal starts inside no instruction. -/
theorem initial (root : Statement) : Inserting defs root [] root :=
  ⟨.nil, by simp, .nil, by simp, fun name hname => ⟨⟨name, hname, .refl⟩, by simp⟩⟩

/-- The traversal goes on to a part of a statement. -/
theorem part (h : Inserting defs root chain s) {t : Statement} (hs : s.call? = none)
    (ht : t ∈ s.nodesBelow defs) : Inserting defs root chain t :=
  { h with called := fun name hname =>
      h.called name ((callsInstruction_iff_nodesBelow hs name).mpr ⟨t, ht, hname⟩) }

/-- The traversal goes on to the body of an instruction that is called. -/
theorem body {name : String} {body : Statement} (h : Inserting defs root chain (call name))
    (hact : Action.ofName? name = none) (hfind : defs.find? name = some body)
    (hmem : name ∉ chain) : Inserting defs root (chain ++ [name]) body := by
  obtain ⟨hreached, hlast⟩ := h.called name ⟨by simp [callNames], hact⟩
  refine ⟨?_, ?_, ?_, ?_, fun name' hname' => ⟨?_, ?_⟩⟩
  · rw [← List.concat_eq_append]
    exact h.nodup.concat hmem
  · refine List.forall_mem_append.mpr ⟨h.instruction, List.forall_mem_singleton.mpr ⟨hact, ?_⟩⟩
    simp [Definitions.contains, hfind]
  · refine h.leads.append (.singleton name) fun last hlast' next hnext => ?_
    obtain rfl : name = next := Option.some.inj hnext
    exact hlast last hlast'
  · exact List.forall_mem_append.mpr ⟨h.reached, List.forall_mem_singleton.mpr hreached⟩
  · obtain ⟨first, hfirst, hleads⟩ := hreached
    exact ⟨first, hfirst, hleads.tail ⟨body, hfind, hname'⟩⟩
  · intro last hlast'
    rw [List.getLast?_concat] at hlast'
    obtain rfl : name = last := Option.some.inj hlast'
    exact ⟨body, hfind, hname'⟩

/-- The call of an instruction that is being inserted closes a circle. -/
theorem isCircle {name : String} (h : Inserting defs root chain (call name))
    (hact : Action.ofName? name = none) (hmem : name ∈ chain) :
    defs.IsCircle (chain.dropWhile (· ≠ name) ++ [name]) ∧
      (chain.dropWhile (· ≠ name) ++ [name]).head? = some name := by
  obtain ⟨before, later, rfl⟩ := List.append_of_mem hmem
  -- the name stands only once among those that are being inserted
  have hbefore : ∀ other ∈ before, decide (other ≠ name) = true := by
    intro other hother
    have hdisjoint := (List.nodup_append.mp h.nodup).2.2
    simpa using hdisjoint other hother name List.mem_cons_self
  have hdrop : (before ++ name :: later).dropWhile (· ≠ name) = name :: later := by
    rw [List.dropWhile_append_of_pos hbefore, List.dropWhile_cons_of_neg (by simp)]
  have hsuffix : name :: later <:+ before ++ name :: later := List.suffix_append _ _
  rw [hdrop]
  refine ⟨⟨by simp, by rw [List.getLast?_concat]; rfl, ?_, ?_, ?_⟩, rfl⟩
  · rw [List.dropLast_concat]
    exact h.nodup.sublist hsuffix.sublist
  · intro other hother
    rcases List.mem_append.mp hother with hother | hother
    · exact h.instruction other (hsuffix.mem hother)
    · exact List.mem_singleton.mp hother ▸ h.instruction name hmem
  · refine (h.leads.suffix hsuffix).append (.singleton name) fun last hlast next hnext => ?_
    obtain rfl : name = next := Option.some.inj hnext
    refine (h.called name ⟨by simp [callNames], hact⟩).2 last ?_
    rwa [List.getLast?_append_cons]

end Inserting

/-- **The instructions that are reported form a circle, and its first one is reached** from where
the traversal started. -/
theorem emit_recursive_isCircle {root s : Statement} {circle : List String}
    (h : (emit defs chain levels start s).outcome = .error (.recursive circle))
    (hs : Inserting defs root chain s) :
    defs.IsCircle circle ∧ ∀ first ∈ circle.head?, root.Reaches defs first := by
  generalize he : CompileError.recursive circle = e at h
  revert he hs
  refine @emit_error_induction defs chain levels start e
    (fun chain _ _ s e => Inserting defs root chain s → CompileError.recursive circle = e →
      defs.IsCircle circle ∧ ∀ first ∈ circle.head?, root.Reaches defs first)
    (fun chain _ _ body e => (∀ s ∈ body, Inserting defs root chain s) →
      CompileError.recursive circle = e →
      defs.IsCircle circle ∧ ∀ first ∈ circle.head?, root.Reaches defs first)
    ?block ?noLevel ?ifThen ?thenBody ?elseBody ?whileDo ?undefined ?recursive ?instruction ?first
      ?later s h
  case block =>
    intro _ _ _ body e ih hs
    exact ih fun t ht => hs.part rfl ht
  case noLevel =>
    intro _ _ s _ _ he
    cases he
  case ifThen =>
    intro _ _ _ c body e ih hs
    exact ih (hs.part rfl (by simp [nodesBelow]))
  case thenBody =>
    intro _ _ _ c thenBody elseBody e ih hs
    exact ih (hs.part rfl (by simp [nodesBelow]))
  case elseBody =>
    intro _ _ _ c thenBody elseBody _ e _ ih hs
    exact ih (hs.part rfl (by simp [nodesBelow]))
  case whileDo =>
    intro _ _ _ c body e ih hs
    exact ih (hs.part rfl (by simp [nodesBelow]))
  case undefined =>
    intro _ _ _ name _ _ _ he
    cases he
  case recursive =>
    intro _ _ _ name body hact _ hmem hs he
    obtain rfl := CompileError.recursive.inj he
    obtain ⟨hcircle, hhead⟩ := hs.isCircle hact hmem
    refine ⟨hcircle, fun first hfirst => ?_⟩
    obtain rfl : name = first := Option.some.inj (hhead.symm.trans hfirst)
    exact hs.reached name hmem
  case instruction =>
    intro _ _ _ name body e hact hfind hmem ih hs
    exact ih (hs.body hact hfind hmem)
  case first =>
    intro _ _ _ s rest e ih hs
    exact ih (hs s List.mem_cons_self)
  case later =>
    intro _ _ _ s rest _ e _ ih hs
    exact ih fun t ht => hs t (List.mem_cons_of_mem s ht)

/-! ### Paths that are too deep -/

/-- The instructions whose bodies are inserted along a path: those of the calls that the path goes
on from. -/
def insertedNames (path : List Statement) : List String :=
  path.dropLast.filterMap call?

/-- A path has a first node. -/
theorem Path.ne_nil {s : Statement} {path : List Statement} (h : Path defs s path) : path ≠ [] := by
  cases h <;> simp

/-- A call at the beginning of a longer path is one that the path goes on from. -/
theorem insertedNames_cons {path : List Statement} (h : path ≠ []) (s : Statement) :
    insertedNames (s :: path) = s.call?.toList ++ insertedNames path := by
  rw [insertedNames, List.dropLast_cons_of_ne_nil h, List.filterMap_cons, insertedNames]
  cases s.call? with
  | none => rfl
  | some name => rfl

/-- Some path from the statement has `count` nodes that are not sequences, and the bodies of `names`
are inserted along it. -/
def HasPath (defs : Definitions) (s : Statement) (count : Nat) (names : List String) : Prop :=
  ∃ path, Path defs s path ∧ openCount path = count ∧ insertedNames path = names

/-- What is no sequence is a path by itself. -/
theorem hasPath_root {s : Statement} (hs : s.block? = none) : HasPath defs s 1 [] :=
  ⟨[s], .root s, by simp [openCount, hs], rfl⟩

/-- A path from a node below is a path from above, with one node more. -/
theorem HasPath.down {s t : Statement} {count : Nat} {names : List String}
    (h : HasPath defs t count names) (ht : t ∈ s.nodesBelow defs) :
    HasPath defs s (count + if s.block?.isNone then 1 else 0) (s.call?.toList ++ names) := by
  obtain ⟨path, hpath, rfl, rfl⟩ := h
  exact ⟨s :: path, .down ht hpath, by rw [openCount, List.countP_cons, openCount],
    insertedNames_cons hpath.ne_nil s⟩

/-- The levels have run out below a statement, inside the bodies of the instructions in `chain` and
with `levels` of them left: some path has one level more, and no instruction in `inserted` is being
inserted twice at its end. -/
structure RunsOut (defs : Definitions) (chain : List String) (levels : Nat) (limit : Nat)
    (inserted : List String) (s : Statement) : Prop where
  limit_eq : limit = maxDepth
  nodup : chain.Nodup → inserted.Nodup
  hasPath : ∃ names, inserted = chain ++ names ∧ HasPath defs s (levels + 1) names

/-- A sequence runs out of levels with one of its members. -/
theorem RunsOut.member {s : Statement} {body : List Statement} {limit : Nat}
    {inserted : List String} (h : RunsOut defs chain levels limit inserted s) (hs : s ∈ body) :
    RunsOut defs chain levels limit inserted (block body) := by
  obtain ⟨names, hnames, hpath⟩ := h.hasPath
  exact ⟨h.limit_eq, h.nodup, names, hnames, hpath.down (s := block body) hs⟩

/-- A branch or a loop runs out of levels with one of its bodies. -/
theorem RunsOut.part {s t : Statement} {limit : Nat} {inserted : List String}
    (h : RunsOut defs chain levels limit inserted t) (hblock : s.block? = none)
    (hcall : s.call? = none) (ht : t ∈ s.nodesBelow defs) :
    RunsOut defs chain (levels + 1) limit inserted s := by
  obtain ⟨names, hnames, hpath⟩ := h.hasPath
  refine ⟨h.limit_eq, h.nodup, names, hnames, ?_⟩
  have hdown := hpath.down ht
  rwa [hblock, hcall] at hdown

/-- A call runs out of levels with the body of its instruction. -/
theorem RunsOut.instruction {name : String} {body : Statement} {limit : Nat}
    {inserted : List String} (h : RunsOut defs (chain ++ [name]) levels limit inserted body)
    (hact : Action.ofName? name = none) (hfind : defs.find? name = some body)
    (hmem : name ∉ chain) : RunsOut defs chain (levels + 1) limit inserted (call name) := by
  obtain ⟨names, hnames, hpath⟩ := h.hasPath
  refine ⟨h.limit_eq, fun hchain => h.nodup ?_, name :: names, by simp [hnames], ?_⟩
  · rw [← List.concat_eq_append]
    exact hchain.concat hmem
  · exact hpath.down (s := call name) (by simp [nodesBelow_call hact hfind])

/-- **Where generation is too deep, the levels have run out.** -/
theorem runsOut_of_emit_tooDeep {s : Statement} {limit : Nat} {inserted : List String}
    (h : (emit defs chain levels start s).outcome = .error (.tooDeep limit inserted)) :
    RunsOut defs chain levels limit inserted s := by
  generalize he : CompileError.tooDeep limit inserted = e at h
  revert he
  refine @emit_error_induction defs chain levels start e
    (fun chain levels _ s e => CompileError.tooDeep limit inserted = e →
      RunsOut defs chain levels limit inserted s)
    (fun chain levels _ body e => CompileError.tooDeep limit inserted = e →
      ∃ s ∈ body, RunsOut defs chain levels limit inserted s)
    ?block ?noLevel ?ifThen ?thenBody ?elseBody ?whileDo ?undefined ?recursive ?instruction ?first
      ?later s h
  case block =>
    intro _ _ _ body e ih he
    obtain ⟨s, hs, hrunsOut⟩ := ih he
    exact hrunsOut.member hs
  case noLevel =>
    intro chain _ s hs he
    obtain ⟨rfl, rfl⟩ := CompileError.tooDeep.inj he
    exact ⟨rfl, id, [], by simp, hasPath_root hs⟩
  case ifThen =>
    intro _ _ _ c body e ih he
    exact (ih he).part rfl rfl (by simp [nodesBelow])
  case thenBody =>
    intro _ _ _ c thenBody elseBody e ih he
    exact (ih he).part rfl rfl (by simp [nodesBelow])
  case elseBody =>
    intro _ _ _ c thenBody elseBody _ e _ ih he
    exact (ih he).part rfl rfl (by simp [nodesBelow])
  case whileDo =>
    intro _ _ _ c body e ih he
    exact (ih he).part rfl rfl (by simp [nodesBelow])
  case undefined =>
    intro _ _ _ name _ _ he
    cases he
  case recursive =>
    intro _ _ _ name body _ _ _ he
    cases he
  case instruction =>
    intro _ _ _ name body e hact hfind hmem ih he
    exact (ih he).instruction hact hfind hmem
  case first =>
    intro _ _ _ s rest e ih he
    exact ⟨s, List.mem_cons_self, ih he⟩
  case later =>
    intro _ _ _ s rest _ e _ ih he
    obtain ⟨t, ht, hrunsOut⟩ := ih he
    exact ⟨t, List.mem_cons_of_mem s ht, hrunsOut⟩

/-! ### Main bodies -/

/-- **Every compile error carries evidence.** A circle that is reported is a circle of instructions,
and the main body reaches it. A name that is reported as undefined is neither that of an action nor
defined, and is called by the main body or by an instruction that the main body reaches. A limit
that is reported is 512 levels, and some path from the main body has 513 nodes that are not
sequences, while no instruction is inserted twice along it. -/
theorem compile_error_evidence (defs : Definitions) (body : Statement) :
    (∀ circle, (body.compile defs).outcome = .error (.recursive circle) →
      defs.IsCircle circle ∧ ∀ first ∈ circle.head?, body.Reaches defs first) ∧
    (∀ name, (body.compile defs).outcome = .error (.undefined name) →
      Action.ofName? name = none ∧ defs.contains name = false ∧
        (name ∈ body.callNames ∨ ∃ key inner, body.Reaches defs key ∧
          defs.find? key = some inner ∧ name ∈ inner.callNames)) ∧
    ∀ limit inserted, (body.compile defs).outcome = .error (.tooDeep limit inserted) →
      limit = 512 ∧ ∃ path, Path defs body path ∧ openCount path = 513 ∧
        (insertedNames path).Nodup := by
  simp only [compile_eq_error_iff]
  refine ⟨fun circle h => emit_recursive_isCircle h (.initial body), fun name h => ?_,
    fun limit inserted h => ?_⟩
  · obtain ⟨hreach, hfind⟩ := reaches_of_emit_undefined h
    have hcontains : defs.contains name = false := by simp [Definitions.contains, hfind]
    rcases reaches_iff_callsInstruction.mp hreach with hcall | ⟨key, inner, hkey, hinner, hcall⟩
    · exact ⟨hcall.2, hcontains, .inl hcall.1⟩
    · exact ⟨hcall.2, hcontains, .inr ⟨key, inner, hkey, hinner, hcall.1⟩⟩
  · obtain ⟨hlimit, hnodup, names, rfl, path, hpath, hcount, rfl⟩ := runsOut_of_emit_tooDeep h
    exact ⟨hlimit, path, hpath, hcount, hnodup .nil⟩

/-- A statement inside this many loops. -/
def inLoops (s : Statement) : Nat → Statement
  | 0 => s
  | n + 1 => .whileDo .always (s.inLoops n)

/-- What fails inside loops makes the loops fail, if there are levels for them. -/
theorem emit_inLoops_eq_error {s : Statement} {e : CompileError} (n : Nat)
    (h : ∀ start, (emit defs chain levels start s).outcome = .error e) (start : Nat) :
    (emit defs chain (levels + n) start (s.inLoops n)).outcome = .error e := by
  induction n generalizing start with
  | zero => exact h start
  | succ n ih => exact emit_whileDo_eq_error_iff.mpr (ih (start + 2))

/-- Three instructions, of which the last two call each other, and one that calls what is not
defined. -/
def tangled : Definitions :=
  .ofList [("a", .call "b"), ("b", .call "c"), ("c", .ifThen .random (.call "b")),
    ("lost", .block [.call "move", .call "home"])]

/-- Through `a` the circle of `b` and `c` is reached in its middle, and `a` is not part of what is
reported. The undefined name is that of a call inside an instruction. Inside 511 loops there is a
level for the call of `a` but none for the call in its body: on this path 513 nodes are not
sequences, and `a` is the instruction that is inserted. -/
theorem compile_error_evidence_tangled :
    (((call "a").compile tangled).outcome = .error (.recursive ["b", "c", "b"]) ∧
      tangled.IsCircle ["b", "c", "b"] ∧ (call "a").Reaches tangled "b") ∧
    (((call "lost").compile tangled).outcome = .error (.undefined "home") ∧
      tangled.contains "home" = false) ∧
    (((call "a").inLoops 511).compile tangled).outcome = .error (.tooDeep 512 ["a"]) ∧
      ∃ path, Path tangled ((call "a").inLoops 511) path ∧ openCount path = 513 ∧
        (insertedNames path).Nodup := by
  have hcircle : ((call "a").compile tangled).outcome = .error (.recursive ["b", "c", "b"]) := by
    cbv
  have hlost : ((call "lost").compile tangled).outcome = .error (.undefined "home") := by cbv
  have hdeep : (((call "a").inLoops 511).compile tangled).outcome =
      .error (.tooDeep 512 ["a"]) := by
    have hfind : tangled.find? "a" = some (.call "b") := rfl
    have hcall : ∀ start, (emit tangled [] 1 start (.call "a")).outcome =
        .error (.tooDeep 512 ["a"]) := by
      intro start
      rw [emit_call_instruction_outcome rfl hfind (by simp), emit_zero rfl]
      rfl
    exact compile_eq_error_iff.mpr (emit_inLoops_eq_error 511 hcall 0)
  obtain ⟨hisCircle, hreached⟩ := (compile_error_evidence tangled _).1 _ hcircle
  exact ⟨⟨hcircle, hisCircle, hreached "b" rfl⟩,
    ⟨hlost, ((compile_error_evidence tangled _).2.1 _ hlost).2.1⟩, hdeep,
    ((compile_error_evidence tangled _).2.2 _ _ hdeep).2⟩

end Statement

end RobotScript
