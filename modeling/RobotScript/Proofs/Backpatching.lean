import RobotScript.Proofs.ActionOrder
import RobotScript.Proofs.GeneratorCode

/-!
# Filling in the targets of jumps

A jump forward is written before its target is known: a slot is reserved with a number in it that
could be a target, and is filled in when the code between has been written. Meanwhile the slots of
all statements around are open. That no slot is forgotten, and nothing else is written over, is said
here of the machine and of its log.

For the machine this is a frame condition: from whatever state a run starts, what was in the buffer
stays as it is, and what is written to lies in the buffer. Which slots are filled in is found from
the events, by induction over the code that is generated: they are the operands of the jumps, other
than of those that go back, each once.

## Main definitions

* `Generator.Extends` — what was written stays, and slots lie in the buffer.
* `Placed.goesBack`, `forwardOperands` — the operands of the jumps that do not go back.

## Main results

* `Runs.appends`: **a run only appends**, from every state.
* `perm_forwardOperands`: the targets that are reported are those of the forward operands.
* `patches_are_operands`: **the slots that are filled in are the operands of the jumps forward**,
  each once and with the target that the code has in the end.
-/

namespace RobotScript

namespace Generator

variable {defs : Definitions} {around : List Statement} {s : Statement} {g g₁ g' : Generator}
  {result : Except CompileError Unit}

/-! ### A run only appends -/

@[simp]
theorem patches_visit : (g.visit around s).patches = g.patches := by
  simp [patches, Entry.patch?]

@[simp]
theorem patches_patch (slot target : Nat) :
    (g.patch slot target).patches = g.patches ++ [⟨slot, target, g.code.length⟩] := by
  simp [patches, Entry.patch?]

@[simp]
theorem patches_push (name : String) : (g.push name).patches = g.patches := by
  simp [patches, Entry.patch?]

/-- The later state has the code of the earlier one at its beginning, and what was written to since
lay in the code. -/
structure Extends (g g' : Generator) : Prop where
  code : g.code <+: g'.code
  filled : ∃ later, g'.patches = g.patches ++ later ∧ ∀ p ∈ later, p.slot < p.length

namespace Extends

/-- What neither writes nor fills in. -/
theorem of_eq (hcode : g'.code = g.code) (hpatches : g'.patches = g.patches) : Extends g g' :=
  ⟨hcode ▸ List.prefix_refl _, [], by simp [hpatches], by simp⟩

theorem write (value : Nat) (g : Generator) : Extends g (g.write value) :=
  ⟨List.prefix_append _ _, [], (List.append_nil _).symm, by simp⟩

theorem trans (h : Extends g g₁) (h' : Extends g₁ g') : Extends g g' := by
  obtain ⟨later, hlater, hslots⟩ := h.filled
  obtain ⟨later', hlater', hslots'⟩ := h'.filled
  exact ⟨h.code.trans h'.code, later ++ later', by rw [hlater', hlater, List.append_assoc],
    List.forall_mem_append.mpr ⟨hslots, hslots'⟩⟩

/-- A slot may be filled in that was reserved since. -/
theorem patch (h : Extends g g') {slot : Nat} (hle : g.code.length ≤ slot)
    (hlt : slot < g'.code.length) (target : Nat) : Extends g (g'.patch slot target) := by
  obtain ⟨appended, hcode⟩ := h.code
  obtain ⟨later, hlater, hslots⟩ := h.filled
  refine ⟨?_, later ++ [⟨slot, target, g'.code.length⟩], ?_, ?_⟩
  · rw [patch_code, ← hcode, List.set_append_right _ _ hle]
    exact List.prefix_append _ _
  · rw [patches_patch, hlater, List.append_assoc]
  · exact List.forall_mem_append.mpr ⟨hslots, List.forall_mem_singleton.mpr hlt⟩

/-- A jump may be closed that was written since. -/
theorem close {op : Opcode} (h : Extends (g.emit op).reserve g') :
    Extends g (g'.close (g.emit op).position) := by
  have hlength := h.code.length_le
  have hg : Extends g (g.emit op).reserve := (write _ g).trans (write _ _)
  refine (hg.trans h).patch ?_ ?_ _
  · simp
  · simp at hlength ⊢
    omega

/-- Work that only appends may follow. -/
theorem onSuccess {f : Generator → Generator} (h : Extends g g') (hf : Extends g (f g')) :
    Extends g (onSuccess result f g') := by
  cases result with
  | error e => exact h
  | ok => exact hf

end Extends

/-- **A run only appends**: from every state, and whether it succeeds or fails. The slots that are
filled in were reserved since the run began. -/
theorem Runs.appends (h : Runs defs around s g result g') : Extends g g' := by
  have test (op : Opcode) (g : Generator) : Extends g (g.emit op).reserve :=
    (Extends.write _ g).trans (Extends.write _ _)
  refine @Runs.rec defs
    (fun _ _ g _ g' _ => Extends g g') (fun _ _ g _ g' _ => Extends g g')
    (fun _ _ g _ g' _ => Extends g g')
    ?noLevel ?level ?block ?ifThen ?thenFails ?ifElse ?whileDo ?action ?undefined ?recursive
      ?instruction ?nil ?firstFails ?cons around s g result g' h
  case noLevel =>
    intro _ _ _ _ _
    exact .of_eq rfl patches_visit
  case level =>
    intro around s _ g g' _ _ ih
    have hopened : Extends g ((g.visit around s).enter s) := .of_eq rfl patches_visit
    exact (hopened.trans ih).trans (.of_eq rfl rfl)
  case block =>
    intro _ _ _ _ _ _ ih
    exact ih
  case ifThen =>
    intro _ _ _ _ _ _ _ ih
    exact ((test _ _).trans ih).onSuccess ih.close
  case thenFails =>
    intro _ _ _ _ _ _ _ _ ih
    exact (test _ _).trans ih
  case ifElse =>
    intro _ c _ _ _ g g₁ g' _ _ ih ih'
    have hclosed : Extends g ((g₁.emit .jump).reserve.close (g.emit (.jumpUnless c)).position) :=
      (ih.trans (test .jump g₁)).close
    have hwhole := hclosed.trans ih'
    have hlength := ih.code.length_le
    have hlength' := ih'.code.length_le
    simp only [emit, reserve, close, write_code, patch_code, List.length_set, List.length_append,
      List.length_singleton] at hlength hlength'
    refine hwhole.onSuccess (hwhole.patch ?_ ?_ _)
    · rw [position_emit, position]
      omega
    · rw [position_emit, position]
      omega
  case whileDo =>
    intro _ _ _ _ g g' _ ih
    have hback : Extends g' ((g'.emit .jump).write g.position) :=
      (Extends.write _ g').trans (Extends.write _ _)
    exact ((test _ _).trans ih).onSuccess (ih.trans hback).close
  case action =>
    intro _ _ action g _
    exact .write _ g
  case undefined =>
    intro _ _ _ _ _
    exact .of_eq rfl rfl
  case recursive =>
    intro _ _ _ _ _ _ _
    exact .of_eq rfl rfl
  case instruction =>
    intro _ name _ _ g g' _ _ _ _ ih
    have hpushed : Extends g (g.push name) := .of_eq rfl (patches_push name)
    have hwhole := hpushed.trans ih
    exact hwhole.onSuccess (hwhole.trans (.of_eq rfl rfl))
  case nil =>
    intro _ _
    exact .of_eq rfl rfl
  case firstFails =>
    intro _ _ _ _ _ _ _ ih
    exact ih
  case cons =>
    intro _ _ _ _ _ _ _ _ _ ih ih'
    exact ih.trans ih'

end Generator

/-! ### The operands of jumps -/

/-- The instruction is a jump without a condition that goes back. -/
def Placed.goesBack : Placed → Bool
  | ⟨address, .jump target⟩ => target ≤ address
  | _ => false

/-- The operand of the instruction and its target, if it jumps and does not go back. -/
def Placed.forwardOperand? (p : Placed) : Option (Nat × Nat) :=
  if p.goesBack then none else p.instr.target?.map fun target => (p.address + 1, target)

/-- The operands of the jumps that do not go back, with their targets. -/
def forwardOperands (code : List Placed) : List (Nat × Nat) :=
  code.filterMap Placed.forwardOperand?

/-- The slot that the event reports as filled in, with its target. -/
def Event.patched? : Event → Option (Nat × Nat)
  | .patched slot target => some (slot, target)
  | _ => none

/-- What a forward operand is. -/
theorem Placed.forwardOperand?_eq_some_iff {p : Placed} {slot target : Nat} :
    p.forwardOperand? = some (slot, target) ↔
      p.instr.target? = some target ∧ p.goesBack = false ∧ slot = p.address + 1 := by
  rw [forwardOperand?]
  cases p.goesBack with
  | true => simp
  | false => simp [eq_comm]

@[simp]
theorem forwardOperands_append (code code' : List Placed) :
    forwardOperands (code ++ code') = forwardOperands code ++ forwardOperands code' :=
  List.filterMap_append

@[simp]
theorem forwardOperands_jumpUnless_cons (address : Nat) (c : Condition) (target : Nat)
    (code : List Placed) :
    forwardOperands (⟨address, .jumpUnless c target⟩ :: code) =
      (address + 1, target) :: forwardOperands code := rfl

theorem forwardOperands_jump_cons {address target : Nat} (h : address < target)
    (code : List Placed) :
    forwardOperands (⟨address, .jump target⟩ :: code) =
      (address + 1, target) :: forwardOperands code := by
  simp [forwardOperands, Placed.forwardOperand?, Placed.goesBack, h, Instr.target?]

theorem forwardOperands_jump_back {address target : Nat} (h : target ≤ address) :
    forwardOperands [⟨address, .jump target⟩] = [] := by
  simp [forwardOperands, Placed.forwardOperand?, Placed.goesBack, h]

namespace Statement

variable {defs : Definitions} {chain : List String} {levels start : Nat} {s : Statement}
  {code : List Instr}

/-- **The slots that are reported as filled in are the forward operands**, each once and with its
target. -/
theorem perm_forwardOperands (h : (emit defs chain levels start s).outcome = .ok code) :
    ((emit defs chain levels start s).events.filterMap Event.patched?).Perm
      (forwardOperands (Instr.place start code)) := by
  refine @emit_report_induction defs chain levels start code
    (fun _ _ start _ code events =>
      (events.filterMap Event.patched?).Perm (forwardOperands (Instr.place start code)))
    (fun _ _ start _ code events =>
      (events.filterMap Event.patched?).Perm (forwardOperands (Instr.place start code)))
    ?block ?ifThen ?ifElse ?whileDo ?action ?instruction ?nil ?cons s h
  case block =>
    intro _ _ _ body _ events ih
    exact ih
  case ifThen =>
    intro _ _ start c body code events ih
    rw [Instr.place_jumpUnless_cons, forwardOperands_jumpUnless_cons, List.filterMap_append]
    exact (List.perm_append_singleton _ _).trans (ih.cons _)
  case ifElse =>
    intro _ _ start c thenBody elseBody thenCode elseCode events events' ih ih'
    rw [List.cons_append, Instr.place_jumpUnless_cons, Instr.place_append, Instr.place_jump_cons,
      forwardOperands_jumpUnless_cons, forwardOperands_append,
      forwardOperands_jump_cons (by omega), List.filterMap_append, List.filterMap_append]
    generalize forwardOperands (Instr.place (start + 2) thenCode) = thenOperands at ih ⊢
    generalize forwardOperands (Instr.place (start + 2 + Instr.sizeAll thenCode + 2) elseCode) =
      elseOperands at ih' ⊢
    -- the first jump comes before both bodies, and the second between them
    refine (List.perm_append_singleton _ _).trans ?_
    refine (List.perm_middle.cons _).trans ?_
    refine (List.Perm.swap _ _ _).trans (List.Perm.cons _ ?_)
    exact List.perm_middle.symm.trans (ih.append (ih'.cons _))
  case whileDo =>
    intro _ _ start c body code events ih
    rw [List.cons_append, Instr.place_jumpUnless_cons, Instr.place_append, Instr.place_jump_cons,
      forwardOperands_jumpUnless_cons, forwardOperands_append, Instr.place,
      forwardOperands_jump_back (by omega), List.append_nil, List.filterMap_append]
    exact (List.perm_append_singleton _ _).trans (ih.cons _)
  case action =>
    intro _ _ _ name action hact
    exact .nil
  case instruction =>
    intro _ _ _ name body _ events _ _ _ ih
    exact ih
  case nil =>
    intro _ _ _
    exact .nil
  case cons =>
    intro _ _ _ s rest first later events events' ih ih'
    rw [Instr.place_append, forwardOperands_append, List.filterMap_append]
    exact ih.append ih'

/-- The target of a slot that is reported as filled in lies beyond the slot. -/
theorem slot_lt_target (h : (emit defs chain levels start s).outcome = .ok code) {slot target : Nat}
    (hmem : (slot, target) ∈ (emit defs chain levels start s).events.filterMap Event.patched?) :
    slot < target := by
  revert hmem
  refine @emit_report_induction defs chain levels start code
    (fun _ _ _ _ _ events => (slot, target) ∈ events.filterMap Event.patched? → slot < target)
    (fun _ _ _ _ _ events => (slot, target) ∈ events.filterMap Event.patched? → slot < target)
    ?block ?ifThen ?ifElse ?whileDo ?action ?instruction ?nil ?cons s h
  case block =>
    intro _ _ _ body _ events ih
    exact ih
  case ifThen =>
    intro _ _ start c body code events ih hmem
    rw [List.filterMap_append] at hmem
    rcases List.mem_append.mp hmem with hmem | hmem
    · exact ih hmem
    · cases List.mem_singleton.mp hmem
      omega
  case ifElse =>
    intro _ _ start c thenBody elseBody thenCode elseCode events events' ih ih' hmem
    rw [List.filterMap_append, List.filterMap_append] at hmem
    rcases List.mem_append.mp hmem with hmem | hmem
    · rcases List.mem_append.mp hmem with hmem | hmem
      · exact ih hmem
      · rcases List.mem_cons.mp hmem with hmem | hmem
        · cases hmem
          omega
        · exact ih' hmem
    · cases List.mem_singleton.mp hmem
      omega
  case whileDo =>
    intro _ _ start c body code events ih hmem
    rw [List.filterMap_append] at hmem
    rcases List.mem_append.mp hmem with hmem | hmem
    · exact ih hmem
    · cases List.mem_singleton.mp hmem
      omega
  case action =>
    intro _ _ _ name action hact hmem
    cases hmem
  case instruction =>
    intro _ _ _ name body _ events _ _ _ ih hmem
    exact ih hmem
  case nil =>
    intro _ _ _ hmem
    cases hmem
  case cons =>
    intro _ _ _ s rest first later events events' ih ih' hmem
    rw [List.filterMap_append] at hmem
    exact (List.mem_append.mp hmem).elim ih ih'

end Statement

/-- The slots are the operands of the jumps that do not go back. -/
theorem mem_slots_forwardOperands {code : List Placed} {slot : Nat} :
    slot ∈ (forwardOperands code).map Prod.fst ↔
      ∃ p ∈ code, p.instr.target?.isSome ∧ p.goesBack = false ∧ slot = p.address + 1 := by
  constructor
  · intro hslot
    obtain ⟨⟨_, target⟩, hmem, rfl⟩ := List.mem_map.mp hslot
    obtain ⟨p, hp, hoperand⟩ := List.mem_filterMap.mp hmem
    obtain ⟨htarget, hback, haddress⟩ := Placed.forwardOperand?_eq_some_iff.mp hoperand
    exact ⟨p, hp, by rw [htarget]; rfl, hback, haddress⟩
  · rintro ⟨p, hp, hjumps, hback, rfl⟩
    obtain ⟨target, htarget⟩ := Option.isSome_iff_exists.mp hjumps
    have hoperand : p.forwardOperand? = some (p.address + 1, target) :=
      Placed.forwardOperand?_eq_some_iff.mpr ⟨htarget, hback, rfl⟩
    exact List.mem_map.mpr ⟨_, List.mem_filterMap.mpr ⟨p, hp, hoperand⟩, rfl⟩

/-- No two jumps have the same operand. -/
theorem nodup_forwardOperands (start : Nat) (code : List Instr) :
    ((forwardOperands (Instr.place start code)).map Prod.fst).Nodup := by
  rw [List.Nodup, List.pairwise_map, forwardOperands, List.pairwise_filterMap]
  refine (Instr.pairwise_place start code).imp fun {p q} hlt => ?_
  rintro ⟨slot, target⟩ hp ⟨slot', target'⟩ hq
  obtain ⟨-, -, rfl⟩ := Placed.forwardOperand?_eq_some_iff.mp hp
  obtain ⟨-, -, rfl⟩ := Placed.forwardOperand?_eq_some_iff.mp hq
  change p.address + 1 ≠ q.address + 1
  omega

/-- A placed instruction stands in the code at its address. -/
theorem exists_append_of_mem_place {start : Nat} {code : List Instr} {p : Placed}
    (hp : p ∈ Instr.place start code) :
    ∃ before after, code = before ++ p.instr :: after ∧
      p.address = start + Instr.sizeAll before := by
  induction code generalizing start with
  | nil => cases hp
  | cons i code ih =>
    rcases List.mem_cons.mp hp with rfl | hp
    · exact ⟨[], code, rfl, rfl⟩
    · obtain ⟨before, after, rfl, haddress⟩ := ih hp
      exact ⟨i :: before, after, rfl, by rw [haddress, Instr.sizeAll, Nat.add_assoc]⟩

/-- The number at the operand of a jump is its target. -/
theorem values_forwardOperand {code : List Instr} {slot target : Nat}
    (h : (slot, target) ∈ forwardOperands (Instr.place 0 code)) :
    (Bytecode.ofInstrs code).values[slot]? = some target := by
  obtain ⟨p, hp, hoperand⟩ := List.mem_filterMap.mp h
  obtain ⟨htarget, -, rfl⟩ := Placed.forwardOperand?_eq_some_iff.mp hoperand
  obtain ⟨before, after, hcode, haddress⟩ := exists_append_of_mem_place hp
  rw [Nat.zero_add] at haddress
  have hat : CodeAt code p.address (p.instr :: after) :=
    ⟨before, [], by rw [List.append_nil, hcode], haddress.symm⟩
  obtain ⟨rest, hdrop⟩ := hat.values_drop
  rw [← List.getElem?_drop, hdrop, Instr.encode, htarget]
  rfl

namespace Generator

/-- The slots that are filled in are reported as such. -/
theorem map_patches (g : Generator) :
    g.patches.map (fun p => (p.slot, p.target)) = g.events.filterMap Event.patched? := by
  rw [patches, events, List.map_filterMap, List.filterMap_filterMap]
  congr 1
  funext entry
  cases entry <;> rfl

/-- **Every slot is filled in once, and nothing else is written over.** A run that succeeds only
appends, from whatever state it starts. When complete code is generated, whatever is filled in lies
in the code by then and its target lies beyond it; no slot is filled in twice; the slots are the
operands of all jumps but those that go back; and in the end each of them holds the target that it
was filled in with. -/
theorem patches_are_operands (defs : Definitions) :
    (∀ around s g g', Runs defs around s g (.ok ()) g' → g.code <+: g'.code) ∧
    ∀ body bc, (body.compile defs).outcome = .ok bc →
      (∃ result g, Runs defs [] body new result g) ∧
      ∀ result g, Runs defs [] body new result g →
        finish defs result g = body.compile defs ∧ bc.values = (g.emit .halt).code ∧
        ∃ code, bc.decode = .ok code ∧
          (∀ p ∈ g.patches, p.slot < p.length ∧ p.slot < p.target) ∧
          (g.patches.map Patch.slot).Nodup ∧
          (∀ slot, slot ∈ g.patches.map Patch.slot ↔
            ∃ p ∈ code, p.instr.target?.isSome ∧ p.goesBack = false ∧ slot = p.address + 1) ∧
          ∀ p ∈ g.patches, bc.values[p.slot]? = some p.target := by
  refine ⟨fun around s g g' hrun => hrun.appends.code, fun body bc hcompile =>
    ⟨exists_runs defs [] body new, fun result g hrun => ⟨finish_eq_compile hrun, ?_⟩⟩⟩
  obtain ⟨instrs, houtcome, rfl⟩ := Statement.compile_eq_ok_iff.mp hcompile
  obtain ⟨hevents, ⟨e, -, herror⟩ | ⟨instrs', -, houtcome', hvalues⟩⟩ := hrun.outcome
  · cases houtcome.symm.trans herror
  obtain rfl : instrs = instrs' := Except.ok.inj (houtcome.symm.trans houtcome')
  obtain ⟨t, -, hlayout⟩ := Statement.exists_expands_of_emit houtcome
  have hdecode := t.decode_layout
  rw [← hlayout] at hdecode
  -- what is filled in, in terms of the complete code
  have hperm : (g.patches.map fun p => (p.slot, p.target)).Perm
      (forwardOperands (Instr.place 0 (instrs ++ [.halt]))) := by
    rw [map_patches, hevents, Instr.place_append, forwardOperands_append]
    exact (Statement.perm_forwardOperands houtcome).trans (.of_eq (List.append_nil _).symm)
  have hslots : (g.patches.map Patch.slot).Perm
      ((forwardOperands (Instr.place 0 (instrs ++ [.halt]))).map Prod.fst) := by
    have hmap := hperm.map Prod.fst
    rw [List.map_map] at hmap
    exact hmap
  refine ⟨hvalues.symm, _, hdecode, fun p hp => ⟨?_, ?_⟩, ?_, fun slot => ?_, fun p hp => ?_⟩
  · obtain ⟨later, hlater, hinside⟩ := hrun.appends.filled
    rw [hlater] at hp
    exact hinside p hp
  · refine Statement.slot_lt_target houtcome ?_
    rw [← hevents, ← map_patches]
    exact List.mem_map_of_mem hp
  · exact hslots.nodup_iff.mpr (nodup_forwardOperands 0 _)
  · rw [hslots.mem_iff, mem_slots_forwardOperands]
  · exact values_forwardOperand (hperm.subset (List.mem_map_of_mem hp))

/-- A loop around a two-way branch that comes in for a call. -/
def weaver : Statement :=
  .whileDo (.ahead .wall true) (.call "sway")

/-- What the loop calls. -/
def weaverDefinitions : Definitions :=
  .ofList [("sway", .ifElse .random (.call "turnleft") (.call "turnright"))]

/-- The instructions of `weaver`. -/
def weaverCode : List Placed :=
  [⟨0, .jumpUnless (.ahead .wall true) 10⟩, ⟨2, .jumpUnless .random 7⟩, ⟨4, .act .turnLeft⟩,
    ⟨5, .jump 8⟩, ⟨7, .act .turnRight⟩, ⟨8, .jump 0⟩, ⟨10, .halt⟩]

/-- The code of `weaver` has four jumps. The slots of three of them are filled in, each once; the
operand of the jump back, at 9, is none of them. A run that starts after two other numbers leaves
these as they are. -/
theorem patches_are_operands_weaver :
    (weaver.compile weaverDefinitions).outcome =
      .ok ⟨[14, 10, 15, 7, 1, 6, 8, 2, 6, 0, 5]⟩ ∧
    (∃ result g, Runs weaverDefinitions [] weaver new result g ∧
      (g.patches.map Patch.slot).Nodup ∧
      (∀ slot, slot ∈ g.patches.map Patch.slot ↔ slot = 1 ∨ slot = 3 ∨ slot = 6) ∧
      ∀ p ∈ g.patches, [14, 10, 15, 7, 1, 6, 8, 2, 6, 0, 5][p.slot]? = some p.target) ∧
    ∃ g', Runs weaverDefinitions [] (.call "sway") { new with code := [4, 0] } (.ok ()) g' ∧
      [4, 0] <+: g'.code := by
  obtain ⟨happends, hcomplete⟩ := patches_are_operands weaverDefinitions
  have hcompile : (weaver.compile weaverDefinitions).outcome =
      .ok ⟨[14, 10, 15, 7, 1, 6, 8, 2, 6, 0, 5]⟩ := by cbv
  have hdecode : Bytecode.decode ⟨[14, 10, 15, 7, 1, 6, 8, 2, 6, 0, 5]⟩ = .ok weaverCode := by cbv
  obtain ⟨⟨result, g, hrun⟩, hruns⟩ := hcomplete weaver _ hcompile
  obtain ⟨-, -, code, hcode, -, hnodup, hslots, hvalues⟩ := hruns result g hrun
  obtain rfl : weaverCode = code := Except.ok.inj (hdecode.symm.trans hcode)
  refine ⟨hcompile, ⟨result, g, hrun, hnodup, fun slot => ?_, hvalues⟩, ?_⟩
  · rw [hslots]
    simp [weaverCode, Instr.target?, Placed.goesBack]
  · obtain ⟨result', g', hrun'⟩ :=
      exists_runs weaverDefinitions [] (.call "sway") { new with code := [4, 0] }
    have hsway : ((Statement.call "sway").emit weaverDefinitions [] maxDepth 2).outcome =
        .ok [.jumpUnless .random 7, .act .turnLeft, .jump 8, .act .turnRight] := by cbv
    cases result' with
    | error e => cases hsway.symm.trans ((hrun'.follows (Nat.zero_add maxDepth)).error e rfl)
    | ok => exact ⟨g', hrun', happends _ _ _ g' hrun'⟩

end Generator

end RobotScript
