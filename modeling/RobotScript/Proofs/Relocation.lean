import Mathlib.Tactic
import RobotScript.Proofs.BoundedExpansion
import RobotScript.Proofs.Placement

/-!
# Code at another address

The code of a statement depends on where it starts, since its jumps name addresses of the whole
program. It depends on nothing else there: at another address it is the same code with its targets
moved along, and a statement that has no code has none anywhere, for the same reason. So the code of
a sequence is made of the codes that its members have by themselves. Nothing of one member is
carried over to the next, neither levels nor instructions that are being inserted.

## Main definitions

* `Instr.moved` — an instruction with its target further on.
* `Instr.joined` — pieces of code one after another, with their targets moved to where they start.
* `Statement.HasCode` — the instructions of a statement that is compiled by itself.

## Main results

* `Statement.emit_add`: **at another address there is the same code, with its targets moved**, or
  the same error.
* `Statement.emitAll_eq_ok_of_forall₂`, `Statement.emitAll_eq_error_iff`: the code of a sequence
  from the codes of its members.
* `Statement.compile_sequence`: **the code of a sequence is made of the codes of its members**.
-/

namespace RobotScript

namespace Instr

/-! ### Moving code -/

/-- The instruction with its target further on by `distance`. -/
def moved (distance : Nat) : Instr → Instr
  | act action => act action
  | halt => halt
  | jump target => jump (target + distance)
  | jumpUnless c target => jumpUnless c (target + distance)

/-- A moved instruction takes the same room. -/
theorem size_moved (distance : Nat) (i : Instr) : (i.moved distance).size = i.size := by
  cases i <;> rfl

/-- Moved code takes the same room. -/
theorem sizeAll_map_moved (distance : Nat) (code : List Instr) :
    sizeAll (code.map (moved distance)) = sizeAll code := by
  induction code with
  | nil => rfl
  | cons i code ih => rw [List.map_cons, sizeAll, sizeAll, size_moved, ih]

/-- Pieces of code one after another from `start` on. The targets of each are moved by `start` and
the room that the pieces before it take. -/
def joined (start : Nat) (pieces : List (List Instr)) : List Instr :=
  (pieces.mapIdx fun i piece =>
    piece.map (moved (start + sizeAll (pieces.take i).flatten))).flatten

@[simp]
theorem joined_nil (start : Nat) : joined start [] = [] := rfl

/-- The first piece moves the others by its size. -/
theorem joined_cons (start : Nat) (piece : List Instr) (pieces : List (List Instr)) :
    joined start (piece :: pieces) =
      piece.map (moved start) ++ joined (start + sizeAll piece) pieces := by
  simp only [joined, List.mapIdx_cons, List.take_zero, List.flatten_nil, List.take_succ_cons,
    List.flatten_cons, sizeAll_append, Nat.add_assoc]
  rfl

end Instr

namespace Statement

variable {defs : Definitions} {chain : List String} {levels start : Nat} {s : Statement}

/-! ### Generation at another address -/

/-- **Further on there is the same code, with its targets moved.** -/
theorem emit_add_of_ok {code : List Instr} (distance : Nat)
    (h : (emit defs chain levels start s).outcome = .ok code) :
    (emit defs chain levels (start + distance) s).outcome =
      .ok (code.map (Instr.moved distance)) := by
  refine @emit_induction defs chain levels start code
    (fun chain levels start s code =>
      (emit defs chain levels (start + distance) s).outcome =
        .ok (code.map (Instr.moved distance)))
    (fun chain levels start body code =>
      (emitAll defs chain levels (start + distance) body).outcome =
        .ok (code.map (Instr.moved distance)))
    ?block ?ifThen ?ifElse ?whileDo ?action ?instruction ?nil ?cons s h
  case block =>
    intro _ _ start body code ih
    rw [emit_block, ih]
  case ifThen =>
    intro _ _ start c body code ih
    rw [Nat.add_right_comm] at ih
    refine emit_ifThen_eq_ok_iff.mpr ⟨_, ih, ?_⟩
    rw [List.map_cons, Instr.moved, Instr.sizeAll_map_moved]
    congr 2
    omega
  case ifElse =>
    intro _ _ start c thenBody elseBody thenCode elseCode ihThen ihElse
    have hsize := Instr.sizeAll_map_moved distance thenCode
    have hplace : start + 2 + Instr.sizeAll thenCode + 2 + distance =
        start + distance + 2 + Instr.sizeAll (thenCode.map (Instr.moved distance)) + 2 := by omega
    rw [Nat.add_right_comm] at ihThen
    rw [hplace] at ihElse
    refine emit_ifElse_eq_ok_iff.mpr ⟨_, _, ihThen, ihElse, ?_⟩
    rw [List.map_append, List.map_cons, List.map_cons, Instr.moved, Instr.moved, hplace,
      Instr.sizeAll_map_moved distance elseCode, ← hplace]
    congr 3
    omega
  case whileDo =>
    intro _ _ start c body code ih
    rw [Nat.add_right_comm] at ih
    refine emit_whileDo_eq_ok_iff.mpr ⟨_, ih, ?_⟩
    rw [List.map_append, List.map_cons, Instr.moved, Instr.sizeAll_map_moved, List.map_singleton,
      Instr.moved]
    congr 3
    omega
  case action =>
    intro _ _ start name action hact
    rw [emit_call_action hact]
    rfl
  case instruction =>
    intro _ _ start name body code hact hfind hmem ih
    rw [emit_call_instruction_outcome hact hfind hmem, ih]
  case nil =>
    intro _ _ start
    rw [emitAll_nil]
    rfl
  case cons =>
    intro _ _ start s rest first later ih ihRest
    rw [Nat.add_right_comm] at ihRest
    refine emitAll_cons_eq_ok_iff.mpr ⟨_, _, ih, ?_, List.map_append⟩
    rw [Instr.sizeAll_map_moved, ihRest]

/-- **Further on there is the same error.** -/
theorem emit_add_of_error {e : CompileError} (distance : Nat)
    (h : (emit defs chain levels start s).outcome = .error e) :
    (emit defs chain levels (start + distance) s).outcome = .error e := by
  refine @emit_error_induction defs chain levels start e
    (fun chain levels start s e => (emit defs chain levels (start + distance) s).outcome = .error e)
    (fun chain levels start body e =>
      (emitAll defs chain levels (start + distance) body).outcome = .error e)
    ?block ?noLevel ?ifThen ?thenBody ?elseBody ?whileDo ?undefined ?recursive ?instruction ?first
      ?later s h
  case block =>
    intro _ _ start body e ih
    rw [emit_block, ih]
  case noLevel =>
    intro chain start s hs
    rw [emit_zero hs, Logged.outcome_fail]
  case ifThen =>
    intro _ _ start c body e ih
    rw [Nat.add_right_comm] at ih
    exact emit_ifThen_eq_error_iff.mpr ih
  case thenBody =>
    intro _ _ start c thenBody elseBody e ih
    rw [Nat.add_right_comm] at ih
    exact emit_ifElse_eq_error_iff.mpr (.inl ih)
  case elseBody =>
    -- After the code of the first body.
    intro _ _ start c thenBody elseBody thenCode e hthen ih
    have hthen := emit_add_of_ok distance hthen
    rw [Nat.add_right_comm] at hthen
    refine emit_ifElse_eq_error_iff.mpr (.inr ⟨_, hthen, ?_⟩)
    rw [Instr.sizeAll_map_moved, ← ih]
    congr 2
    omega
  case whileDo =>
    intro _ _ start c body e ih
    rw [Nat.add_right_comm] at ih
    exact emit_whileDo_eq_error_iff.mpr ih
  case undefined =>
    intro _ _ start name hact hfind
    rw [emit_call_undefined hact hfind, Logged.outcome_fail]
  case recursive =>
    intro _ _ start name body hact hfind hmem
    rw [emit_call_recursive hact hfind hmem, Logged.outcome_fail]
  case instruction =>
    intro _ _ start name body e hact hfind hmem ih
    rw [emit_call_instruction_outcome hact hfind hmem, ih]
  case first =>
    intro _ _ start s rest e ih
    exact emitAll_cons_eq_error_iff.mpr (.inl ih)
  case later =>
    -- After the code of the first statement.
    intro _ _ start s rest code e hs ih
    refine emitAll_cons_eq_error_iff.mpr (.inr ⟨_, emit_add_of_ok distance hs, ?_⟩)
    rw [Instr.sizeAll_map_moved, Nat.add_right_comm, ih]

/-- At another address there is the same code with its targets moved, or the same error. -/
theorem emit_add (s : Statement) (distance : Nat) :
    (emit defs chain levels (start + distance) s).outcome =
      (emit defs chain levels start s).outcome.map (List.map (Instr.moved distance)) := by
  cases h : (emit defs chain levels start s).outcome with
  | ok code => exact emit_add_of_ok distance h
  | error e => exact emit_add_of_error distance h

/-- A statement has code at every address or at none. -/
theorem exists_emit_eq_ok_iff (s : Statement) (start : Nat) :
    (∃ code, (emit defs chain levels start s).outcome = .ok code) ↔
      ∃ code, (emit defs chain levels 0 s).outcome = .ok code := by
  rw [emit_succeeds_iff, emit_succeeds_iff]

/-- A statement fails with the same error at every address. -/
theorem emit_eq_error_iff {s : Statement} {e : CompileError} (start : Nat) :
    (emit defs chain levels start s).outcome = .error e ↔
      (emit defs chain levels 0 s).outcome = .error e := by
  rw [← Nat.zero_add start, emit_add]
  cases (emit defs chain levels 0 s).outcome <;> simp [Except.map]

/-! ### One statement after another -/

/-- The code of a sequence from the codes of its members at address zero. -/
theorem emitAll_eq_ok_of_forall₂ {body : List Statement} {pieces : List (List Instr)}
    (h : List.Forall₂ (fun s piece => (emit defs chain levels 0 s).outcome = .ok piece) body pieces)
    (start : Nat) :
    (emitAll defs chain levels start body).outcome = .ok (Instr.joined start pieces) := by
  induction h generalizing start with
  | nil => rw [emitAll_nil, Logged.outcome_pure, Instr.joined_nil]
  | cons hs _ ih =>
      have hs := emit_add_of_ok start hs
      rw [Nat.zero_add] at hs
      refine emitAll_cons_eq_ok_iff.mpr ⟨_, _, hs, ?_, Instr.joined_cons _ _ _⟩
      rw [Instr.sizeAll_map_moved, ih]

/-- A sequence fails as the first of its members that fails at address zero. -/
theorem emitAll_eq_error_iff {body : List Statement} {e : CompileError} :
    (emitAll defs chain levels start body).outcome = .error e ↔
      ∃ before s after, body = before ++ s :: after ∧
        (∀ t ∈ before, ∃ code, (emit defs chain levels 0 t).outcome = .ok code) ∧
        (emit defs chain levels 0 s).outcome = .error e := by
  induction body generalizing start with
  | nil => simp [emitAll_nil]
  | cons s rest ih =>
      rw [emitAll_cons_eq_error_iff]
      constructor
      · rintro (hs | ⟨code, hs, hrest⟩)
        · exact ⟨[], s, rest, rfl, by simp, (emit_eq_error_iff start).mp hs⟩
        · obtain ⟨before, t, after, rfl, hbefore, ht⟩ := ih.mp hrest
          have hs := (exists_emit_eq_ok_iff s start).mp ⟨code, hs⟩
          exact ⟨s :: before, t, after, rfl, List.forall_mem_cons.mpr ⟨hs, hbefore⟩, ht⟩
      · rintro ⟨before, t, after, heq, hbefore, ht⟩
        cases before with
        | nil =>
            obtain ⟨rfl, rfl⟩ := List.cons.inj heq
            exact .inl ((emit_eq_error_iff start).mpr ht)
        | cons s' before =>
            obtain ⟨rfl, rfl⟩ := List.cons.inj heq
            obtain ⟨hs, hbefore⟩ := List.forall_mem_cons.mp hbefore
            obtain ⟨code, hs⟩ := (exists_emit_eq_ok_iff s start).mpr hs
            exact .inr ⟨code, hs, ih.mpr ⟨before, t, after, rfl, hbefore, ht⟩⟩

/-! ### Main bodies -/

/-- The statement, compiled by itself, has these instructions and then a halt. -/
structure HasCode (defs : Definitions) (s : Statement) (code : List Instr) : Prop where
  compile_eq : (s.compile defs).outcome = .ok (.ofInstrs (code ++ [.halt]))
  decode_eq : (Bytecode.ofInstrs (code ++ [.halt])).decode =
    .ok (Instr.place 0 (code ++ [.halt]))

/-- A statement has one code by itself. -/
theorem HasCode.unique {code code' : List Instr} (h : s.HasCode defs code)
    (h' : s.HasCode defs code') : code = code' := by
  have hdecode := h.decode_eq
  rw [Except.ok.inj (h.compile_eq.symm.trans h'.compile_eq), h'.decode_eq] at hdecode
  have hinstrs := congrArg (List.map Placed.instr) (Except.ok.inj hdecode)
  rw [Instr.map_instr_place, Instr.map_instr_place] at hinstrs
  exact (List.append_cancel_right hinstrs).symm

/-- What the generator returns at address zero is the code of a statement by itself. -/
theorem hasCode_of_emit {code : List Instr}
    (h : (s.emit defs [] maxDepth 0).outcome = .ok code) : s.HasCode defs code := by
  refine ⟨compile_eq_ok_iff.mpr ⟨code, h, rfl⟩, ?_⟩
  obtain ⟨t, -, rfl⟩ := exists_expands_of_emit h
  exact t.decode_layout

/-- A statement compiles exactly if it has code at address zero. -/
theorem exists_compile_eq_ok_iff :
    (∃ bc, (s.compile defs).outcome = .ok bc) ↔
      ∃ code, (s.emit defs [] maxDepth 0).outcome = .ok code := by
  simp only [compile_eq_ok_iff]
  constructor
  · rintro ⟨-, code, h, -⟩
    exact ⟨code, h⟩
  · rintro ⟨code, h⟩
    exact ⟨_, code, h, rfl⟩

/-- A statement fails to compile exactly if it is not bounded. -/
theorem exists_compile_eq_error_iff :
    (∃ e, (s.compile defs).outcome = .error e) ↔ ¬ Bounded defs [] maxDepth s := by
  simp only [compile_eq_error_iff, ← @emit_succeeds_iff defs [] maxDepth 0]
  cases (s.emit defs [] maxDepth 0).outcome <;> simp

/-- **The code of a sequence is made of the codes of its members.** A sequence fails exactly if one
of its members fails when it is compiled by itself, and then as the first one that does. If all
members have code, the sequence has their codes one after another, in which the targets of the jumps
of each are moved by the room that the codes before it take, and nothing else is changed. -/
theorem compile_sequence (defs : Definitions) (body : List Statement) :
    ((∃ e, ((block body).compile defs).outcome = .error e) ↔
      ∃ s ∈ body, ∃ e, (s.compile defs).outcome = .error e) ∧
    (∀ e, ((block body).compile defs).outcome = .error e ↔
      ∃ before s after, body = before ++ s :: after ∧
        (∀ t ∈ before, ∃ bc, (t.compile defs).outcome = .ok bc) ∧
        (s.compile defs).outcome = .error e) ∧
    ((∀ s ∈ body, ∃ bc, (s.compile defs).outcome = .ok bc) →
      ∃ pieces, List.Forall₂ (HasCode defs) body pieces ∧
        (block body).HasCode defs (Instr.joined 0 pieces)) := by
  refine ⟨?_, fun e => ?_, fun h => ?_⟩
  · simp only [exists_compile_eq_error_iff, bounded_block_iff]
    push Not
    rfl
  · simp only [compile_eq_error_iff, exists_compile_eq_ok_iff, emit_block]
    exact emitAll_eq_error_iff
  · simp only [exists_compile_eq_ok_iff] at h
    choose! piece hpiece using h
    have hpieces : List.Forall₂ (fun s code => (s.emit defs [] maxDepth 0).outcome = .ok code) body
        (body.map piece) :=
      List.forall₂_map_right_iff.mpr (List.forall₂_same.mpr hpiece)
    refine ⟨_, hpieces.imp fun _ _ => hasCode_of_emit, hasCode_of_emit ?_⟩
    rw [emit_block, emitAll_eq_ok_of_forall₂ hpieces]

/-- A branch, a call and a loop. -/
def march : List Statement :=
  [.ifThen .random (.call "move"), .call "circle", .whileDo (.ahead .empty false) (.call "move")]

/-- What is called, and an instruction that calls itself. -/
def marchDefinitions : Definitions :=
  .ofList [("circle", .whileDo .random (.call "turnleft")), ("march", .call "march")]

/-- The codes of the three statements by themselves. -/
def marchPieces : List (List Instr) :=
  [[.jumpUnless .random 3, .act .move], [.jumpUnless .random 5, .act .turnLeft, .jump 0],
    [.jumpUnless (.ahead .empty false) 5, .act .move, .jump 0]]

/-- In the code of the sequence the jumps of the call are moved by three and those of the loop by
eight. If two statements follow that have no code, the sequence fails as the first of these. -/
theorem compile_sequence_march :
    List.Forall₂ (HasCode marchDefinitions) march marchPieces ∧
    (block march).HasCode marchDefinitions (Instr.joined 0 marchPieces) ∧
    Instr.joined 0 marchPieces =
      [.jumpUnless .random 3, .act .move, .jumpUnless .random 8, .act .turnLeft, .jump 3,
        .jumpUnless (.ahead .empty false) 13, .act .move, .jump 8] ∧
    ((block (march ++ [.call "home", .call "march"])).compile marchDefinitions).outcome =
      .error (.undefined "home") := by
  have hpieces : List.Forall₂ (HasCode marchDefinitions) march marchPieces :=
    .cons (hasCode_of_emit (by cbv)) (.cons (hasCode_of_emit (by cbv))
      (.cons (hasCode_of_emit (by cbv)) .nil))
  have hmembers : ∀ s ∈ march, ∃ bc, (s.compile marchDefinitions).outcome = .ok bc := by
    simp only [march, List.forall_mem_cons]
    exact ⟨⟨_, by cbv⟩, ⟨_, by cbv⟩, ⟨_, by cbv⟩, by simp⟩
  obtain ⟨pieces, hpieces', hcode⟩ := (compile_sequence marchDefinitions march).2.2 hmembers
  have hunique : Relator.RightUnique (HasCode marchDefinitions) := fun _ _ _ h h' => h.unique h'
  obtain rfl : pieces = marchPieces := List.right_unique_forall₂' hunique hpieces' hpieces
  have hhome : ((call "home").compile marchDefinitions).outcome = .error (.undefined "home") := by
    cbv
  exact ⟨hpieces, hcode, rfl, ((compile_sequence marchDefinitions _).2.1 _).mpr
    ⟨march, .call "home", [.call "march"], rfl, hmembers, hhome⟩⟩

end Statement

end RobotScript
