import RobotScript.Proofs.Generator

/-!
# The code that the machine writes

The machine appends to one buffer and fills slots in later; `Statement.emit` gives code as a value
that is complete at once. Here the one is shown to do what the other describes: a run of the machine
fails in the same way, or appends the numbers of the same instructions, and it reports the same
events in the same order. For jumps forward this is where the slots are closed, each with the
address at which the buffer ends by then.

## Main definitions

* `Generator.Follows` — a run does the work that is described.

## Main results

* `Follows.ifThen`, `Follows.ifElse`, `Follows.whileDo`, `Follows.instruction`, `Follows.cons`: one
  form of statement at a time.
* `Runs.follows`: **a run does what `Statement.emit` describes**, from every state with levels left.
* `finish_eq_compile`: **the machine and `Statement.compile` agree**.
-/

namespace RobotScript

/-- What is a level is no sequence. -/
theorem Statement.block?_eq_none_of_nests {s : Statement} (h : s.nests = true) :
    s.block? = none := by
  cases s with
  | block body => cases h
  | ifThen | ifElse | whileDo | call => rfl

namespace Generator

variable {defs : Definitions} {around : List Statement} {s : Statement} {g g' : Generator}
  {result : Except CompileError Unit}

/-! ### What is reported -/

@[simp]
theorem events_visit : (g.visit around s).events = g.events := by
  simp [events, Entry.event?]

@[simp]
theorem events_enter : (g.enter s).events = g.events := rfl

@[simp]
theorem events_leave : (g.leave s).events = g.events := rfl

@[simp]
theorem events_write (value : Nat) : (g.write value).events = g.events := rfl

@[simp]
theorem events_patch (slot target : Nat) :
    (g.patch slot target).events = g.events ++ [.patched slot target] := by
  simp [events, Entry.event?]

@[simp]
theorem events_push (name : String) :
    (g.push name).events = g.events ++ [.inlining name g.position] := by
  simp [events, Entry.event?]

/-! ### What is appended -/

/-- A run does the work that is described: it fails alike or appends the code, and it reports the
same. -/
structure Follows (work : Logged CompileError (List Instr)) (result : Except CompileError Unit)
    (g g' : Generator) : Prop where
  events : g'.events = g.events ++ work.events
  error : ∀ e, result = .error e → work.outcome = .error e
  ok : result = .ok () → ∃ code, work.outcome = .ok code ∧
    g'.code = g.code ++ code.flatMap Instr.encode

theorem position_emit (op : Opcode) : (g.emit op).position = g.position + 1 := by
  simp

theorem position_reserve_emit (op : Opcode) :
    (g.emit op).reserve.position = g.position + 2 := by
  simp

theorem position_of_code {code : List Instr} (h : g'.code = g.code ++ code.flatMap Instr.encode) :
    g'.position = g.position + Instr.sizeAll code := by
  rw [position, h, List.length_append, Instr.length_flatMap_encode, position]

/-- Closing a jump writes the address after the code into its slot, and nowhere else. -/
theorem code_close {before later : List Nat} {op slot : Nat}
    (hcode : g.code = before ++ op :: 0 :: later) (hslot : slot = before.length + 1) :
    (g.close slot).code = before ++ op :: (before.length + 2 + later.length) :: later := by
  subst hslot
  simp only [close, patch_code, position, hcode, List.length_append, List.length_cons,
    List.set_append_right, Nat.le_add_right, Nat.add_sub_cancel_left, List.set_cons_succ,
    List.set_cons_zero]
  congr 3
  omega

/-- Closing a jump is reported. -/
theorem events_close {before later : List Nat} {op : Nat}
    (hcode : g.code = before ++ op :: 0 :: later) (slot : Nat) :
    (g.close slot).events = g.events ++ [.patched slot (before.length + 2 + later.length)] := by
  simp only [close, events_patch, position, hcode, List.length_append, List.length_cons]
  congr 3
  omega

/-- What a two-way branch does between its bodies. -/
theorem code_between {op : Opcode} {code : List Instr}
    (hcode : g'.code = (g.emit op).reserve.code ++ code.flatMap Instr.encode) :
    ((g'.emit .jump).reserve.close (g.emit op).position).code =
        g.code ++ op.code :: (g.position + 2 + Instr.sizeAll code + 2) ::
          code.flatMap Instr.encode ++ [Opcode.jump.code, 0] ∧
      ((g'.emit .jump).reserve.close (g.emit op).position).events =
        g'.events ++ [.patched (g.position + 1) (g.position + 2 + Instr.sizeAll code + 2)] := by
  have hreserved : (g'.emit .jump).reserve.code =
      g.code ++ op.code :: 0 :: (code.flatMap Instr.encode ++ [Opcode.jump.code, 0]) := by
    simp [hcode]
  have hlength : (code.flatMap Instr.encode ++ [Opcode.jump.code, 0]).length =
      Instr.sizeAll code + 2 := by
    rw [List.length_append, Instr.length_flatMap_encode]
    rfl
  constructor
  · rw [code_close hreserved (position_emit op), hlength, ← Nat.add_assoc, List.append_assoc]
    rfl
  · rw [events_close hreserved, hlength, ← Nat.add_assoc, position_emit]
    rfl

namespace Follows

variable {chain : List String} {levels : Nat} {c : Condition}

/-- A one-way branch: the jump over the body is closed after it. -/
theorem ifThen {body : Statement}
    (h : Follows (body.emit defs chain levels (g.position + 2)) result
      (g.emit (.jumpUnless c)).reserve g') :
    Follows ((Statement.ifThen c body).emit defs chain (levels + 1) g.position) result g
      (onSuccess result (close (g.emit (.jumpUnless c)).position) g') := by
  cases result with
  | error e =>
    refine ⟨?_, fun e' he => Statement.emit_ifThen_eq_error_iff.mpr (h.error e' he), by simp⟩
    rw [Statement.emit_ifThen_events_of_error (h.error e rfl)]
    exact h.events
  | ok =>
    obtain ⟨code, hbody, hcode⟩ := h.ok rfl
    replace hcode : g'.code =
        g.code ++ (Opcode.jumpUnless c).code :: 0 :: code.flatMap Instr.encode := by
      simpa using hcode
    refine ⟨?_, by simp, fun _ => ⟨_, Statement.emit_ifThen_eq_ok_iff.mpr ⟨code, hbody, rfl⟩, ?_⟩⟩
    · rw [Statement.emit_ifThen_events hbody, onSuccess, events_close hcode, h.events,
        position_emit, Instr.length_flatMap_encode, List.append_assoc]
      rfl
    · rw [onSuccess, code_close hcode (position_emit _), Instr.length_flatMap_encode]
      rfl

/-- A loop: a jump back follows the body, and the jump over the body is closed after that. -/
theorem whileDo {body : Statement}
    (h : Follows (body.emit defs chain levels (g.position + 2)) result
      (g.emit (.jumpUnless c)).reserve g') :
    Follows ((Statement.whileDo c body).emit defs chain (levels + 1) g.position) result g
      (onSuccess result
        (fun g' => ((g'.emit .jump).write g.position).close (g.emit (.jumpUnless c)).position)
        g') := by
  cases result with
  | error e =>
    refine ⟨?_, fun e' he => Statement.emit_whileDo_eq_error_iff.mpr (h.error e' he), by simp⟩
    rw [Statement.emit_whileDo_events_of_error (h.error e rfl)]
    exact h.events
  | ok =>
    obtain ⟨code, hbody, hcode⟩ := h.ok rfl
    replace hcode : ((g'.emit .jump).write g.position).code =
        g.code ++ (Opcode.jumpUnless c).code :: 0 ::
          (code.flatMap Instr.encode ++ [Opcode.jump.code, g.position]) := by
      simp [hcode]
    have hlength : (code.flatMap Instr.encode ++ [Opcode.jump.code, g.position]).length =
        Instr.sizeAll code + 2 := by
      rw [List.length_append, Instr.length_flatMap_encode]
      rfl
    refine ⟨?_, by simp, fun _ => ⟨_, Statement.emit_whileDo_eq_ok_iff.mpr ⟨code, hbody, rfl⟩, ?_⟩⟩
    · rw [Statement.emit_whileDo_events hbody, onSuccess, events_close hcode, hlength,
        ← Nat.add_assoc, position_emit]
      change g'.events ++ _ = _
      rw [h.events, List.append_assoc]
      rfl
    · rw [onSuccess, code_close hcode (position_emit _), hlength, ← Nat.add_assoc,
        List.flatMap_append]
      rfl

/-- A two-way branch whose first body fails. -/
theorem thenFails {thenBody elseBody : Statement} {e : CompileError}
    (h : Follows (thenBody.emit defs chain levels (g.position + 2)) (.error e)
      (g.emit (.jumpUnless c)).reserve g') :
    Follows ((Statement.ifElse c thenBody elseBody).emit defs chain (levels + 1) g.position)
      (.error e) g g' := by
  refine ⟨?_, fun e' he => Statement.emit_ifElse_eq_error_iff.mpr (.inl (h.error e' he)), by simp⟩
  rw [Statement.emit_ifElse_events_of_then_error (h.error e rfl)]
  exact h.events

/-- A two-way branch: between the bodies the slot of the jump over the second one is appended, and
the jump to the second one is closed. -/
theorem ifElse {thenBody elseBody : Statement} {g₁ : Generator}
    (hthen : Follows (thenBody.emit defs chain levels (g.position + 2)) (.ok ())
      (g.emit (.jumpUnless c)).reserve g₁)
    (helse : Follows (elseBody.emit defs chain levels
        ((g₁.emit .jump).reserve.close (g.emit (.jumpUnless c)).position).position) result
      ((g₁.emit .jump).reserve.close (g.emit (.jumpUnless c)).position) g') :
    Follows ((Statement.ifElse c thenBody elseBody).emit defs chain (levels + 1) g.position)
      result g (onSuccess result (close (g₁.emit .jump).position) g') := by
  obtain ⟨thenCode, houtcome, hcode₁⟩ := hthen.ok rfl
  have hslot := position_of_code hcode₁
  rw [position_reserve_emit] at hslot
  obtain ⟨hcode₂, hevents₂⟩ := code_between hcode₁
  rw [hthen.events] at hevents₂
  generalize (g₁.emit .jump).reserve.close (g.emit (.jumpUnless c)).position = g₂
    at helse hcode₂ hevents₂
  generalize hbefore : g.code ++ (Opcode.jumpUnless c).code ::
    (g.position + 2 + Instr.sizeAll thenCode + 2) :: thenCode.flatMap Instr.encode = before
    at hcode₂
  have hlength : before.length = g.position + 2 + Instr.sizeAll thenCode := by
    rw [← hbefore, List.length_append, List.length_cons, List.length_cons,
      Instr.length_flatMap_encode, position]
    omega
  have hposition : g₂.position = g.position + 2 + Instr.sizeAll thenCode + 2 := by
    rw [position, hcode₂, List.length_append, hlength]
    rfl
  rw [hposition] at helse
  cases result with
  | error e =>
    refine ⟨?_, fun e' he => Statement.emit_ifElse_eq_error_iff.mpr
      (.inr ⟨thenCode, houtcome, helse.error e' he⟩), by simp⟩
    rw [Statement.emit_ifElse_events_of_else_error houtcome (helse.error e rfl), onSuccess,
      helse.events, hevents₂, List.append_assoc, List.append_assoc]
    rfl
  | ok =>
    obtain ⟨elseCode, houtcome', hcode'⟩ := helse.ok rfl
    rw [hcode₂, List.append_assoc, List.cons_append, List.cons_append, List.nil_append] at hcode'
    refine ⟨?_, by simp, fun _ => ⟨_, Statement.emit_ifElse_eq_ok_iff.mpr
      ⟨thenCode, elseCode, houtcome, houtcome', rfl⟩, ?_⟩⟩
    · rw [Statement.emit_ifElse_events houtcome houtcome', onSuccess, events_close hcode',
        helse.events, hevents₂, hlength, position_emit, hslot, Instr.length_flatMap_encode]
      simp only [List.append_assoc]
      rfl
    · rw [onSuccess, code_close hcode' (by rw [position_emit, hslot, hlength]), hlength, ← hbefore,
        Instr.length_flatMap_encode, List.flatMap_append, List.append_assoc]
      rfl

/-- The call of an instruction: its body is inserted, with the instruction on the stack. -/
theorem instruction {name : String} {body : Statement} (hact : Action.ofName? name = none)
    (hfind : defs.find? name = some body) (hmem : name ∉ chain)
    (h : Follows (body.emit defs (chain ++ [name]) levels g.position) result (g.push name) g') :
    Follows ((Statement.call name).emit defs chain (levels + 1) g.position) result g
      (onSuccess result pop g') := by
  have hevents : g'.events =
      g.events ++ ((Statement.call name).emit defs chain (levels + 1) g.position).events := by
    rw [Statement.emit_call_instruction_events hact hfind hmem, h.events, events_push,
      List.append_assoc, List.singleton_append]
  obtain ⟨-, herror, hok⟩ := h
  rw [← Statement.emit_call_instruction_outcome hact hfind hmem] at herror hok
  cases result with
  | error e => exact ⟨hevents, herror, by simp⟩
  | ok => exact ⟨hevents, by simp, hok⟩

/-- Statements of which the first fails. -/
theorem firstFails {rest : List Statement} {e : CompileError}
    (h : Follows (s.emit defs chain levels g.position) (.error e) g g') :
    Follows (Statement.emitAll defs chain levels g.position (s :: rest)) (.error e) g g' := by
  refine ⟨?_, fun e' he => Statement.emitAll_cons_eq_error_iff.mpr (.inl (h.error e' he)), by simp⟩
  rw [Statement.emitAll_cons_events_of_first_error (h.error e rfl), h.events]

/-- Statements one after another. -/
theorem cons {rest : List Statement} {g₁ : Generator}
    (h : Follows (s.emit defs chain levels g.position) (.ok ()) g g₁)
    (hrest : Follows (Statement.emitAll defs chain levels g₁.position rest) result g₁ g') :
    Follows (Statement.emitAll defs chain levels g.position (s :: rest)) result g g' := by
  obtain ⟨first, hfirst, hcode⟩ := h.ok rfl
  rw [position_of_code hcode] at hrest
  cases result with
  | error e =>
    refine ⟨?_, fun e' he => Statement.emitAll_cons_eq_error_iff.mpr
      (.inr ⟨first, hfirst, hrest.error e' he⟩), by simp⟩
    rw [Statement.emitAll_cons_events_of_later_error hfirst (hrest.error e rfl), hrest.events,
      h.events, List.append_assoc]
  | ok =>
    obtain ⟨later, hlater, hcode'⟩ := hrest.ok rfl
    refine ⟨?_, by simp, fun _ => ⟨_, Statement.emitAll_cons_eq_ok_iff.mpr
      ⟨first, later, hfirst, hlater, rfl⟩, ?_⟩⟩
    · rw [Statement.emitAll_cons_events hfirst hlater, hrest.events, h.events, List.append_assoc]
    · rw [hcode', hcode, List.flatMap_append, List.append_assoc]

end Follows

/-- **A run does what `Statement.emit` describes**, wherever the code has come to, with the levels
that are left. -/
theorem Runs.follows (h : Runs defs around s g result g') {levels : Nat}
    (hlevels : g.depth + levels = maxDepth) :
    Follows (s.emit defs g.expanding levels g.position) result g g' := by
  revert levels
  refine @Runs.rec defs
    (fun _ s g result g' _ => ∀ {levels}, g.depth + levels = maxDepth →
      Follows (s.emit defs g.expanding levels g.position) result g g')
    (fun _ s g result g' _ => ∀ {levels}, g.depth + levels = maxDepth →
      Follows (s.emit defs g.expanding (levels + s.nests.toNat) g.position) result g g')
    (fun _ body g result g' _ => ∀ {levels}, g.depth + levels = maxDepth →
      Follows (Statement.emitAll defs g.expanding levels g.position body) result g g')
    ?noLevel ?level ?block ?ifThen ?thenFails ?ifElse ?whileDo ?action ?undefined ?recursive
      ?instruction ?nil ?firstFails ?cons around s g result g' h
  case noLevel =>
    intro _ s g hs hdepth levels hlevels
    obtain rfl : levels = 0 := by omega
    rw [Statement.emit_zero (Statement.block?_eq_none_of_nests hs)]
    exact ⟨by simp, by simp, by simp⟩
  case level =>
    intro _ s result g g' hdepth _ ih levels hlevels
    have hnests : s.nests.toNat ≤ levels := by
      cases hs : s.nests with
      | false => exact Nat.zero_le levels
      | true =>
        have := hdepth hs
        rw [Bool.toNat_true]
        omega
    have ih := @ih (levels - s.nests.toNat) (by simp; omega)
    rw [Nat.sub_add_cancel hnests] at ih
    exact ⟨by simpa using ih.events, ih.error, ih.ok⟩
  case block =>
    intro _ body result g g' _ ih levels hlevels
    rw [Statement.emit_block]
    exact ih hlevels
  case ifThen =>
    intro _ c body result g g' _ ih levels hlevels
    have ih := ih hlevels
    rw [position_reserve_emit] at ih
    exact ih.ifThen
  case thenFails =>
    intro _ c thenBody elseBody e g g' _ ih levels hlevels
    have ih := ih hlevels
    rw [position_reserve_emit] at ih
    exact ih.thenFails
  case ifElse =>
    intro _ c thenBody elseBody result g g₁ g' hrun _ ihThen ihElse levels hlevels
    obtain ⟨hdepth, hexpanding⟩ := hrun.restores
    have ihThen := ihThen hlevels
    have ihElse := @ihElse levels (by simpa [hdepth] using hlevels)
    rw [position_reserve_emit] at ihThen
    have hexpanding' : g₁.expanding = g.expanding := hexpanding rfl
    exact ihThen.ifElse (hexpanding' ▸ ihElse)
  case whileDo =>
    intro _ c body result g g' _ ih levels hlevels
    have ih := ih hlevels
    rw [position_reserve_emit] at ih
    exact ih.whileDo
  case action =>
    intro _ name action g hact levels hlevels
    change Follows (Statement.emit defs g.expanding (levels + 1) g.position (.call name)) _ _ _
    rw [Statement.emit_call_action hact]
    exact ⟨by simp, by simp, fun _ => ⟨_, rfl, rfl⟩⟩
  case undefined =>
    intro _ name g hact hfind levels hlevels
    change Follows (Statement.emit defs g.expanding (levels + 1) g.position (.call name)) _ _ _
    rw [Statement.emit_call_undefined hact hfind]
    exact ⟨by simp, by simp, by simp⟩
  case recursive =>
    intro _ name body g hact hfind hmem levels hlevels
    change Follows (Statement.emit defs g.expanding (levels + 1) g.position (.call name)) _ _ _
    rw [Statement.emit_call_recursive hact hfind hmem]
    exact ⟨by simp, by simp, by simp⟩
  case instruction =>
    intro _ name body result g g' hact hfind hmem _ ih levels hlevels
    exact (ih hlevels).instruction hact hfind hmem
  case nil =>
    intro _ g levels hlevels
    rw [Statement.emitAll_nil]
    exact ⟨by simp, by simp, fun _ => ⟨[], rfl, by simp⟩⟩
  case firstFails =>
    intro _ s rest e g g' _ ih levels hlevels
    exact (ih hlevels).firstFails
  case cons =>
    intro _ s rest result g g₁ g' hrun _ ih ihRest levels hlevels
    obtain ⟨hdepth, hexpanding⟩ := hrun.restores
    exact (ih hlevels).cons (hexpanding rfl ▸ ihRest (hdepth.symm ▸ hlevels))

/-! ### The complete code -/

/-- A run on a main body that succeeds has written its code, and one that fails fails alike. -/
theorem Runs.outcome {body : Statement} (h : Runs defs [] body new result g) :
    g.events = (body.emit defs [] maxDepth 0).events ∧
      ((∃ e, result = .error e ∧ (body.emit defs [] maxDepth 0).outcome = .error e) ∨
        ∃ code, result = .ok () ∧ (body.emit defs [] maxDepth 0).outcome = .ok code ∧
          (g.emit .halt).code = (code ++ [Instr.halt]).flatMap Instr.encode) := by
  obtain ⟨hevents, herror, hok⟩ := h.follows (Nat.zero_add maxDepth)
  refine ⟨hevents, ?_⟩
  cases result with
  | error e => exact .inl ⟨e, rfl, herror e rfl⟩
  | ok =>
    obtain ⟨code, houtcome, hcode⟩ := hok rfl
    refine .inr ⟨code, rfl, houtcome, ?_⟩
    rw [emit, write_code, hcode, List.flatMap_append]
    rfl

/-- **The machine and `Statement.compile` agree**, in the outcome and in what they report. -/
theorem finish_eq_compile {body : Statement} (h : Runs defs [] body new result g) :
    finish defs result g = body.compile defs := by
  obtain ⟨hevents, ⟨e, rfl, houtcome⟩ | ⟨code, rfl, houtcome, hcode⟩⟩ := h.outcome
  · simp only [Statement.compile, houtcome, finish, hevents]
  · simp only [Statement.compile, houtcome, ← hevents, Bytecode.ofInstrs, ← hcode]
    rfl

end Generator

end RobotScript
