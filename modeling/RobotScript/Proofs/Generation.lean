import RobotScript.Compile

/-!
# When generating code succeeds

`Statement.emit` fails in three ways (an undefined name, a circle of calls, too many levels) and
otherwise returns the code of the statement. This module says once, form by form, when it succeeds
and with what code, and packages the recursion of the generator as an induction over its
successes and as one over its failures. Later modules cite these facts and never open the generator
again.

## Main results

* `emit_ifThen_eq_ok_iff`, `emit_ifElse_eq_ok_iff`, `emit_whileDo_eq_ok_iff`,
  `emitAll_cons_eq_ok_iff`: the code of a compound statement in terms of the code of its parts.
* `emit_call_action`, `emit_call_instruction_outcome`: the code of a call.
* `emitAll_singleton`, `emitAll_append`: a sequence of one, and a sequence in two parts.
* `emit_report_induction`, `emit_induction`: **induction over successful generation**, with and
  without its events; what holds of the code of the parts and passes to the whole holds of all code
  that is ever generated.
* `emit_error_induction`: **induction over failing generation**; what holds of the three errors
  where they arise and passes outwards holds of every error that is ever reported.
* `emit_ifElse_events_of_else_error`, `emitAll_cons_events_of_later_error`: what is reported by work
  that then fails.
* `compile_eq_ok_iff`: the complete code is the code of the main body, and a halt.
-/

namespace RobotScript.Statement

open Logged

variable {defs : Definitions} {chain : List String} {levels start : Nat} {code : List Instr}

/-! ### One form at a time -/

/-- A sequence adds no level of its own. -/
theorem emit_block (body : List Statement) :
    emit defs chain levels start (block body) = emitAll defs chain levels start body := by
  rw [emit]

/-- What is no sequence has no members. -/
theorem block?_eq_none {s : Statement} (h : ∀ body, s = block body → False) : s.block? = none := by
  cases s with
  | block body => exact (h body rfl).elim
  | ifThen | ifElse | whileDo | call => rfl

/-- Without a level left, nothing but a sequence has code. -/
theorem emit_zero {s : Statement} (h : s.block? = none) :
    emit defs chain 0 start s = fail (.tooDeep maxDepth chain) := by
  cases s with
  | block body => simp [block?] at h
  | ifThen c body => rw [emit]; simp
  | ifElse c thenBody elseBody => rw [emit]; simp
  | whileDo c body => rw [emit]; simp
  | call name => rw [emit]; simp

/-- The code of a one-way branch: a conditional jump over the code of the body. -/
theorem emit_ifThen_eq_ok_iff {c : Condition} {body : Statement} :
    (emit defs chain (levels + 1) start (ifThen c body)).outcome = .ok code ↔
      ∃ inner, (emit defs chain levels (start + 2) body).outcome = .ok inner ∧
        code = .jumpUnless c (start + 2 + Instr.sizeAll inner) :: inner := by
  rw [emit]
  simp only [outcome_bind_eq_ok_iff, outcome_record, outcome_pure, Except.ok.injEq]
  constructor
  · rintro ⟨inner, h, -, -, rfl⟩
    exact ⟨inner, h, rfl⟩
  · rintro ⟨inner, h, rfl⟩
    exact ⟨inner, h, (), trivial, rfl⟩

/-- The code of a two-way branch: a conditional jump to the second body and, after the first body,
a jump over the second. -/
theorem emit_ifElse_eq_ok_iff {c : Condition} {thenBody elseBody : Statement} :
    (emit defs chain (levels + 1) start (ifElse c thenBody elseBody)).outcome = .ok code ↔
      ∃ thenCode elseCode,
        (emit defs chain levels (start + 2) thenBody).outcome = .ok thenCode ∧
        (emit defs chain levels (start + 2 + Instr.sizeAll thenCode + 2) elseBody).outcome =
          .ok elseCode ∧
        code = .jumpUnless c (start + 2 + Instr.sizeAll thenCode + 2) :: thenCode ++
          .jump (start + 2 + Instr.sizeAll thenCode + 2 + Instr.sizeAll elseCode) :: elseCode := by
  rw [emit]
  simp only [outcome_bind_eq_ok_iff, outcome_record, outcome_pure, Except.ok.injEq]
  constructor
  · rintro ⟨thenCode, hthen, -, -, elseCode, helse, -, -, rfl⟩
    exact ⟨thenCode, elseCode, hthen, helse, rfl⟩
  · rintro ⟨thenCode, elseCode, hthen, helse, rfl⟩
    exact ⟨thenCode, hthen, (), trivial, elseCode, helse, (), trivial, rfl⟩

/-- The code of a loop: a conditional jump over the body and, after the body, a jump back to the
test. -/
theorem emit_whileDo_eq_ok_iff {c : Condition} {body : Statement} :
    (emit defs chain (levels + 1) start (whileDo c body)).outcome = .ok code ↔
      ∃ inner, (emit defs chain levels (start + 2) body).outcome = .ok inner ∧
        code = .jumpUnless c (start + 2 + Instr.sizeAll inner + 2) :: inner ++ [.jump start] := by
  rw [emit]
  simp only [outcome_bind_eq_ok_iff, outcome_record, outcome_pure, Except.ok.injEq]
  constructor
  · rintro ⟨inner, h, -, -, rfl⟩
    exact ⟨inner, h, rfl⟩
  · rintro ⟨inner, h, rfl⟩
    exact ⟨inner, h, (), trivial, rfl⟩

/-- The call of an action is the action, whatever is defined under its name. -/
theorem emit_call_action {name : String} {action : Action} (h : Action.ofName? name = some action) :
    emit defs chain (levels + 1) start (call name) = pure [.act action] := by
  rw [emit]
  simp only [h]

/-- The call of something that is not defined has no code. -/
theorem emit_call_undefined {name : String} (h : Action.ofName? name = none)
    (hfind : defs.find? name = none) :
    emit defs chain (levels + 1) start (call name) = fail (.undefined name) := by
  rw [emit]
  simp only [h, hfind]

/-- The call of an instruction whose body is being inserted already has no code. -/
theorem emit_call_recursive {name : String} {body : Statement} (h : Action.ofName? name = none)
    (hfind : defs.find? name = some body) (hmem : name ∈ chain) :
    emit defs chain (levels + 1) start (call name) =
      fail (.recursive (chain.dropWhile (· ≠ name) ++ [name])) := by
  rw [emit]
  simp only [h, hfind, hmem, if_true]

/-- The call of an instruction has the outcome of its body. -/
theorem emit_call_instruction_outcome {name : String} {body : Statement}
    (h : Action.ofName? name = none) (hfind : defs.find? name = some body) (hmem : name ∉ chain) :
    (emit defs chain (levels + 1) start (call name)).outcome =
      (emit defs (chain ++ [name]) levels start body).outcome := by
  rw [emit]
  simp only [h, hfind, hmem, if_false]
  rfl

/-- No statements have no code. -/
theorem emitAll_nil : emitAll defs chain levels start [] = pure [] := by
  rw [emitAll]

/-- The code of statements one after another: each starts where the one before ends. -/
theorem emitAll_cons_eq_ok_iff {s : Statement} {rest : List Statement} :
    (emitAll defs chain levels start (s :: rest)).outcome = .ok code ↔
      ∃ first later, (emit defs chain levels start s).outcome = .ok first ∧
        (emitAll defs chain levels (start + Instr.sizeAll first) rest).outcome = .ok later ∧
        code = first ++ later := by
  rw [emitAll]
  simp only [outcome_bind_eq_ok_iff, outcome_pure, Except.ok.injEq]
  constructor
  · rintro ⟨first, hfirst, later, hlater, rfl⟩
    exact ⟨first, later, hfirst, hlater, rfl⟩
  · rintro ⟨first, later, hfirst, hlater, rfl⟩
    exact ⟨first, hfirst, later, hlater, rfl⟩

/-- A sequence of one is generated as its member. -/
theorem emitAll_singleton (s : Statement) :
    emitAll defs chain levels start [s] = emit defs chain levels start s := by
  rw [emitAll]
  simp only [emitAll_nil, return_bind, List.append_nil, bind_return]

/-- Statements one after another can be generated in two parts, the second where the first ends. -/
theorem emitAll_append (body rest : List Statement) :
    emitAll defs chain levels start (body ++ rest) = (do
      let code ← emitAll defs chain levels start body
      let later ← emitAll defs chain levels (start + Instr.sizeAll code) rest
      return code ++ later) := by
  induction body generalizing start with
  | nil =>
      simp only [List.nil_append, emitAll_nil, return_bind, Instr.sizeAll, Nat.add_zero, bind_return]
  | cons s body ih =>
      rw [List.cons_append, emitAll, emitAll]
      simp only [ih, bind_bind, return_bind, Instr.sizeAll_append, Nat.add_assoc, List.append_assoc]

/-! ### What is reported on the way -/

/-- A one-way branch reports what its body does, and then the target of its jump. -/
theorem emit_ifThen_events {c : Condition} {body : Statement} {inner : List Instr}
    (h : (emit defs chain levels (start + 2) body).outcome = .ok inner) :
    (emit defs chain (levels + 1) start (ifThen c body)).events =
      (emit defs chain levels (start + 2) body).events ++
        [.patched (start + 1) (start + 2 + Instr.sizeAll inner)] := by
  rw [emit, events_bind_of_ok h]
  rfl

/-- A two-way branch reports the target of its first jump between what its bodies report, and that
of its second jump at the end. -/
theorem emit_ifElse_events {c : Condition} {thenBody elseBody : Statement}
    {thenCode elseCode : List Instr}
    (hthen : (emit defs chain levels (start + 2) thenBody).outcome = .ok thenCode)
    (helse : (emit defs chain levels (start + 2 + Instr.sizeAll thenCode + 2) elseBody).outcome =
      .ok elseCode) :
    (emit defs chain (levels + 1) start (ifElse c thenBody elseBody)).events =
      (emit defs chain levels (start + 2) thenBody).events ++
        .patched (start + 1) (start + 2 + Instr.sizeAll thenCode + 2) ::
          (emit defs chain levels (start + 2 + Instr.sizeAll thenCode + 2) elseBody).events ++
        [.patched (start + 2 + Instr.sizeAll thenCode + 1)
          (start + 2 + Instr.sizeAll thenCode + 2 + Instr.sizeAll elseCode)] := by
  rw [emit, events_bind_of_ok hthen, events_bind_of_ok (outcome_record _), events_record,
    events_bind_of_ok helse, List.append_assoc]
  rfl

/-- A loop reports what its body does, and then the target of its jump over the body. -/
theorem emit_whileDo_events {c : Condition} {body : Statement} {inner : List Instr}
    (h : (emit defs chain levels (start + 2) body).outcome = .ok inner) :
    (emit defs chain (levels + 1) start (whileDo c body)).events =
      (emit defs chain levels (start + 2) body).events ++
        [.patched (start + 1) (start + 2 + Instr.sizeAll inner + 2)] := by
  rw [emit, events_bind_of_ok h]
  rfl

/-- The call of an instruction reports that its body is inserted, and then what the body does. -/
theorem emit_call_instruction_events {name : String} {body : Statement}
    (h : Action.ofName? name = none) (hfind : defs.find? name = some body) (hmem : name ∉ chain) :
    (emit defs chain (levels + 1) start (call name)).events =
      .inlining name start :: (emit defs (chain ++ [name]) levels start body).events := by
  rw [emit]
  simp only [h, hfind, hmem, if_false]
  rfl

/-- Statements one after another report what each of them does. -/
theorem emitAll_cons_events {s : Statement} {rest : List Statement} {first later : List Instr}
    (hfirst : (emit defs chain levels start s).outcome = .ok first)
    (hlater : (emitAll defs chain levels (start + Instr.sizeAll first) rest).outcome = .ok later) :
    (emitAll defs chain levels start (s :: rest)).events =
      (emit defs chain levels start s).events ++
        (emitAll defs chain levels (start + Instr.sizeAll first) rest).events := by
  rw [emitAll, events_bind_of_ok hfirst, events_bind_of_ok hlater, events_pure, List.append_nil]

/-! ### Induction over successful generation -/

/-- **Induction over successful generation and its events.** The cases are those of the generator in
which it does not fail. -/
theorem emit_report_induction
    {motive : List String → Nat → Nat → Statement → List Instr → List Event → Prop}
    {motiveAll : List String → Nat → Nat → List Statement → List Instr → List Event → Prop}
    (block : ∀ {chain levels start body code events},
      motiveAll chain levels start body code events →
      motive chain levels start (.block body) code events)
    (ifThen : ∀ {chain levels start c body code events},
      motive chain levels (start + 2) body code events →
      motive chain (levels + 1) start (.ifThen c body)
        (.jumpUnless c (start + 2 + Instr.sizeAll code) :: code)
        (events ++ [.patched (start + 1) (start + 2 + Instr.sizeAll code)]))
    (ifElse : ∀ {chain levels start c thenBody elseBody thenCode elseCode events events'},
      motive chain levels (start + 2) thenBody thenCode events →
      motive chain levels (start + 2 + Instr.sizeAll thenCode + 2) elseBody elseCode events' →
      motive chain (levels + 1) start (.ifElse c thenBody elseBody)
        (.jumpUnless c (start + 2 + Instr.sizeAll thenCode + 2) :: thenCode ++
          .jump (start + 2 + Instr.sizeAll thenCode + 2 + Instr.sizeAll elseCode) :: elseCode)
        (events ++ .patched (start + 1) (start + 2 + Instr.sizeAll thenCode + 2) :: events' ++
          [.patched (start + 2 + Instr.sizeAll thenCode + 1)
            (start + 2 + Instr.sizeAll thenCode + 2 + Instr.sizeAll elseCode)]))
    (whileDo : ∀ {chain levels start c body code events},
      motive chain levels (start + 2) body code events →
      motive chain (levels + 1) start (.whileDo c body)
        (.jumpUnless c (start + 2 + Instr.sizeAll code + 2) :: code ++ [.jump start])
        (events ++ [.patched (start + 1) (start + 2 + Instr.sizeAll code + 2)]))
    (action : ∀ {chain levels start name action}, Action.ofName? name = some action →
      motive chain (levels + 1) start (.call name) [.act action] [])
    (instruction : ∀ {chain levels start name body code events}, Action.ofName? name = none →
      defs.find? name = some body → name ∉ chain →
      motive (chain ++ [name]) levels start body code events →
      motive chain (levels + 1) start (.call name) code (.inlining name start :: events))
    (nil : ∀ {chain levels start}, motiveAll chain levels start [] [] [])
    (cons : ∀ {chain levels start s rest first later events events'},
      motive chain levels start s first events →
      motiveAll chain levels (start + Instr.sizeAll first) rest later events' →
      motiveAll chain levels start (s :: rest) (first ++ later) (events ++ events'))
    {s : Statement} (h : (emit defs chain levels start s).outcome = .ok code) :
    motive chain levels start s code (emit defs chain levels start s).events := by
  revert code
  refine (emit.mutual_induct defs
    (fun chain levels start s => ∀ {code},
      (emit defs chain levels start s).outcome = .ok code →
        motive chain levels start s code (emit defs chain levels start s).events)
    (fun chain levels start body => ∀ {code},
      (emitAll defs chain levels start body).outcome = .ok code →
        motiveAll chain levels start body code (emitAll defs chain levels start body).events)
    ?block ?noLevel ?ifThen ?ifElse ?whileDo ?action ?undefined ?recursive ?instruction ?nil
      ?cons).1 chain levels start s
  case block =>
    intro chain start body levels ih code h
    rw [emit_block] at h ⊢
    exact block (ih h)
  case noLevel =>
    intro chain start s hs code h
    rw [emit_zero (block?_eq_none hs), outcome_fail] at h
    cases h
  case ifThen =>
    intro chain start c body levels ih code h
    obtain ⟨inner, hinner, rfl⟩ := emit_ifThen_eq_ok_iff.mp h
    rw [emit_ifThen_events hinner]
    exact ifThen (ih hinner)
  case ifElse =>
    intro chain start c thenBody elseBody levels ihThen ihElse code h
    obtain ⟨thenCode, elseCode, hthen, helse, rfl⟩ := emit_ifElse_eq_ok_iff.mp h
    rw [emit_ifElse_events hthen helse]
    exact ifElse (ihThen hthen) (ihElse thenCode helse)
  case whileDo =>
    intro chain start c body levels ih code h
    obtain ⟨inner, hinner, rfl⟩ := emit_whileDo_eq_ok_iff.mp h
    rw [emit_whileDo_events hinner]
    exact whileDo (ih hinner)
  case action =>
    intro chain start name levels act hact code h
    rw [emit_call_action hact, outcome_pure] at h
    obtain rfl := Except.ok.inj h
    rw [emit_call_action hact, events_pure]
    exact action hact
  case undefined =>
    intro chain start name levels hact hfind code h
    rw [emit_call_undefined hact hfind, outcome_fail] at h
    cases h
  case recursive =>
    intro chain start name levels hact body hfind hmem code h
    rw [emit_call_recursive hact hfind hmem, outcome_fail] at h
    cases h
  case instruction =>
    intro chain start name levels hact body hfind hmem ih code h
    rw [emit_call_instruction_outcome hact hfind hmem] at h
    rw [emit_call_instruction_events hact hfind hmem]
    exact instruction hact hfind hmem (ih h)
  case nil =>
    intro chain levels start code h
    rw [emitAll_nil, outcome_pure] at h
    obtain rfl := Except.ok.inj h
    rw [emitAll_nil, events_pure]
    exact nil
  case cons =>
    intro chain levels start s rest ih ihRest code h
    obtain ⟨first, later, hfirst, hlater, rfl⟩ := emitAll_cons_eq_ok_iff.mp h
    rw [emitAll_cons_events hfirst hlater]
    exact cons (ih hfirst) (ihRest first hlater)

/-- **Induction over successful generation**, where its events do not matter. -/
theorem emit_induction
    {motive : List String → Nat → Nat → Statement → List Instr → Prop}
    {motiveAll : List String → Nat → Nat → List Statement → List Instr → Prop}
    (block : ∀ {chain levels start body code}, motiveAll chain levels start body code →
      motive chain levels start (.block body) code)
    (ifThen : ∀ {chain levels start c body code}, motive chain levels (start + 2) body code →
      motive chain (levels + 1) start (.ifThen c body)
        (.jumpUnless c (start + 2 + Instr.sizeAll code) :: code))
    (ifElse : ∀ {chain levels start c thenBody elseBody thenCode elseCode},
      motive chain levels (start + 2) thenBody thenCode →
      motive chain levels (start + 2 + Instr.sizeAll thenCode + 2) elseBody elseCode →
      motive chain (levels + 1) start (.ifElse c thenBody elseBody)
        (.jumpUnless c (start + 2 + Instr.sizeAll thenCode + 2) :: thenCode ++
          .jump (start + 2 + Instr.sizeAll thenCode + 2 + Instr.sizeAll elseCode) :: elseCode))
    (whileDo : ∀ {chain levels start c body code}, motive chain levels (start + 2) body code →
      motive chain (levels + 1) start (.whileDo c body)
        (.jumpUnless c (start + 2 + Instr.sizeAll code + 2) :: code ++ [.jump start]))
    (action : ∀ {chain levels start name action}, Action.ofName? name = some action →
      motive chain (levels + 1) start (.call name) [.act action])
    (instruction : ∀ {chain levels start name body code}, Action.ofName? name = none →
      defs.find? name = some body → name ∉ chain → motive (chain ++ [name]) levels start body code →
      motive chain (levels + 1) start (.call name) code)
    (nil : ∀ {chain levels start}, motiveAll chain levels start [] [])
    (cons : ∀ {chain levels start s rest first later}, motive chain levels start s first →
      motiveAll chain levels (start + Instr.sizeAll first) rest later →
      motiveAll chain levels start (s :: rest) (first ++ later))
    {s : Statement} (h : (emit defs chain levels start s).outcome = .ok code) :
    motive chain levels start s code :=
  @emit_report_induction defs chain levels start code
    (fun chain levels start s code _ => motive chain levels start s code)
    (fun chain levels start body code _ => motiveAll chain levels start body code)
    block ifThen ifElse whileDo action instruction nil cons s h

/-! ### Induction over failing generation -/

variable {e : CompileError}

/-- A one-way branch fails as its body does. -/
theorem emit_ifThen_eq_error_iff {c : Condition} {body : Statement} :
    (emit defs chain (levels + 1) start (ifThen c body)).outcome = .error e ↔
      (emit defs chain levels (start + 2) body).outcome = .error e := by
  rw [emit]
  simp [outcome_bind_eq_error_iff]

/-- A two-way branch fails as its first body does, or else as its second body does. -/
theorem emit_ifElse_eq_error_iff {c : Condition} {thenBody elseBody : Statement} :
    (emit defs chain (levels + 1) start (ifElse c thenBody elseBody)).outcome = .error e ↔
      (emit defs chain levels (start + 2) thenBody).outcome = .error e ∨
      ∃ thenCode, (emit defs chain levels (start + 2) thenBody).outcome = .ok thenCode ∧
        (emit defs chain levels (start + 2 + Instr.sizeAll thenCode + 2) elseBody).outcome =
          .error e := by
  rw [emit]
  simp [outcome_bind_eq_error_iff]

/-- A loop fails as its body does. -/
theorem emit_whileDo_eq_error_iff {c : Condition} {body : Statement} :
    (emit defs chain (levels + 1) start (whileDo c body)).outcome = .error e ↔
      (emit defs chain levels (start + 2) body).outcome = .error e := by
  rw [emit]
  simp [outcome_bind_eq_error_iff]

/-- Statements one after another fail as the first of them that fails. -/
theorem emitAll_cons_eq_error_iff {s : Statement} {rest : List Statement} :
    (emitAll defs chain levels start (s :: rest)).outcome = .error e ↔
      (emit defs chain levels start s).outcome = .error e ∨
      ∃ first, (emit defs chain levels start s).outcome = .ok first ∧
        (emitAll defs chain levels (start + Instr.sizeAll first) rest).outcome = .error e := by
  rw [emitAll]
  simp [outcome_bind_eq_error_iff]

/-- **Induction over failing generation.** The cases are those of the generator in which it fails:
three in which an error arises, and the others in which it comes from a part. What was generated
before the part that fails is given with it. -/
theorem emit_error_induction
    {motive : List String → Nat → Nat → Statement → CompileError → Prop}
    {motiveAll : List String → Nat → Nat → List Statement → CompileError → Prop}
    (block : ∀ {chain levels start body e}, motiveAll chain levels start body e →
      motive chain levels start (.block body) e)
    (noLevel : ∀ {chain start s}, s.block? = none →
      motive chain 0 start s (.tooDeep maxDepth chain))
    (ifThen : ∀ {chain levels start c body e}, motive chain levels (start + 2) body e →
      motive chain (levels + 1) start (.ifThen c body) e)
    (thenBody : ∀ {chain levels start c thenBody elseBody e},
      motive chain levels (start + 2) thenBody e →
      motive chain (levels + 1) start (.ifElse c thenBody elseBody) e)
    (elseBody : ∀ {chain levels start c thenBody elseBody thenCode e},
      (emit defs chain levels (start + 2) thenBody).outcome = .ok thenCode →
      motive chain levels (start + 2 + Instr.sizeAll thenCode + 2) elseBody e →
      motive chain (levels + 1) start (.ifElse c thenBody elseBody) e)
    (whileDo : ∀ {chain levels start c body e}, motive chain levels (start + 2) body e →
      motive chain (levels + 1) start (.whileDo c body) e)
    (undefined : ∀ {chain levels start name}, Action.ofName? name = none →
      defs.find? name = none → motive chain (levels + 1) start (.call name) (.undefined name))
    (recursive : ∀ {chain levels start name body}, Action.ofName? name = none →
      defs.find? name = some body → name ∈ chain →
      motive chain (levels + 1) start (.call name)
        (.recursive (chain.dropWhile (· ≠ name) ++ [name])))
    (instruction : ∀ {chain levels start name body e}, Action.ofName? name = none →
      defs.find? name = some body → name ∉ chain → motive (chain ++ [name]) levels start body e →
      motive chain (levels + 1) start (.call name) e)
    (first : ∀ {chain levels start s rest e}, motive chain levels start s e →
      motiveAll chain levels start (s :: rest) e)
    (later : ∀ {chain levels start s rest code e},
      (emit defs chain levels start s).outcome = .ok code →
      motiveAll chain levels (start + Instr.sizeAll code) rest e →
      motiveAll chain levels start (s :: rest) e)
    {s : Statement} (h : (emit defs chain levels start s).outcome = .error e) :
    motive chain levels start s e := by
  revert e
  refine (emit.mutual_induct defs
    (fun chain levels start s => ∀ {e},
      (emit defs chain levels start s).outcome = .error e → motive chain levels start s e)
    (fun chain levels start body => ∀ {e},
      (emitAll defs chain levels start body).outcome = .error e →
        motiveAll chain levels start body e)
    ?block ?noLevel ?ifThen ?ifElse ?whileDo ?action ?undefined ?recursive ?instruction ?nil
      ?cons).1 chain levels start s
  case block =>
    intro chain start body levels ih e h
    rw [emit_block] at h
    exact block (ih h)
  case noLevel =>
    intro chain start s hs e h
    rw [emit_zero (block?_eq_none hs), outcome_fail] at h
    obtain rfl := Except.error.inj h
    exact noLevel (block?_eq_none hs)
  case ifThen =>
    intro chain start c body levels ih e h
    exact ifThen (ih (emit_ifThen_eq_error_iff.mp h))
  case ifElse =>
    intro chain start c thenBody' elseBody' levels ihThen ihElse e h
    rcases emit_ifElse_eq_error_iff.mp h with hthen | ⟨thenCode, hthen, helse⟩
    · exact thenBody (ihThen hthen)
    · exact elseBody hthen (ihElse thenCode helse)
  case whileDo =>
    intro chain start c body levels ih e h
    exact whileDo (ih (emit_whileDo_eq_error_iff.mp h))
  case action =>
    intro chain start name levels action hact e h
    rw [emit_call_action hact, outcome_pure] at h
    cases h
  case undefined =>
    intro chain start name levels hact hfind e h
    rw [emit_call_undefined hact hfind, outcome_fail] at h
    obtain rfl := Except.error.inj h
    exact undefined hact hfind
  case recursive =>
    intro chain start name levels hact body hfind hmem e h
    rw [emit_call_recursive hact hfind hmem, outcome_fail] at h
    obtain rfl := Except.error.inj h
    exact recursive hact hfind hmem
  case instruction =>
    intro chain start name levels hact body hfind hmem ih e h
    rw [emit_call_instruction_outcome hact hfind hmem] at h
    exact instruction hact hfind hmem (ih h)
  case nil =>
    intro chain levels start e h
    rw [emitAll_nil, outcome_pure] at h
    cases h
  case cons =>
    intro chain levels start s rest ih ihRest e h
    rcases emitAll_cons_eq_error_iff.mp h with hs | ⟨code, hs, hrest⟩
    · exact first (ih hs)
    · exact later hs (ihRest code hrest)

/-! ### What is reported before a failure -/

/-- A one-way branch whose body fails reports what the body does. -/
theorem emit_ifThen_events_of_error {c : Condition} {body : Statement}
    (h : (emit defs chain levels (start + 2) body).outcome = .error e) :
    (emit defs chain (levels + 1) start (ifThen c body)).events =
      (emit defs chain levels (start + 2) body).events := by
  rw [emit, events_bind_of_error h]

/-- A two-way branch whose first body fails reports what that body does. -/
theorem emit_ifElse_events_of_then_error {c : Condition} {thenBody elseBody : Statement}
    (h : (emit defs chain levels (start + 2) thenBody).outcome = .error e) :
    (emit defs chain (levels + 1) start (ifElse c thenBody elseBody)).events =
      (emit defs chain levels (start + 2) thenBody).events := by
  rw [emit, events_bind_of_error h]

/-- A two-way branch whose second body fails reports what its bodies do, and between them the target
of its first jump. -/
theorem emit_ifElse_events_of_else_error {c : Condition} {thenBody elseBody : Statement}
    {thenCode : List Instr}
    (hthen : (emit defs chain levels (start + 2) thenBody).outcome = .ok thenCode)
    (helse : (emit defs chain levels (start + 2 + Instr.sizeAll thenCode + 2) elseBody).outcome =
      .error e) :
    (emit defs chain (levels + 1) start (ifElse c thenBody elseBody)).events =
      (emit defs chain levels (start + 2) thenBody).events ++
        .patched (start + 1) (start + 2 + Instr.sizeAll thenCode + 2) ::
          (emit defs chain levels (start + 2 + Instr.sizeAll thenCode + 2) elseBody).events := by
  rw [emit, events_bind_of_ok hthen, events_bind_of_ok (outcome_record _), events_record,
    events_bind_of_error helse]
  rfl

/-- A loop whose body fails reports what the body does. -/
theorem emit_whileDo_events_of_error {c : Condition} {body : Statement}
    (h : (emit defs chain levels (start + 2) body).outcome = .error e) :
    (emit defs chain (levels + 1) start (whileDo c body)).events =
      (emit defs chain levels (start + 2) body).events := by
  rw [emit, events_bind_of_error h]

/-- Statements of which the first fails report what the first does. -/
theorem emitAll_cons_events_of_first_error {s : Statement} {rest : List Statement}
    (h : (emit defs chain levels start s).outcome = .error e) :
    (emitAll defs chain levels start (s :: rest)).events =
      (emit defs chain levels start s).events := by
  rw [emitAll, events_bind_of_error h]

/-- Statements of which a later one fails report what the first does, and then the others. -/
theorem emitAll_cons_events_of_later_error {s : Statement} {rest : List Statement}
    {first : List Instr} (hfirst : (emit defs chain levels start s).outcome = .ok first)
    (hlater : (emitAll defs chain levels (start + Instr.sizeAll first) rest).outcome = .error e) :
    (emitAll defs chain levels start (s :: rest)).events =
      (emit defs chain levels start s).events ++
        (emitAll defs chain levels (start + Instr.sizeAll first) rest).events := by
  rw [emitAll, events_bind_of_ok hfirst, events_bind_of_error hlater]

/-! ### The complete code -/

/-- Compiling a main body has the outcome of generating its code from address zero, with a halt
after the code. -/
theorem compile_outcome (body : Statement) :
    (body.compile defs).outcome =
      (body.emit defs [] maxDepth 0).outcome.map fun code => .ofInstrs (code ++ [.halt]) := by
  unfold compile
  cases h : (body.emit defs [] maxDepth 0).outcome with
  | error e => simp [h, Except.map]
  | ok code => simp [h, Except.map]

/-- The complete code of a main body is its code from address zero, and a halt. -/
theorem compile_eq_ok_iff {body : Statement} {bc : Bytecode} :
    (body.compile defs).outcome = .ok bc ↔
      ∃ code, (body.emit defs [] maxDepth 0).outcome = .ok code ∧
        bc = .ofInstrs (code ++ [.halt]) := by
  rw [compile_outcome]
  cases (body.emit defs [] maxDepth 0).outcome with
  | error e => simp [Except.map]
  | ok code => simp [Except.map, eq_comm]

/-- Compiling a main body fails as generating its code does. -/
theorem compile_eq_error_iff {body : Statement} {e : CompileError} :
    (body.compile defs).outcome = .error e ↔
      (body.emit defs [] maxDepth 0).outcome = .error e := by
  rw [compile_outcome]
  cases (body.emit defs [] maxDepth 0).outcome with
  | error e' => simp [Except.map]
  | ok code => simp [Except.map]

end RobotScript.Statement
