import RobotScript.Text.Terminal

/-!
# Events

What the compiler reports of its work besides its result. Events are kept in the order in which
they happen, also when the work ends in an error. Each has a level, a message, the part of the
compiler that it comes from, and named values.

## Main definitions

* `Event` with its `level`, `message`, `origin` and `fields`.
* `Event.line` — the event as a line of a log.
* `Logged` — a result or an error, with the events on the way to it.
-/

namespace RobotScript

/-- How much an event matters. -/
inductive Level where
  | trace
  | debug
  | warn
  deriving DecidableEq, Repr

/-- Something that the compiler reports. -/
inductive Event where
  /-- A program with this many instructions has been read. -/
  | parsed (program : String) (instructions : Nat)
  /-- The body of an instruction is inserted at an address. -/
  | inlining (instruction : String) (address : Nat)
  /-- The target of the jump with its operand at `slot` has become known. -/
  | patched (slot target : Nat)
  /-- No call leads to an instruction. -/
  | unused (instruction : String)
  /-- Code of this length is complete. -/
  | generated (length : Nat)
  /-- A source file has another extension than usual. -/
  | unusualName (path : String)
  /-- A source file of this many bytes has been read. -/
  | sourceRead (path : String) (bytes : Nat)
  /-- Code with this many values has been written to a file. -/
  | codeWritten (path : String) (values : Nat)
  deriving DecidableEq, Repr

/-- A named value of an event. -/
structure Field where
  name : String
  value : String
  /-- A log shows the value between quotes. -/
  isQuoted : Bool := false
  deriving DecidableEq, Repr

namespace Level

/-- The name of the level. -/
def name : Level → String
  | trace => "TRACE"
  | debug => "DEBUG"
  | warn => "WARN"

/-- The name of the level, right-aligned in five columns. -/
def column : Level → String
  | trace => "TRACE"
  | debug => "DEBUG"
  | warn => " WARN"

/-- The place of the level among the levels. -/
def rank : Level → Nat
  | trace => 0
  | debug => 1
  | warn => 2

end Level

namespace Event

/-- How much the event matters. -/
def level : Event → Level
  | parsed _ _ => .debug
  | inlining _ _ => .trace
  | patched _ _ => .trace
  | unused _ => .warn
  | generated _ => .debug
  | unusualName _ => .warn
  | sourceRead _ _ => .debug
  | codeWritten _ _ => .debug

/-- The part of the compiler that the event comes from. -/
def origin : Event → String
  | parsed _ _ => "blc::frontend::parser"
  | inlining _ _ => "blc::bytecode::compile"
  | patched _ _ => "blc::bytecode::compile"
  | unused _ => "blc::bytecode::compile"
  | generated _ => "blc::bytecode::compile"
  | unusualName _ => "blc"
  | sourceRead _ _ => "blc"
  | codeWritten _ _ => "blc"

/-- What happened, in words. -/
def message : Event → String
  | parsed _ _ => "parsed program"
  | inlining _ _ => "inlining instruction"
  | patched _ _ => "patched jump target"
  | unused _ => "instruction is defined but never called"
  | generated _ => "generated bytecode"
  | unusualName path => s!"expected a .bl file, got {path}"
  | sourceRead _ _ => "read source"
  | codeWritten _ _ => "wrote bytecode"

/-- The named values of the event. -/
def fields : Event → List Field
  | parsed program instructions =>
    [⟨"program", program, false⟩, ⟨"instructions", instructions.repr, false⟩]
  | inlining instruction address =>
    [⟨"instruction", instruction, true⟩, ⟨"at", address.repr, false⟩]
  | patched slot target => [⟨"slot", slot.repr, false⟩, ⟨"target", target.repr, false⟩]
  | unused instruction => [⟨"instruction", instruction, true⟩]
  | generated length => [⟨"len", length.repr, false⟩]
  | unusualName _ => []
  | sourceRead path bytes => [⟨"file", path, false⟩, ⟨"bytes", bytes.repr, false⟩]
  | codeWritten path values => [⟨"path", path, false⟩, ⟨"values", values.repr, false⟩]

/-- The event as a line of a log, with its line end. The message is made safe for a terminal; a
value is shown as it is or between quotes. -/
def line (e : Event) : String :=
  e.level.column ++ " " ++ e.origin ++ ": " ++ Text.terminalSafe e.message ++
    String.join (e.fields.map fun f =>
      " " ++ f.name ++ "=" ++ if f.isQuoted then Text.quoted f.value else f.value) ++ "\n"

end Event

/-- A result or an error, with the events on the way to it. -/
structure Logged (ε α : Type) where
  events : List Event
  outcome : Except ε α

namespace Logged

variable {ε α β : Type}

/-- Nothing but an error. -/
def fail (e : ε) : Logged ε α := ⟨[], .error e⟩

/-- Nothing but an event. -/
def record (e : Event) : Logged ε Unit := ⟨[e], .ok ()⟩

/-- One piece of work after another: the second is left out if the first fails. -/
def andThen (x : Logged ε α) (f : α → Logged ε β) : Logged ε β :=
  match x.outcome with
  | .error e => ⟨x.events, .error e⟩
  | .ok a => ⟨x.events ++ (f a).events, (f a).outcome⟩

instance : Monad (Logged ε) where
  pure a := ⟨[], .ok a⟩
  bind := andThen

/-- The same work with its errors seen as those of a larger task. -/
def mapError {ε' : Type} (f : ε → ε') (x : Logged ε α) : Logged ε' α :=
  ⟨x.events, x.outcome.mapError f⟩

@[simp]
theorem outcome_pure (a : α) : (pure a : Logged ε α).outcome = .ok a := rfl

@[simp]
theorem events_pure (a : α) : (pure a : Logged ε α).events = [] := rfl

@[simp]
theorem outcome_fail (e : ε) : (fail e : Logged ε α).outcome = .error e := rfl

@[simp]
theorem events_fail (e : ε) : (fail e : Logged ε α).events = [] := rfl

@[simp]
theorem outcome_record (e : Event) : (record e : Logged ε Unit).outcome = .ok () := rfl

@[simp]
theorem events_record (e : Event) : (record e : Logged ε Unit).events = [e] := rfl

/-- Work in two steps succeeds exactly if both steps do. -/
theorem outcome_bind_eq_ok_iff {x : Logged ε α} {f : α → Logged ε β} {b : β} :
    (x >>= f).outcome = .ok b ↔ ∃ a, x.outcome = .ok a ∧ (f a).outcome = .ok b := by
  obtain ⟨events, e | a⟩ := x
  · simp [bind, andThen]
  · simp [bind, andThen]

/-- Work in two steps fails with the error of the first step, or else with that of the second. -/
theorem outcome_bind_eq_error_iff {x : Logged ε α} {f : α → Logged ε β} {e : ε} :
    (x >>= f).outcome = .error e ↔
      x.outcome = .error e ∨ ∃ a, x.outcome = .ok a ∧ (f a).outcome = .error e := by
  obtain ⟨events, e' | a⟩ := x
  · simp [bind, andThen]
  · simp [bind, andThen]

/-- The events of work in two steps, the first of which succeeds, are those of both in order. -/
theorem events_bind_of_ok {x : Logged ε α} {f : α → Logged ε β} {a : α} (h : x.outcome = .ok a) :
    (x >>= f).events = x.events ++ (f a).events := by
  simp [bind, andThen, h]

/-- The events of work in two steps, the first of which fails, are those of the first. -/
theorem events_bind_of_error {x : Logged ε α} {f : α → Logged ε β} {e : ε}
    (h : x.outcome = .error e) : (x >>= f).events = x.events := by
  simp [bind, andThen, h]

/-- Work after nothing but a result. -/
theorem return_bind (a : α) (f : α → Logged ε β) : pure a >>= f = f a := by
  simp [bind, andThen, pure]

/-- Work with nothing after it but its result. -/
theorem bind_return (x : Logged ε α) : x >>= pure = x := by
  obtain ⟨events, e | a⟩ := x
  · rfl
  · simp [bind, andThen, pure]

/-- Work in three steps can be taken together in either way. -/
theorem bind_bind {γ : Type} (x : Logged ε α) (f : α → Logged ε β) (g : β → Logged ε γ) :
    x >>= f >>= g = x >>= fun a => f a >>= g := by
  obtain ⟨events, e | a⟩ := x
  · rfl
  · cases h : (f a).outcome with
    | error e => simp [bind, andThen, h]
    | ok b => simp [bind, andThen, h]

end Logged

end RobotScript
