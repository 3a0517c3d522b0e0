import Mathlib.Tactic.Common
import RobotScript.CommandLine.Run

/-!
# What a job does in a session

A job goes from session to session, and what it did before it fails stays done. So whether a job
that fails has done nothing depends on the order of its steps. Here is what each step does, and what
becomes of two steps one after the other. Most steps do no more than add reports: they read a file,
work in memory, or report. A job of such steps is quiet.

## Main definitions

* `Job.perform` — the outcome of a job in a session, and the session after it.
* `Session.Untouched` — two sessions that differ at most in reports.
* `Job.Quiet` — a job that leaves every session untouched.
* `Job.ComesTo` — a job that goes on as another after nothing but reports.

## Main results

* `Job.perform_bind_of_ok`, `Job.perform_bind_of_error`: two steps one after the other.
* `Job.perform_readText_eq_ok_iff`, `Job.perform_save_of_ok`, `Job.perform_save_of_error`: what
  reading and writing do.
* `Job.quiet_readText`, `Job.quiet_report`, `Job.quiet_await`, `Job.quiet_ofExcept`: **these steps
  show no result and change no file**, whether they fail or not.
-/

namespace RobotScript

/-- Bytes are read as a text exactly if they are the bytes of the text. -/
theorem fromUTF8?_eq_some_iff {bytes : ByteArray} {text : String} :
    String.fromUTF8? bytes = some text ↔ bytes = text.toUTF8 := by
  unfold String.fromUTF8?
  constructor
  · intro h
    split_ifs at h with hvalid
    obtain rfl := Option.some.inj h
    rfl
  · rintro rfl
    exact dif_pos text.isValidUTF8

/-- No result is shown and no file is changed from one session to the other. There may be new
reports. -/
structure Session.Untouched (s s' : Session) : Prop where
  files : s'.files = s.files
  stdout : s'.stdout = s.stdout

namespace Session.Untouched

variable {s s' s'' : Session}

theorem refl (s : Session) : s.Untouched s :=
  ⟨rfl, rfl⟩

theorem trans (h : s.Untouched s') (h' : s'.Untouched s'') : s.Untouched s'' :=
  ⟨h'.files.trans h.files, h'.stdout.trans h.stdout⟩

theorem notified (s : Session) (text : String) : s.Untouched (s.notified text) :=
  ⟨rfl, rfl⟩

end Session.Untouched

namespace Job

variable {α β : Type} {s s' : Session} {e : RunError}

/-- The outcome of a job in a session, and the session that it leaves behind. -/
def perform (x : Job (StateM Session) α) (s : Session) : Except RunError α × Session :=
  x.run.run s

/-! ### Two steps -/

section

variable {x : Job (StateM Session) α} {f : α → Job (StateM Session) β}

/-- After a step that succeeds, the next goes on in the session that it leaves behind. -/
theorem perform_bind_of_ok {a : α} (h : x.perform s = (.ok a, s')) :
    (x >>= f).perform s = (f a).perform s' := by
  have hbind : (x >>= f).perform s =
      (ExceptT.bindCont f (x.perform s).1).run (x.perform s).2 := rfl
  rw [hbind, h]
  rfl

/-- After a step that fails, there is no next. -/
theorem perform_bind_of_error (h : x.perform s = (.error e, s')) :
    (x >>= f).perform s = (.error e, s') := by
  have hbind : (x >>= f).perform s =
      (ExceptT.bindCont f (x.perform s).1).run (x.perform s).2 := rfl
  rw [hbind, h]
  rfl

end

/-! ### Single steps -/

theorem perform_ofExcept (result : Except RunError α) :
    (ofExcept result : Job (StateM Session) α).perform s = (result, s) :=
  rfl

theorem perform_report (verbose : Bool) (events : List Event) :
    (report verbose events : Job (StateM Session) Unit).perform s =
      (.ok (), s.notified (Event.log verbose events)) :=
  rfl

theorem perform_display (bytes : ByteArray) :
    (display bytes : Job (StateM Session) Unit).perform s = (.ok (), s.displayed bytes) :=
  rfl

theorem perform_await (verbose : Bool) (work : Logged RunError α) :
    (await verbose work : Job (StateM Session) α).perform s =
      (work.outcome, s.notified (Event.log verbose work.events)) :=
  rfl

theorem perform_readText (path : String) :
    (readText path : Job (StateM Session) String).perform s =
      (RunError.textOf path (s.files.read path), s) :=
  rfl

/-- A text is read exactly if its bytes are those of the file. -/
theorem perform_readText_eq_ok_iff {path text : String} :
    (readText path : Job (StateM Session) String).perform s = (.ok text, s') ↔
      s.files.read path = .ok text.toUTF8 ∧ s = s' := by
  rw [perform_readText, Prod.mk.injEq]
  refine and_congr_left fun _ => ?_
  cases s.files.read path with
  | error fault => simp [RunError.textOf]
  | ok bytes =>
      rw [Except.ok.injEq, ← fromUTF8?_eq_some_iff, RunError.textOf]
      cases String.fromUTF8? bytes with
      | none => simp
      | some text' => simp

theorem perform_save (path : String) (bytes : ByteArray) :
    (save path bytes : Job (StateM Session) Unit).perform s =
      ((s.written path bytes).1.mapError (.write path), (s.written path bytes).2) :=
  rfl

/-- Writing changes the files, if it succeeds. -/
theorem perform_save_of_ok {path : String} {bytes : ByteArray} {files : FileSystem}
    (h : s.files.write path bytes = .ok files) :
    (save path bytes : Job (StateM Session) Unit).perform s = (.ok (), { s with files }) := by
  rw [perform_save, Session.written, h]
  rfl

/-- A write that fails leaves the session as it is. -/
theorem perform_save_of_error {path : String} {bytes : ByteArray} {fault : FileFault}
    (h : s.files.write path bytes = .error fault) :
    (save path bytes : Job (StateM Session) Unit).perform s = (.error (.write path fault), s) := by
  rw [perform_save, Session.written, h]
  rfl

/-! ### Quiet steps -/

/-- The job shows no result and changes no file, whether it fails or not. -/
def Quiet (x : Job (StateM Session) α) : Prop :=
  ∀ s : Session, s.Untouched (x.perform s).2

theorem quiet_ofExcept (result : Except RunError α) :
    Quiet (ofExcept result : Job (StateM Session) α) := by
  intro s
  rw [perform_ofExcept]
  exact .refl s

theorem quiet_report (verbose : Bool) (events : List Event) :
    Quiet (report verbose events : Job (StateM Session) Unit) := by
  intro s
  rw [perform_report]
  exact .notified s _

theorem quiet_await (verbose : Bool) (work : Logged RunError α) :
    Quiet (await verbose work : Job (StateM Session) α) := by
  intro s
  rw [perform_await]
  exact .notified s _

theorem quiet_readText (path : String) : Quiet (readText path : Job (StateM Session) String) := by
  intro s
  rw [perform_readText]
  exact .refl s

/-! ### Jobs after quiet steps -/

/-- In a session the first job does what the second does, with nothing done before but reports. -/
def ComesTo (x y : Job (StateM Session) α) (s : Session) : Prop :=
  ∃ s', s.Untouched s' ∧ x.perform s = y.perform s'

theorem ComesTo.refl (x : Job (StateM Session) α) (s : Session) : x.ComesTo x s :=
  ⟨s, .refl s, rfl⟩

/-- After a quiet step that succeeds, a job comes to what is left of it. -/
theorem ComesTo.bind {x : Job (StateM Session) α} {f : α → Job (StateM Session) β}
    {y : Job (StateM Session) β} {a : α} (hquiet : x.Quiet) (hx : (x.perform s).1 = .ok a)
    (hnext : ∀ s', s.Untouched s' → (f a).ComesTo y s') : (x >>= f).ComesTo y s := by
  obtain ⟨s', huntouched, heq⟩ := hnext _ (hquiet s)
  refine ⟨s', (hquiet s).trans huntouched, ?_⟩
  rw [perform_bind_of_ok (Prod.ext hx rfl), heq]

end Job

end RobotScript
