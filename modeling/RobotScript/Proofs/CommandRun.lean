import Mathlib.Tactic.Common
import RobotScript.Proofs.BinaryFormat
import RobotScript.Proofs.Decoding
import RobotScript.Proofs.Expansion
import RobotScript.Proofs.FileStorage
import RobotScript.Proofs.Jobs
import RobotScript.Proofs.TextFormat

/-!
# A command does all of its work or nothing

A run can fail when it reads its source, at each step from there to the code, when it lists the code
and when it writes it. It shows its results along the way, and what is shown stays shown; still a
run that fails has shown no result and changed no file. The reason is the order of its steps: those
that may fail are quiet, up to the last one, and writing a file changes nothing if it fails. How a
run may end is said once, as a relation between the session before it, its outcome and the session
after it, and goes through the run step by step; the rest follows by looking at each way to end.

The code that a run shows or saves is that of the compiler. The bytes are the same in both cases,
whatever is reported on the way, and stand for the code in the format that was asked for.

## Main definitions

* `Options.WritesCode` — nothing but the code is asked for.
* `Options.Ends` — how a run may end.
* `Format.Decodes` — bytes stand for code in a format.

## Main results

* `Options.EndsAs.bind`: a quiet step before work that ends as a run may end.
* `Options.endsAs_run`: **every run ends in one of these ways**.
* `Options.run_comesTo_deliver`: a run that asks for nothing but the code comes to deliver it.
* `Format.decodes_encode_iff`: code in a format is read back if it fits the machine.
* `execute_all_or_nothing`: what holds of every command that asks for a run.
-/

namespace RobotScript

/-! ### Code from a source -/

/-- Seeing an error as one of a larger task makes no difference to a result. -/
theorem Logged.outcome_mapError_eq_ok_iff {ε ε' α : Type} {f : ε → ε'} {x : Logged ε α} {a : α} :
    (x.mapError f).outcome = .ok a ↔ x.outcome = .ok a := by
  obtain ⟨events, e | a'⟩ := x
  · simp [mapError, Except.mapError]
  · simp [mapError, Except.mapError]

theorem Program.outcome_reportParsed (parsed : Except ParseError Program) :
    (reportParsed parsed).outcome = parsed := by
  cases parsed <;> rfl

/-- A source text has the code of the program that it is read as. -/
theorem compile_eq_ok_iff {source : String} {bc : Bytecode} :
    (compile source).outcome = .ok bc ↔
      ∃ p, Program.parse source = .ok p ∧ p.compile.outcome = .ok bc := by
  simp only [compile, Logged.outcome_bind_eq_ok_iff, Logged.outcome_mapError_eq_ok_iff,
    Program.outcome_reportParsed]

/-! ### How a run ends -/

namespace Options

/-- Nothing but the code is asked for: no tokens, structure, layout, number of actions or
listing. -/
def WritesCode (o : Options) : Prop :=
  ∀ flag ∈ [Flag.tokens, .ast, .prettyPrint, .count, .disasm], o.has flag = false

instance (o : Options) : Decidable o.WritesCode :=
  inferInstanceAs (Decidable (∀ flag ∈ [Flag.tokens, .ast, .prettyPrint, .count, .disasm], _))

/-- How a run may end, from the session before it: it fails and has done nothing, it shows something
and changes no file, or it writes the code of its source to a file and shows nothing. -/
inductive Ends (o : Options) (s : Session) : Except RunError Unit → Session → Prop
  | failed {e : RunError} {s' : Session} (hsame : s.Untouched s') : Ends o s (.error e) s'
  | shown {s' : Session} (hfiles : s'.files = s.files) : Ends o s (.ok ()) s'
  | saved {s' : Session} {path source : String} {bc : Bytecode} (hcode : o.WritesCode)
      (houtput : o.output = some path) (hread : s.files.read o.file = .ok source.toUTF8)
      (hcompile : (compile source).outcome = .ok bc)
      (hwrite : s.files.write path (o.format.encode bc) = .ok s'.files)
      (hstdout : s'.stdout = s.stdout) : Ends o s (.ok ()) s'

/-- In a session the work ends as a run may end. -/
def EndsAs (o : Options) (s : Session) (x : Job (StateM Session) Unit) : Prop :=
  o.Ends s (x.perform s).1 (x.perform s).2

variable {o : Options} {s s' : Session} {source : String} {bc : Bytecode}

/-- A run may end as it may from an untouched session. -/
theorem Ends.of_untouched {outcome : Except RunError Unit} {s'' : Session} (h : s.Untouched s')
    (hends : o.Ends s' outcome s'') : o.Ends s outcome s'' := by
  cases hends with
  | failed hsame => exact .failed (h.trans hsame)
  | shown hfiles => exact .shown (hfiles.trans h.files)
  | saved hcode houtput hread hcompile hwrite hstdout =>
      rw [h.files] at hread hwrite
      exact .saved hcode houtput hread hcompile hwrite (hstdout.trans h.stdout)

/-- **A quiet step may fail before anything is done**; if it succeeds, the next step decides. -/
theorem EndsAs.bind {α : Type} {x : Job (StateM Session) α} {f : α → Job (StateM Session) Unit}
    (hquiet : x.Quiet) (hnext : ∀ a s', x.perform s = (.ok a, s') → o.EndsAs s' (f a)) :
    o.EndsAs s (x >>= f) := by
  have huntouched := hquiet s
  unfold EndsAs
  rcases hx : x.perform s with ⟨e | a, s'⟩
  · rw [hx] at huntouched
    rw [Job.perform_bind_of_error hx]
    exact .failed huntouched
  · rw [hx] at huntouched
    rw [Job.perform_bind_of_ok hx]
    exact (hnext a s' hx).of_untouched huntouched

/-- Both ways to go on end as a run may end. -/
theorem EndsAs.ite {c : Prop} [Decidable c] {x y : Job (StateM Session) Unit}
    (hpos : c → o.EndsAs s x) (hneg : ¬ c → o.EndsAs s y) : o.EndsAs s (if c then x else y) := by
  split_ifs with h
  · exact hpos h
  · exact hneg h

theorem endsAs_display (bytes : ByteArray) : o.EndsAs s (Job.display bytes) := by
  rw [EndsAs, Job.perform_display]
  exact .shown rfl

theorem perform_deliver_of_none (houtput : o.output = none) (bc : Bytecode) :
    (o.deliver bc).perform s = (.ok (), s.displayed (o.format.encode bc)) := by
  rw [deliver, houtput]
  exact Job.perform_display _

/-- Code that is to be saved is written and reported. -/
theorem perform_deliver_of_ok {path : String} {files : FileSystem} (houtput : o.output = some path)
    (hwrite : s.files.write path (o.format.encode bc) = .ok files) :
    (o.deliver bc).perform s = (.ok (), Session.notified { s with files }
      (Event.log (o.has .verbose) [.codeWritten path bc.size])) := by
  rw [deliver, houtput]
  exact Job.perform_bind_of_ok (Job.perform_save_of_ok hwrite)

/-- If the code cannot be written, nothing is done. -/
theorem perform_deliver_of_error {path : String} {fault : FileFault}
    (houtput : o.output = some path)
    (hwrite : s.files.write path (o.format.encode bc) = .error fault) :
    (o.deliver bc).perform s = (.error (.write path fault), s) := by
  rw [deliver, houtput]
  exact Job.perform_bind_of_error (Job.perform_save_of_error hwrite)

/-- Delivering code ends as a run may end, if it is the code of the source and nothing else is asked
for. -/
theorem endsAs_deliver (hcode : o.WritesCode) (hread : s.files.read o.file = .ok source.toUTF8)
    (hcompile : (compile source).outcome = .ok bc) : o.EndsAs s (o.deliver bc) := by
  unfold EndsAs
  cases houtput : o.output with
  | none =>
      rw [perform_deliver_of_none houtput]
      exact .shown rfl
  | some path =>
      cases hwrite : s.files.write path (o.format.encode bc) with
      | error fault =>
          rw [perform_deliver_of_error houtput hwrite]
          exact .failed (.refl s)
      | ok files =>
          rw [perform_deliver_of_ok houtput hwrite]
          exact .saved hcode houtput hread hcompile hwrite rfl

/-- **Every run ends in one of these ways.** -/
theorem endsAs_run (o : Options) (s : Session) : o.EndsAs s o.run := by
  unfold run
  refine .bind (Job.quiet_report _ _) fun _ s₁ _ => ?_
  refine .bind (Job.quiet_readText _) fun source s₂ hsource => ?_
  obtain ⟨hread, rfl⟩ := Job.perform_readText_eq_ok_iff.mp hsource
  refine .bind (Job.quiet_report _ _) fun _ s₃ hreported => ?_
  rw [Job.perform_report] at hreported
  obtain ⟨-, rfl⟩ := Prod.mk.inj hreported
  refine .ite (fun _ => ?_) fun htokens => ?_
  · exact .bind (Job.quiet_ofExcept _) fun _ _ _ => endsAs_display _
  refine .bind (Job.quiet_await _ _) fun p s₄ hparsed => ?_
  rw [Job.perform_await] at hparsed
  obtain ⟨hparse, rfl⟩ := Prod.mk.inj hparsed
  refine .ite (fun _ => endsAs_display _) fun hast => ?_
  refine .ite (fun _ => endsAs_display _) fun hlayout => ?_
  refine .ite (fun _ => endsAs_display _) fun hcount => ?_
  refine .bind (Job.quiet_await _ _) fun bc s₅ hgenerated => ?_
  rw [Job.perform_await] at hgenerated
  obtain ⟨hcompile, rfl⟩ := Prod.mk.inj hgenerated
  refine .ite (fun _ => ?_) fun hlisting => ?_
  · exact .bind (Job.quiet_ofExcept _) fun _ _ _ => endsAs_display _
  -- Only here a file may be written. What is written is the code of the source.
  rw [Logged.outcome_mapError_eq_ok_iff] at hparse hcompile
  rw [Program.outcome_reportParsed] at hparse
  have hcode : o.WritesCode := by simp [WritesCode, htokens, hast, hlayout, hcount, hlisting]
  exact endsAs_deliver hcode hread (compile_eq_ok_iff.mpr ⟨p, hparse, hcompile⟩)

/-- A run that asks for nothing but the code of a source that has it comes to deliver this code. -/
theorem run_comesTo_deliver (hcode : o.WritesCode)
    (hread : s.files.read o.file = .ok source.toUTF8)
    (hcompile : (compile source).outcome = .ok bc) : Job.ComesTo o.run (o.deliver bc) s := by
  obtain ⟨p, hparse, hgenerated⟩ := compile_eq_ok_iff.mp hcompile
  have hparsed : ((Program.reportParsed (Program.parse source)).mapError
      (RunError.build ∘ .parse)).outcome = .ok p := by
    rw [Logged.outcome_mapError_eq_ok_iff, Program.outcome_reportParsed, hparse]
  have hmade : (p.compile.mapError (RunError.build ∘ .compile)).outcome = .ok bc :=
    Logged.outcome_mapError_eq_ok_iff.mpr hgenerated
  simp only [WritesCode, List.forall_mem_cons] at hcode
  obtain ⟨htokens, hast, hlayout, hcount, hlisting, -⟩ := hcode
  simp only [run, htokens, hast, hlayout, hcount, hlisting, Bool.false_eq_true, if_false]
  refine .bind (Job.quiet_report _ _) rfl fun s₁ h₁ => ?_
  rw [← h₁.files] at hread
  have htext := Job.perform_readText_eq_ok_iff.mpr ⟨hread, rfl⟩
  refine .bind (Job.quiet_readText _) (congrArg Prod.fst htext) fun s₂ _ => ?_
  refine .bind (Job.quiet_report _ _) rfl fun s₃ _ => ?_
  refine .bind (Job.quiet_await _ _) hparsed fun s₄ _ => ?_
  exact .bind (Job.quiet_await _ _) hmade fun s₅ _ => .refl _ s₅

end Options

/-! ### Code in a format -/

/-- The bytes stand for this code in a format. -/
def Format.Decodes (bytes : ByteArray) (bc : Bytecode) : Format → Prop
  | text => ∃ text : String, bytes = text.toUTF8 ∧ Bytecode.ofText text = .ok bc
  | binary => Bytecode.ofBytes bytes.data.toList = .ok bc

/-- Code that decodes fits the machine if its length does: its numbers are codes of operations and
addresses in it. -/
theorem Bytecode.fits_of_decode {bc : Bytecode} {placed : List Placed}
    (h : bc.decode = .ok placed) (hsize : bc.size < wordBound) : bc.Fits := by
  obtain ⟨code, hvalues, hrange, -⟩ := decodeFrom_eq_ok_iff.mp h
  refine ⟨hsize, fun n hn => ?_⟩
  rw [hvalues] at hn
  obtain ⟨i, hi, hn⟩ := List.mem_flatMap.mp hn
  rw [Instr.encode, List.mem_cons, Option.mem_toList] at hn
  rcases hn with rfl | htarget
  · exact i.opcode.code_lt.trans (by decide)
  · exact (hrange i hi n htarget).trans hsize

/-- Code that is written in a format is read back exactly if it fits the machine. -/
theorem Format.decodes_encode_iff (format : Format) (bc : Bytecode) :
    format.Decodes (format.encode bc) bc ↔ bc.Fits := by
  cases format with
  | text =>
      constructor
      · rintro ⟨text, -, hread⟩
        have hbound := Bytecode.lt_wordBound_of_reads (Bytecode.ofText_eq_ok_iff.mp hread)
        obtain ⟨hsize, hvalues⟩ := List.forall_mem_cons.mp hbound
        exact ⟨hsize, hvalues⟩
      · intro hfits
        exact ⟨bc.toText, rfl, Bytecode.ofText_toText hfits⟩
  | binary =>
      constructor
      · intro hread
        exact (Bytecode.fits_and_length_toBytes_le hread).1
      · intro hfits
        refine Bytecode.ofBytes_eq_ok_iff.mpr ⟨_, [], ?_, hfits.forms⟩
        rw [List.append_nil, ← Bytecode.toBytes_eq_flatten]
        rfl

/-- Generated code fits the machine if its length does. -/
theorem fits_iff_of_compile {source : String} {bc : Bytecode}
    (h : (compile source).outcome = .ok bc) : bc.Fits ↔ bc.size < wordBound := by
  obtain ⟨p, -, hcompile⟩ := compile_eq_ok_iff.mp h
  obtain ⟨code, hcode, rfl⟩ := Statement.compile_eq_ok_iff.mp hcompile
  obtain ⟨t, -, rfl⟩ := Statement.exists_expands_of_emit hcode
  exact ⟨Bytecode.Fits.size, Bytecode.fits_of_decode t.decode_layout⟩

/-! ### Command lines -/

/-- The options ask for the code of the same source in the same format, to be shown. How much is
reported may differ. -/
structure Options.ShowsCodeOf (o' o : Options) : Prop where
  file : o'.file = o.file
  format : o'.format = o.format
  output : o'.output = none
  writesCode : o'.WritesCode

namespace Options.Ends

variable {o : Options} {s s' : Session}

/-- A run changes a file only if nothing but the code is asked for, it is to be saved, and the
source has code; and then only the file in which it is to be saved. -/
theorem exists_of_bytes?_ne {outcome : Except RunError Unit} (h : o.Ends s outcome s')
    {place : List String} (hne : s'.files.bytes? place ≠ s.files.bytes? place) :
    o.WritesCode ∧ ∃ path source bc, o.output = some path ∧ s.files.locate path = .ok place ∧
      s.files.read o.file = .ok source.toUTF8 ∧ (compile source).outcome = .ok bc := by
  cases h with
  | failed hsame => exact absurd (congrArg (·.bytes? place) hsame.files) hne
  | shown hfiles => exact absurd (congrArg (·.bytes? place) hfiles) hne
  | saved hcode houtput hread hcompile hwrite _ =>
      exact ⟨hcode, _, _, _, houtput, FileSystem.locate_of_bytes?_ne hwrite hne, hread, hcompile⟩

/-- A run that fails has done nothing. -/
theorem untouched_of_error {e : RunError} (h : o.Ends s (.error e) s') : s.Untouched s' := by
  cases h with
  | failed hsame => exact hsame

end Options.Ends

section

variable {arguments : List String} {o : Options} {s s' : Session} {source : String}
  {bc : Bytecode}

/-- A command that asks for a run does what the run does, and then concludes it. -/
theorem execute_of_run (hrequest : Request.ofArguments arguments = .run o)
    {outcome : Except RunError Unit}
    (hrun : (o.run : Job (StateM Session) Unit).perform s = (outcome, s')) :
    (execute arguments : StateM Session Nat).run s =
      (conclude outcome : StateM Session Nat).run s' := by
  have hexecute : (execute arguments : StateM Session Nat).run s =
      (conclude ((o.run : Job (StateM Session) Unit).perform s).1 : StateM Session Nat).run
        ((o.run : Job (StateM Session) Unit).perform s).2 := by
    rw [execute, hrequest]
    rfl
  rw [hexecute, hrun]

theorem run_conclude_ok :
    (conclude (.ok ()) : StateM Session Nat).run s = (0, s) :=
  rfl

theorem run_conclude_error (e : RunError) :
    (conclude (.error e) : StateM Session Nat).run s =
      (1, s.notified ("error: " ++ e.message ++ "\n")) :=
  rfl

/-- A command that asks for a run ends as the run may end, and its exit code tells whether the run
has failed. -/
theorem ends_of_execute (hrequest : Request.ofArguments arguments = .run o) {exitCode : Nat}
    (h : (execute arguments : StateM Session Nat).run s = (exitCode, s')) :
    o.Ends s ((o.run : Job (StateM Session) Unit).perform s).1 s' ∧
      (exitCode ≠ 0 ↔ ∃ e, ((o.run : Job (StateM Session) Unit).perform s).1 = .error e) := by
  have hends : o.EndsAs s o.run := o.endsAs_run s
  unfold Options.EndsAs at hends
  rcases hrun : (o.run : Job (StateM Session) Unit).perform s with ⟨e | ⟨⟩, s₁⟩
  · rw [execute_of_run hrequest hrun, run_conclude_error] at h
    obtain ⟨rfl, rfl⟩ := Prod.mk.inj h
    rw [hrun] at hends
    exact ⟨.failed (hends.untouched_of_error.trans (.notified s₁ _)), by simp⟩
  · rw [execute_of_run hrequest hrun, run_conclude_ok] at h
    obtain ⟨rfl, rfl⟩ := Prod.mk.inj h
    rw [hrun] at hends
    exact ⟨hends, by simp⟩

/-- A command that asks for nothing but the code of a source that has it delivers this code. -/
theorem exists_execute_eq (hrequest : Request.ofArguments arguments = .run o)
    (hread : s.files.read o.file = .ok source.toUTF8) (hcompile : (compile source).outcome = .ok bc)
    (hcode : o.WritesCode) :
    ∃ s', s.Untouched s' ∧ ∀ outcome s'', (o.deliver bc).perform s' = (outcome, s'') →
      (execute arguments : StateM Session Nat).run s =
        (conclude outcome : StateM Session Nat).run s'' := by
  obtain ⟨s', huntouched, hrun⟩ := Options.run_comesTo_deliver hcode hread hcompile
  exact ⟨s', huntouched, fun outcome s'' hdeliver => execute_of_run hrequest (hrun.trans hdeliver)⟩

/-- A command that asks for code to be shown shows it. -/
theorem execute_shown (hrequest : Request.ofArguments arguments = .run o)
    (hread : s.files.read o.file = .ok source.toUTF8) (hcompile : (compile source).outcome = .ok bc)
    (hcode : o.WritesCode) (houtput : o.output = none) :
    ∃ s', (execute arguments : StateM Session Nat).run s = (0, s') ∧
      s'.stdout = s.stdout ++ o.format.encode bc ∧ s'.files = s.files := by
  obtain ⟨s', huntouched, hexecute⟩ := exists_execute_eq hrequest hread hcompile hcode
  refine ⟨s'.displayed (o.format.encode bc),
    hexecute _ _ (Options.perform_deliver_of_none houtput bc), ?_, huntouched.files⟩
  rw [Session.displayed, huntouched.stdout]

/-- A command that asks for code to be saved writes it to the file, or fails as the write does. -/
theorem execute_saved (hrequest : Request.ofArguments arguments = .run o)
    (hread : s.files.read o.file = .ok source.toUTF8) (hcompile : (compile source).outcome = .ok bc)
    (hcode : o.WritesCode) {path : String} (houtput : o.output = some path) {exitCode : Nat}
    (h : (execute arguments : StateM Session Nat).run s = (exitCode, s')) :
    s'.stdout = s.stdout ∧
      (exitCode = 0 ↔ ∃ files, s.files.write path (o.format.encode bc) = .ok files) ∧
      (exitCode = 0 → s.files.write path (o.format.encode bc) = .ok s'.files) := by
  obtain ⟨s₁, huntouched, hexecute⟩ := exists_execute_eq hrequest hread hcompile hcode
  rw [← huntouched.files]
  cases hwrite : s₁.files.write path (o.format.encode bc) with
  | error fault =>
      have hdeliver := Options.perform_deliver_of_error houtput hwrite
      obtain ⟨rfl, rfl⟩ := Prod.mk.inj ((hexecute _ _ hdeliver).symm.trans h)
      exact ⟨huntouched.stdout, by simp, by simp⟩
  | ok files =>
      have hdeliver := Options.perform_deliver_of_ok houtput hwrite
      obtain ⟨rfl, rfl⟩ := Prod.mk.inj ((hexecute _ _ hdeliver).symm.trans h)
      exact ⟨huntouched.stdout, by simp, fun _ => rfl⟩

/-- **A command does all of its work or nothing, and agrees with the compiler.** For any session,
with any files and any causes for which reading and writing may be refused, and any command that
asks for a run:
* the exit code tells whether the run fails, and if it does then no result has been shown and the
  files are as they were;
* the bytes at a place change only if nothing but the code is asked for, the source has code, and
  the code is to be saved at this place;
* if the source has code and nothing else is asked for, then there are bytes that stand for the code
  in the format of the command, as long as the length of the code is a number of 64 bits. If the
  code is to be saved, no result is shown, the command succeeds exactly if the bytes can be written,
  and then they stand where the path leads, and are read from there unless that is refused. They are
  also what is shown by any command that asks for the same code to be shown, with reports or
  without. -/
theorem execute_all_or_nothing (hrequest : Request.ofArguments arguments = .run o) {exitCode : Nat}
    (h : (execute arguments : StateM Session Nat).run s = (exitCode, s')) :
    (exitCode ≠ 0 ↔ ∃ e, ((o.run : Job (StateM Session) Unit).perform s).1 = .error e) ∧
    (exitCode ≠ 0 → s'.stdout = s.stdout ∧ s'.files = s.files) ∧
    (∀ place, s'.files.bytes? place ≠ s.files.bytes? place →
      o.WritesCode ∧ ∃ path source bc, o.output = some path ∧ s.files.locate path = .ok place ∧
        s.files.read o.file = .ok source.toUTF8 ∧ (compile source).outcome = .ok bc) ∧
    ∀ source bc, s.files.read o.file = .ok source.toUTF8 → (compile source).outcome = .ok bc →
      o.WritesCode →
      ∃ bytes, (o.format.Decodes bytes bc ↔ bc.size < wordBound) ∧
        (∀ path, o.output = some path →
          s'.stdout = s.stdout ∧
          (exitCode = 0 ↔ ∃ files, s.files.write path bytes = .ok files) ∧
          (exitCode = 0 →
            (∃ place, s.files.locate path = .ok place ∧ s'.files.bytes? place = some bytes) ∧
            (s.files.refusal? (.read path) = none → s'.files.read path = .ok bytes))) ∧
        ∀ arguments' o', Request.ofArguments arguments' = .run o' → o'.ShowsCodeOf o →
          ∃ s'', (execute arguments' : StateM Session Nat).run s = (0, s'') ∧
            s''.stdout = s.stdout ++ bytes ∧ s''.files = s.files := by
  obtain ⟨hends, hexit⟩ := ends_of_execute hrequest h
  refine ⟨hexit, fun hfailed => ?_, fun place => hends.exists_of_bytes?_ne,
    fun source bc hread hcompile hcode => ?_⟩
  · obtain ⟨e, he⟩ := hexit.mp hfailed
    rw [he] at hends
    exact ⟨hends.untouched_of_error.stdout, hends.untouched_of_error.files⟩
  · refine ⟨o.format.encode bc, ?_, fun path houtput => ?_, fun arguments' o' hrequest' ho' => ?_⟩
    · rw [Format.decodes_encode_iff, fits_iff_of_compile hcompile]
    · obtain ⟨hstdout, hzero, hsaved⟩ :=
        execute_saved hrequest hread hcompile hcode houtput h
      exact ⟨hstdout, hzero, fun hexit => ⟨FileSystem.exists_bytes?_of_write (hsaved hexit),
        FileSystem.read_of_write (hsaved hexit)⟩⟩
    · rw [← ho'.file] at hread
      rw [← ho'.format]
      exact execute_shown hrequest' hread hcompile ho'.writesCode ho'.output

end

/-- The source of a program that goes forward as long as it can. -/
def walkSource : String :=
  "PROGRAM walk IS BEGIN WHILE next-is-empty DO move END WHILE END walk"

/-- A session in a directory with the source of a program. -/
def workshop : Session where
  files := { workingDirectory := ["work"], files := [(["work", "walk.bl"], walkSource.toUTF8)] }

/-- The same session with no space left for anything to be written. -/
def fullWorkshop : Session where
  files := { workshop.files with
    refusal? := fun
      | .read _ => none
      | .write _ _ => some (.other "No space left on device (os error 28)") }

/-- Saved with reports and shown without, the code of a program is the same bytes. Where there is no
space for it, nothing is shown and no file is changed. -/
theorem execute_all_or_nothing_workshop :
    Request.ofArguments ["-vo", "out", "--format=postcard", "walk.bl"] =
      .run ⟨"walk.bl", some "out", .binary, [.verbose]⟩ ∧
    Request.ofArguments ["walk.bl", "--format", "postcard"] =
      .run ⟨"walk.bl", none, .binary, []⟩ ∧
    (∃ s bytes s',
      (execute ["-vo", "out", "--format=postcard", "walk.bl"] : StateM Session Nat).run workshop =
        (0, s) ∧
      s.stdout = ByteArray.empty ∧ s.files.read "out" = .ok bytes ∧
      Format.binary.Decodes bytes ⟨[7, 5, 0, 6, 0, 5]⟩ ∧
      (execute ["walk.bl", "--format", "postcard"] : StateM Session Nat).run workshop = (0, s') ∧
      s'.stdout = ByteArray.empty ++ bytes) ∧
    ∃ exitCode s,
      (execute ["-vo", "out", "--format=postcard", "walk.bl"] : StateM Session Nat).run
        fullWorkshop = (exitCode, s) ∧
      exitCode ≠ 0 ∧ s.stdout = ByteArray.empty ∧ s.files = fullWorkshop.files := by
  have hsaves : Request.ofArguments ["-vo", "out", "--format=postcard", "walk.bl"] =
      .run ⟨"walk.bl", some "out", .binary, [.verbose]⟩ := by decide
  have hshows : Request.ofArguments ["walk.bl", "--format", "postcard"] =
      .run ⟨"walk.bl", none, .binary, []⟩ := by decide
  have hread : workshop.files.read "walk.bl" = .ok walkSource.toUTF8 := rfl
  have hcompile : (compile walkSource).outcome = .ok ⟨[7, 5, 0, 6, 0, 5]⟩ :=
    compile_eq_ok_iff.mpr ⟨⟨"walk", .empty, .block [.whileDo (.ahead .empty false)
      (.block [.call "move"])]⟩, by decide +kernel, by cbv⟩
  refine ⟨hsaves, hshows, ?_, ?_⟩
  · obtain ⟨⟨exitCode, s⟩, hrun⟩ : ∃ result,
        (execute ["-vo", "out", "--format=postcard", "walk.bl"] : StateM Session Nat).run workshop =
          result := ⟨_, rfl⟩
    obtain ⟨bytes, hdecodes, hsaved, hshown⟩ :=
      (execute_all_or_nothing hsaves hrun).2.2.2 _ _ hread hcompile (by decide)
    obtain ⟨hstdout, hexit, hfile⟩ := hsaved "out" rfl
    have hwrite : workshop.files.write "out" bytes =
        .ok (workshop.files.store ["work", "out"] bytes) := rfl
    obtain rfl := hexit.mpr ⟨_, hwrite⟩
    obtain ⟨s', hrun', hstdout', -⟩ := hshown _ _ hshows ⟨rfl, rfl, rfl, by decide⟩
    exact ⟨s, bytes, s', hrun, hstdout, (hfile rfl).2 rfl, hdecodes.mpr (by decide), hrun',
      hstdout'⟩
  · obtain ⟨⟨exitCode, s⟩, hrun⟩ : ∃ result,
        (execute ["-vo", "out", "--format=postcard", "walk.bl"] : StateM Session Nat).run
          fullWorkshop = result := ⟨_, rfl⟩
    obtain ⟨-, hfailed, -, hdelivers⟩ := execute_all_or_nothing hsaves hrun
    obtain ⟨bytes, -, hsaved, -⟩ := hdelivers walkSource _ hread hcompile (by decide)
    have hexit : exitCode ≠ 0 := by
      intro hzero
      obtain ⟨files, hwrite⟩ := (hsaved "out" rfl).2.1.mp hzero
      rw [FileSystem.write_of_refusal? rfl] at hwrite
      cases hwrite
    exact ⟨exitCode, s, hrun, hexit, (hfailed hexit).1, (hfailed hexit).2⟩

end RobotScript
