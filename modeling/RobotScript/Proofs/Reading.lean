import RobotScript.Grammar.Reader

/-!
# Runs of a reader

What holds of every reader, whatever it reads: a run over tokens is made of its steps, what each
step keeps is kept by the run, and reading up to the end of the input succeeds exactly if the run
ends in a state with a result.

## Main definitions

* `Reader.after?` — the state after a run of tokens.
* `Reader.Completable` — a state that has a result ahead.

## Main results

* `Reader.after?_cons_of_step`, `Reader.after?_append_of`: runs one step or one part at a time.
* `Reader.after?_invariant`: **what every step keeps is kept by every run**.
* `Reader.after?_of_steps`: a reader that leaves part of its work to another.
* `Reader.runFrom_append_of_after?`: reading goes on after a run.
* `Reader.runFrom_eq_ok_iff`: reading as a run and a result at its end.
* `Reader.exists_fault_of_runFrom`: **where reading fails**, the run stops.
* `Reader.runFrom_of_map_token_eq`: **places do not matter** to what is read.
-/

namespace RobotScript.Reader

variable {σ α : Type} {r : Reader σ α}

/-- The state after a run of tokens, if they can all stand where they do. -/
def after? (r : Reader σ α) (s : σ) (tokens : List Token) : Option σ :=
  tokens.foldlM r.step? s

/-- A run begins with a step. -/
theorem after?_cons_of_step {s s' : σ} {token : Token} (h : r.step? s token = some s')
    (rest : List Token) : r.after? s (token :: rest) = r.after? s' rest := by
  rw [after?, List.foldlM_cons, h]
  rfl

/-- There is no run if there is no first step. -/
theorem after?_cons_of_none {s : σ} {token : Token} (h : r.step? s token = none)
    (rest : List Token) : r.after? s (token :: rest) = none := by
  rw [after?, List.foldlM_cons, h]
  rfl

/-- A run goes on from where its first part ends. -/
theorem after?_append_of {s s' : σ} {tokens : List Token} (h : r.after? s tokens = some s')
    (rest : List Token) : r.after? s (tokens ++ rest) = r.after? s' rest := by
  rw [after?, List.foldlM_append, ← after?, h]
  rfl

/-- A token that can stand nowhere is in no run. -/
theorem not_mem_of_after? {token : Token} (hnone : ∀ s, r.step? s token = none) {s s' : σ}
    {tokens : List Token} (h : r.after? s tokens = some s') : token ∉ tokens := by
  induction tokens generalizing s with
  | nil => exact List.not_mem_nil
  | cons first rest ih =>
      intro hmem
      cases hnext : r.step? s first with
      | none =>
          rw [after?_cons_of_none hnext] at h
          cases h
      | some next =>
          rw [after?_cons_of_step hnext] at h
          rcases List.mem_cons.mp hmem with rfl | hmem
          · rw [hnone] at hnext
            cases hnext
          · exact ih h hmem

/-- **What every step keeps is kept by every run**: a property of the state and of all the tokens
that have been read. -/
theorem after?_invariant {holds : σ → List Token → Prop}
    (hstep : ∀ {s s' token tokens}, holds s tokens → r.step? s token = some s' →
      holds s' (tokens ++ [token]))
    {s s' : σ} {tokens more : List Token} (h : holds s tokens)
    (hrun : r.after? s more = some s') : holds s' (tokens ++ more) := by
  induction more generalizing s tokens with
  | nil =>
      obtain rfl := Option.some.inj hrun
      rwa [List.append_nil]
  | cons token more ih =>
      cases hnext : r.step? s token with
      | none =>
          rw [after?_cons_of_none hnext] at hrun
          cases hrun
      | some next =>
          rw [after?_cons_of_step hnext] at hrun
          have hmore := ih (hstep h hnext) hrun
          rwa [List.append_assoc] at hmore

/-- A reader whose states carry those of another, and that makes the other's steps there, makes the
other's runs. -/
theorem after?_of_steps {τ β : Type} {q : Reader τ β} {carry : σ → τ}
    (hsteps : ∀ {s s' token}, r.step? s token = some s' →
      q.step? (carry s) token = some (carry s'))
    {s s' : σ} {tokens : List Token} (h : r.after? s tokens = some s') :
    q.after? (carry s) tokens = some (carry s') := by
  induction tokens generalizing s with
  | nil =>
      obtain rfl := Option.some.inj h
      rfl
  | cons token tokens ih =>
      cases hnext : r.step? s token with
      | none =>
          rw [after?_cons_of_none hnext] at h
          cases h
      | some next =>
          rw [after?_cons_of_step hnext] at h
          rw [after?_cons_of_step (hsteps hnext), ih h]

/-- If a reader has no result where it can make a step, reading goes on after a run as it begins in
the state that the run leads to. -/
theorem runFrom_append_of_after?
    (hopen : ∀ {s s' token}, r.step? s token = some s' → r.result? s token = none)
    {s s' : σ} {tokens : List Located} (h : r.after? s (tokens.map Located.token) = some s')
    (stop : Position) (rest : List Located) :
    r.runFrom stop s (tokens ++ rest) = r.runFrom stop s' rest := by
  induction tokens generalizing s with
  | nil =>
      obtain rfl := Option.some.inj h
      rfl
  | cons t tokens ih =>
      rw [List.map_cons] at h
      cases hnext : r.step? s t.token with
      | none =>
          rw [after?_cons_of_none hnext] at h
          cases h
      | some next =>
          rw [after?_cons_of_step hnext] at h
          rw [List.cons_append, runFrom, hopen hnext, hnext]
          exact ih h

/-- If no result comes before the end of the input, reading succeeds exactly if the run over all
tokens ends in a state with a result. -/
theorem runFrom_eq_ok_iff {stop : Position} {s : σ} {tokens : List Located} {a : α}
    (hopen : ∀ t ∈ tokens, ∀ s, r.result? s t.token = none) :
    (r.runFrom stop s tokens).1 = .ok a ↔
      ∃ s', r.after? s (tokens.map Located.token) = some s' ∧ r.result? s' .eof = some a := by
  induction tokens generalizing s with
  | nil =>
      rw [runFrom]
      cases hresult : r.result? s .eof with
      | none => simp [after?, hresult]
      | some b => simp [after?, hresult]
  | cons t rest ih =>
      have hnone := hopen t List.mem_cons_self s
      have hrest := fun u hu => hopen u (List.mem_cons_of_mem t hu)
      rw [runFrom, hnone, List.map_cons]
      cases hnext : r.step? s t.token with
      | none =>
          rw [after?_cons_of_none hnext]
          simp
      | some next =>
          rw [after?_cons_of_step hnext]
          exact ih hrest

/-- **Where reading fails.** If a reader never reads past the end of the input, the error is about
the first token, or the end of the input, at which it has neither a next state nor a result. -/
theorem exists_fault_of_runFrom (heof : ∀ s, r.step? s .eof = none) {stop : Position} {s : σ}
    {tokens : List Located} {e : ParseError} (h : (r.runFrom stop s tokens).1 = .error e) :
    ∃ before t after s', tokens ++ [⟨.eof, stop⟩] = before ++ t :: after ∧
      r.after? s (before.map Located.token) = some s' ∧ r.step? s' t.token = none ∧
      r.result? s' t.token = none ∧ e = .fault t.position (r.fault s' t.token) := by
  induction tokens generalizing s with
  | nil =>
      rw [runFrom] at h
      cases hresult : r.result? s .eof with
      | some a => simp [hresult] at h
      | none =>
          rw [hresult] at h
          exact ⟨[], ⟨.eof, stop⟩, [], s, rfl, rfl, heof s, hresult, (Except.error.inj h).symm⟩
  | cons t rest ih =>
      rw [runFrom] at h
      cases hresult : r.result? s t.token with
      | some a => simp [hresult] at h
      | none =>
          cases hnext : r.step? s t.token with
          | none =>
              rw [hresult, hnext] at h
              exact ⟨[], t, rest ++ [⟨.eof, stop⟩], s, rfl, rfl, hnext, hresult,
                (Except.error.inj h).symm⟩
          | some next =>
              rw [hresult, hnext] at h
              obtain ⟨before, u, after, s', hsplit, hrun, hfault⟩ := ih h
              refine ⟨t :: before, u, after, s', by rw [List.cons_append, hsplit]; rfl, ?_, hfault⟩
              rw [List.map_cons, after?_cons_of_step hnext, hrun]

/-- **Places do not matter.** Two lists of the same tokens, wherever they stand, are read as the
same, or their first tokens at fault have the same fault. -/
theorem runFrom_of_map_token_eq {stop stop' : Position} {s : σ} {tokens tokens' : List Located}
    (h : tokens.map Located.token = tokens'.map Located.token) :
    (∃ a, (r.runFrom stop s tokens).1 = .ok a ∧ (r.runFrom stop' s tokens').1 = .ok a) ∨
      ∃ fault place place', (r.runFrom stop s tokens).1 = .error (.fault place fault) ∧
        (r.runFrom stop' s tokens').1 = .error (.fault place' fault) := by
  induction tokens generalizing s tokens' with
  | nil =>
      obtain rfl := List.map_eq_nil_iff.mp h.symm
      rw [runFrom, runFrom]
      cases r.result? s .eof with
      | some a => exact .inl ⟨a, rfl, rfl⟩
      | none => exact .inr ⟨_, stop, stop', rfl, rfl⟩
  | cons t rest ih =>
      obtain ⟨t', rest', rfl, htoken, hrest⟩ := List.map_eq_cons_iff.mp h.symm
      rw [runFrom, runFrom, htoken]
      cases r.result? s t.token with
      | some a => exact .inl ⟨a, rfl, rfl⟩
      | none =>
          cases r.step? s t.token with
          | some next => exact ih hrest.symm
          | none => exact .inr ⟨_, t.position, t'.position, rfl, rfl⟩

/-! ### States that can be completed -/

/-- From this state, some more tokens lead to a result at the end of the input. -/
def Completable (r : Reader σ α) (s : σ) : Prop :=
  ∃ tokens s', r.after? s tokens = some s' ∧ (r.result? s' .eof).isSome

/-- A state with a result is complete. -/
theorem Completable.of_result {s : σ} {a : α} (h : r.result? s .eof = some a) : r.Completable s :=
  ⟨[], s, rfl, by rw [h]; rfl⟩

/-- A run that leads to a state that can be completed leads on to a result. -/
theorem Completable.of_after? {s s' : σ} {tokens : List Token} (h : r.after? s tokens = some s')
    (h' : r.Completable s') : r.Completable s := by
  obtain ⟨more, final, hrun, hresult⟩ := h'
  exact ⟨tokens ++ more, final, by rw [after?_append_of h, hrun], hresult⟩

/-- A step that leads to a state that can be completed leads on to a result. -/
theorem Completable.of_step {s s' : σ} {token : Token} (h : r.step? s token = some s')
    (h' : r.Completable s') : r.Completable s := by
  have hrun : r.after? s [token] = some s' := after?_cons_of_step h []
  exact .of_after? hrun h'

end RobotScript.Reader
