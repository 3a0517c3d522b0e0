import RobotScript.Proofs.Flattening
import RobotScript.Proofs.Inlining
import RobotScript.Proofs.Placement

/-!
# Code determines what it came from

A one-way branch, a two-way branch and a loop all begin with a conditional jump over a stretch of
code, and all three are told apart by how that stretch ends: a loop ends in a jump back to the test,
a two-way branch in a jump to somewhere at or after the end of the stretch. The body of a one-way
branch could end in a jump as well. It cannot be one back to the test, since a statement's jumps
stay in its code. It can be a jump to the very end, when the body ends in a two-way branch without
anything in its second body; but then another jump before it goes to the very end too, which no jump
in the first body of a two-way branch does.

So code can be read back, up to sequences inside sequences, which it does not show.

## Main definitions

* `guarded` — a conditional jump over a stretch of code.

## Main results

* `exists_target_stop_of_layout_eq_concat`: code that ends in a jump to its own end has another jump
  to its end.
* `jump_bounds_of_layout_eq_concat`: how the body of a one-way branch can end.
* `layout_ifThen_append_ne_ifElse`, `layout_ifThen_append_ne_whileDo`,
  `layout_ifElse_append_ne_whileDo`: compound statements of different kinds have different code.
* `Plain.layout_append_inj`: **no code is an initial part of another**.
* `flat_eq_of_layout_eq`: statements with the same code have the same flat form.
* `compile_determines_flat`: **code determines what it came from**.
-/

namespace RobotScript

/-! ### Sizes -/

namespace Instr

theorem size_pos (i : Instr) : 0 < i.size := by
  rw [size, encode, List.length_cons]
  omega

/-- Two pieces of code that take the same room and begin the same code are the same. -/
theorem append_inj_of_sizeAll {code code' more more' : List Instr}
    (h : code ++ more = code' ++ more') (hsize : sizeAll code = sizeAll code') :
    code = code' ∧ more = more' := by
  induction code generalizing code' with
  | nil =>
      cases code' with
      | nil => exact ⟨rfl, h⟩
      | cons i code' =>
          have hpos := i.size_pos
          simp only [sizeAll] at hsize
          omega
  | cons i code ih =>
      cases code' with
      | nil =>
          have hpos := i.size_pos
          simp only [sizeAll] at hsize
          omega
      | cons i' code' =>
          obtain ⟨rfl, htail⟩ := List.cons.inj h
          obtain ⟨rfl, rfl⟩ := ih htail (by simpa [sizeAll] using hsize)
          exact ⟨rfl, rfl⟩

end Instr

namespace Statement

/-! ### Stretches of code under a condition -/

/-- The code of `inner`, placed at `start + 2`, behind a conditional jump over it. -/
def guarded (start : Nat) (c : Condition) (inner : List Instr) : List Instr :=
  .jumpUnless c (start + 2 + Instr.sizeAll inner) :: inner

/-- The conditional jump says where the stretch ends. -/
theorem guarded_append_inj {start : Nat} {c c' : Condition} {inner inner' more more' : List Instr}
    (h : guarded start c inner ++ more = guarded start c' inner' ++ more') :
    c = c' ∧ inner = inner' ∧ more = more' := by
  obtain ⟨hhead, htail⟩ := List.cons.inj h
  obtain ⟨rfl, hstop⟩ := Instr.jumpUnless.inj hhead
  exact ⟨rfl, Instr.append_inj_of_sizeAll htail (by omega)⟩

section

variable (start : Nat) (c : Condition)

theorem layout_ifThen (body : Statement) :
    (ifThen c body).layout start = guarded start c (body.layout (start + 2)) := by
  rw [layout, guarded, sizeAll_layout]

theorem layout_ifElse (thenBody elseBody : Statement) :
    (ifElse c thenBody elseBody).layout start =
      guarded start c (thenBody.layout (start + 2) ++
        [.jump (start + 2 + thenBody.codeSize + 2 + elseBody.codeSize)]) ++
      elseBody.layout (start + 2 + thenBody.codeSize + 2) := by
  rw [layout, guarded, Instr.sizeAll_append, sizeAll_layout]
  simp [Instr.sizeAll, Instr.size, Instr.encode, Instr.target?, Nat.add_assoc]

theorem layout_whileDo (body : Statement) :
    (whileDo c body).layout start = guarded start c (body.layout (start + 2) ++ [.jump start]) := by
  rw [layout, guarded, Instr.sizeAll_append, sizeAll_layout]
  simp [Instr.sizeAll, Instr.size, Instr.encode, Instr.target?, Nat.add_assoc]

end

/-! ### Jumps to the very end -/

theorem exists_target_stop_of_layoutAll_eq_concat {body : List Statement}
    (ih : ∀ s ∈ body, ∀ start code, s.layout start = code ++ [.jump (start + s.codeSize)] →
      ∃ i ∈ code, i.target? = some (start + s.codeSize))
    {start : Nat} {code : List Instr}
    (h : layoutAll start body = code ++ [.jump (start + codeSizeAll body)]) :
    ∃ i ∈ code, i.target? = some (start + codeSizeAll body) := by
  induction body generalizing start code with
  | nil => simp [layoutAll] at h
  | cons s rest ihRest =>
      rw [layoutAll, codeSizeAll] at h
      rw [codeSizeAll]
      have hsize : Instr.sizeAll (layoutAll (start + s.codeSize) rest) = codeSizeAll rest :=
        (block rest).sizeAll_layout (start + s.codeSize)
      rcases List.eq_nil_or_concat (layoutAll (start + s.codeSize) rest) with
        hnil | ⟨later, i, hrest⟩
      · rw [hnil] at hsize
        obtain hsize : 0 = codeSizeAll rest := hsize
        rw [hnil, List.append_nil, ← hsize] at h
        rw [← hsize]
        exact ih s List.mem_cons_self start code h
      · rw [hrest, List.concat_eq_append, ← List.append_assoc] at h
        obtain ⟨rfl, hlast⟩ := List.append_inj' h rfl
        rw [List.concat_eq_append, hlast, ← Nat.add_assoc] at hrest
        obtain ⟨j, hj, htarget⟩ := ihRest (fun t ht => ih t (List.mem_cons_of_mem s ht)) hrest
        exact ⟨j, List.mem_append_right _ hj, by rw [htarget, Nat.add_assoc]⟩

/-- **Code that ends in a jump to its own end has another jump to its end.** The last statement is
then a two-way branch without code in its second body, whose conditional jump goes there too, or it
is inside a branch that jumps there. -/
theorem exists_target_stop_of_layout_eq_concat (s : Statement) {start : Nat} {code : List Instr}
    (h : s.layout start = code ++ [.jump (start + s.codeSize)]) :
    ∃ i ∈ code, i.target? = some (start + s.codeSize) := by
  induction s using Statement.induction generalizing start code with
  | block body ih =>
      rw [layout, codeSize] at h
      rw [codeSize]
      exact exists_target_stop_of_layoutAll_eq_concat ih h
  | ifThen c body ih =>
      rw [layout] at h
      cases code with
      | nil => cases (List.cons.inj h).1
      | cons i code =>
          obtain ⟨rfl, -⟩ := List.cons.inj h
          refine ⟨_, List.mem_cons_self, ?_⟩
          rw [codeSize, ← Nat.add_assoc]
          rfl
  | ifElse c thenBody elseBody ihThen ihElse =>
      rw [layout] at h
      have hsize := elseBody.sizeAll_layout (start + 2 + thenBody.codeSize + 2)
      rcases List.eq_nil_or_concat (elseBody.layout (start + 2 + thenBody.codeSize + 2)) with
        hnil | ⟨later, i, helse⟩
      · rw [hnil] at hsize h
        obtain ⟨rfl, -⟩ := List.append_inj' h rfl
        refine ⟨_, List.mem_cons_self, ?_⟩
        rw [codeSize, ← hsize]
        simp [Instr.target?, Instr.sizeAll, Nat.add_assoc]
      · rw [helse, List.concat_eq_append, ← List.cons_append, ← List.append_assoc] at h
        obtain ⟨rfl, -⟩ := List.append_inj' h rfl
        refine ⟨_, List.mem_append_right _ List.mem_cons_self, ?_⟩
        simp [Instr.target?, codeSize, Nat.add_assoc]
  | whileDo c body ih =>
      rw [layout, codeSize] at h
      obtain ⟨-, hlast⟩ := List.append_inj' h rfl
      have hback := Instr.jump.inj (List.cons.inj hlast).1
      omega
  | call name =>
      have hjump : .jump (start + (call name).codeSize) ∈ (call name).layout start := by
        rw [h]
        exact List.mem_append_right _ List.mem_cons_self
      simp [layout] at hjump

/-- **How the body of a one-way branch can end.** If code with a jump after it is the code of a
statement, the jump goes neither before the code nor to the address after the jump or further. -/
theorem jump_bounds_of_layout_eq_concat {s t : Statement} {start target : Nat}
    (h : s.layout start = t.layout start ++ [.jump target]) :
    start ≤ target ∧ target < start + t.codeSize + 2 := by
  have hsize : s.codeSize = t.codeSize + 2 := by
    rw [← s.sizeAll_layout start, h, Instr.sizeAll_append, sizeAll_layout]
    rfl
  have hmem : .jump target ∈ s.layout start := by
    rw [h]
    exact List.mem_append_right _ List.mem_cons_self
  obtain ⟨hstart, hstop⟩ := s.target_bounds_of_mem_layout rfl hmem
  refine ⟨hstart, ?_⟩
  by_contra hlt
  obtain rfl : target = start + s.codeSize := by omega
  obtain ⟨i, hi, htarget⟩ := s.exists_target_stop_of_layout_eq_concat h
  have hbounds := t.target_bounds_of_mem_layout htarget hi
  omega

/-! ### Compound statements are told apart -/

section

variable {start : Nat} {c c' : Condition} {body thenBody elseBody : Statement}
  {more more' : List Instr}

theorem layout_ifThen_append_ne_ifElse :
    (ifThen c body).layout start ++ more ≠ (ifElse c' thenBody elseBody).layout start ++ more' := by
  intro h
  rw [layout_ifThen, layout_ifElse, List.append_assoc] at h
  obtain ⟨-, hinner, -⟩ := guarded_append_inj h
  have hbounds := jump_bounds_of_layout_eq_concat hinner
  omega

theorem layout_ifThen_append_ne_whileDo :
    (ifThen c body).layout start ++ more ≠ (whileDo c' thenBody).layout start ++ more' := by
  intro h
  rw [layout_ifThen, layout_whileDo] at h
  obtain ⟨-, hinner, -⟩ := guarded_append_inj h
  have hbounds := jump_bounds_of_layout_eq_concat hinner
  omega

theorem layout_ifElse_append_ne_whileDo :
    (ifElse c thenBody elseBody).layout start ++ more ≠
      (whileDo c' body).layout start ++ more' := by
  intro h
  rw [layout_ifElse, layout_whileDo, List.append_assoc] at h
  obtain ⟨-, hinner, -⟩ := guarded_append_inj h
  obtain ⟨-, hlast⟩ := List.append_inj' hinner rfl
  have hback := Instr.jump.inj (List.cons.inj hlast).1
  omega

end

/-! ### Reading code back -/

/-- A plain statement has code. -/
theorem Plain.layout_ne_nil {s : Statement} (h : Plain s) (start : Nat) : s.layout start ≠ [] := by
  cases h with
  | action hact => simp [layout, hact]
  | ifThen => simp [layout]
  | ifElse => simp [layout]
  | whileDo => simp [layout]

/-- Statements one after another can be read back if each of them can, whatever follows it. -/
theorem eq_of_layoutAll_eq {body body' : List Statement}
    (ih : ∀ s ∈ body, ∀ {s'}, Plain s' → ∀ {start more more'},
      s.layout start ++ more = s'.layout start ++ more' → s = s' ∧ more = more')
    (hbody : ∀ s ∈ body, Plain s) (hbody' : ∀ s ∈ body', Plain s) {start : Nat}
    (h : layoutAll start body = layoutAll start body') : body = body' := by
  induction body generalizing body' start with
  | nil =>
      cases body' with
      | nil => rfl
      | cons s' rest' =>
          rw [layoutAll, layoutAll] at h
          have hnil := (List.append_eq_nil_iff.mp h.symm).1
          exact absurd hnil ((hbody' s' List.mem_cons_self).layout_ne_nil start)
  | cons s rest ihRest =>
      cases body' with
      | nil =>
          rw [layoutAll, layoutAll] at h
          have hnil := (List.append_eq_nil_iff.mp h).1
          exact absurd hnil ((hbody s List.mem_cons_self).layout_ne_nil start)
      | cons s' rest' =>
          rw [layoutAll, layoutAll] at h
          obtain ⟨rfl, hrest⟩ := ih s List.mem_cons_self (hbody' s' List.mem_cons_self) h
          rw [ihRest (fun t ht => ih t (List.mem_cons_of_mem s ht))
            (fun t ht => hbody t (List.mem_cons_of_mem s ht))
            (fun t ht => hbody' t (List.mem_cons_of_mem s ht)) hrest]

/-- **No code is an initial part of another**: what a plain statement's code begins with tells the
statement, whatever code follows. -/
theorem Plain.layout_append_inj {s s' : Statement} (h : Plain s) (h' : Plain s') {start : Nat}
    {more more' : List Instr} (hcode : s.layout start ++ more = s'.layout start ++ more') :
    s = s' ∧ more = more' := by
  induction h generalizing s' start more more' with
  | @action name action hact =>
      cases h' with
      | @action name' action' hact' =>
          simp only [layout, hact, hact', Option.toList_some, List.map_cons, List.map_nil,
            List.cons_append, List.nil_append, List.cons.injEq, Instr.act.injEq] at hcode
          obtain ⟨rfl, rfl⟩ := hcode
          rw [← Action.name_of_ofName? hact, ← Action.name_of_ofName? hact']
          exact ⟨rfl, rfl⟩
      | ifThen => simp [layout, hact] at hcode
      | ifElse => simp [layout, hact] at hcode
      | whileDo => simp [layout, hact] at hcode
  | @ifThen c body hbody ih =>
      cases h' with
      | action hact => simp [layout, hact] at hcode
      | @ifThen c' body' hbody' =>
          rw [layout_ifThen, layout_ifThen] at hcode
          obtain ⟨rfl, hinner, rfl⟩ := guarded_append_inj hcode
          rw [layout, layout] at hinner
          rw [eq_of_layoutAll_eq ih hbody hbody' hinner]
          exact ⟨rfl, rfl⟩
      | ifElse => exact absurd hcode layout_ifThen_append_ne_ifElse
      | whileDo => exact absurd hcode layout_ifThen_append_ne_whileDo
  | @ifElse c thenBody elseBody hthen helse ihThen ihElse =>
      cases h' with
      | action hact => simp [layout, hact] at hcode
      | ifThen => exact absurd hcode.symm layout_ifThen_append_ne_ifElse
      | @ifElse c' thenBody' elseBody' hthen' helse' =>
          rw [layout_ifElse, layout_ifElse, List.append_assoc, List.append_assoc] at hcode
          obtain ⟨rfl, hinner, hmore⟩ := guarded_append_inj hcode
          obtain ⟨hinner, hlast⟩ := List.append_inj' hinner rfl
          rw [layout, layout] at hinner
          obtain rfl := eq_of_layoutAll_eq ihThen hthen hthen' hinner
          -- the jump over the second body says where that ends
          have hstop := Instr.jump.inj (List.cons.inj hlast).1
          obtain ⟨helseCode, rfl⟩ := Instr.append_inj_of_sizeAll hmore
            (by rw [sizeAll_layout, sizeAll_layout]; omega)
          rw [layout, layout] at helseCode
          rw [eq_of_layoutAll_eq ihElse helse helse' helseCode]
          exact ⟨rfl, rfl⟩
      | whileDo => exact absurd hcode layout_ifElse_append_ne_whileDo
  | @whileDo c body hbody ih =>
      cases h' with
      | action hact => simp [layout, hact] at hcode
      | ifThen => exact absurd hcode.symm layout_ifThen_append_ne_whileDo
      | ifElse => exact absurd hcode.symm layout_ifElse_append_ne_whileDo
      | @whileDo c' body' hbody' =>
          rw [layout_whileDo, layout_whileDo] at hcode
          obtain ⟨rfl, hinner, rfl⟩ := guarded_append_inj hcode
          obtain ⟨hinner, -⟩ := List.append_inj' hinner rfl
          rw [layout, layout] at hinner
          rw [eq_of_layoutAll_eq ih hbody hbody' hinner]
          exact ⟨rfl, rfl⟩

/-- Statements that call only actions and have the same code have the same flat form. -/
theorem flat_eq_of_layout_eq {s t : Statement}
    (hs : ∀ name ∈ s.callNames, Action.isName name = true)
    (ht : ∀ name ∈ t.callNames, Action.isName name = true) {start : Nat}
    (h : s.layout start = t.layout start) : s.flat = t.flat := by
  rw [← layout_flat s, ← layout_flat t, flat, flat, layout, layout] at h
  have hplain := plain_of_mem_members_tidy hs
  rw [flat, flat, eq_of_layoutAll_eq (fun u hu => (hplain u hu).layout_append_inj) hplain
    (plain_of_mem_members_tidy ht) h]

/-! ### Programs with the same code -/

/-- Statements that call only actions and have the same complete code have the same code. -/
theorem layout_eq_of_ofInstrs_eq {s t : Statement}
    (h : Bytecode.ofInstrs (s.layout 0 ++ [.halt]) = .ofInstrs (t.layout 0 ++ [.halt])) :
    s.layout 0 = t.layout 0 := by
  have hdecode := s.decode_layout
  rw [h, t.decode_layout] at hdecode
  have hplace := congrArg (List.map Placed.instr) (Except.ok.inj hdecode)
  rw [Instr.map_instr_place, Instr.map_instr_place] at hplace
  exact (List.append_inj' hplace rfl).1.symm

/-- **Code determines what it came from.** If two main bodies, each with its own definitions, have
the same code, then their expansions have the same flat form. The expansions are also the same when
tidied, if both are sequences or neither is. -/
theorem compile_determines_flat {defs₁ defs₂ : Definitions} {body₁ body₂ : Statement}
    {bc : Bytecode} (h₁ : (body₁.compile defs₁).outcome = .ok bc)
    (h₂ : (body₂.compile defs₂).outcome = .ok bc) :
    ∃ t₁ t₂, (∀ t, Expands defs₁ body₁ t ↔ t = t₁) ∧ (∀ t, Expands defs₂ body₂ t ↔ t = t₂) ∧
      t₁.flat = t₂.flat ∧ (t₁.isBlock = t₂.isBlock → t₁.tidy = t₂.tidy) := by
  obtain ⟨code₁, hcode₁, rfl⟩ := compile_eq_ok_iff.mp h₁
  obtain ⟨code₂, hcode₂, hsame⟩ := compile_eq_ok_iff.mp h₂
  obtain ⟨t₁, ht₁, rfl⟩ := exists_expands_of_emit hcode₁
  obtain ⟨t₂, ht₂, rfl⟩ := exists_expands_of_emit hcode₂
  have hflat : t₁.flat = t₂.flat := flat_eq_of_layout_eq (fun _ => ht₁.isName_of_mem_callNames)
    (fun _ => ht₂.isName_of_mem_callNames) (layout_eq_of_ofInstrs_eq hsame)
  exact ⟨t₁, t₂, ht₁.iff_eq, ht₂.iff_eq, hflat, tidy_eq_of_flat_eq hflat⟩

/-- A branch whose body ends in the call of an instruction. -/
def scout : Statement :=
  .ifThen .random (.block [.call "move", .call "strike"])

/-- The instruction: a two-way branch with nothing in its second body. -/
def scoutDefinitions : Definitions :=
  .ofList [("strike", .ifElse (.ahead .enemy false) (.call "infect") .empty)]

/-- The branch with its call written out. -/
def scoutWrittenOut : Statement :=
  .ifThen .random
    (.block [.call "move", .ifElse (.ahead .enemy false) (.call "infect") .empty])

/-- The branch written without instructions, with more sequences than it needs. -/
def scoutNested : Statement :=
  .block [.empty, .ifThen .random (.block [.block [.call "move"],
    .block [.ifElse (.ahead .enemy false) (.block [.call "infect"]) .empty]])]

/-- Two bodies with the same code, in which both conditional jumps and the jump go to the halt:
their expansions have the same flat form. -/
theorem compile_determines_flat_scout :
    (scout.compile scoutDefinitions).outcome = .ok ⟨[15, 8, 0, 9, 8, 3, 6, 8, 5]⟩ ∧
    (scoutNested.compile .empty).outcome = .ok ⟨[15, 8, 0, 9, 8, 3, 6, 8, 5]⟩ ∧
    Expands scoutDefinitions scout scoutWrittenOut ∧ Expands .empty scoutNested scoutNested ∧
    scoutWrittenOut.flat = scoutNested.flat := by
  have h₁ : (scout.compile scoutDefinitions).outcome = .ok ⟨[15, 8, 0, 9, 8, 3, 6, 8, 5]⟩ := by
    cbv
  have h₂ : (scoutNested.compile .empty).outcome = .ok ⟨[15, 8, 0, 9, 8, 3, 6, 8, 5]⟩ := by
    cbv
  have hmove : ∀ defs, Expands defs (.call "move") (.call "move") := fun _ =>
    @Expands.action _ "move" .move rfl
  have hinfect : ∀ defs, Expands defs (.call "infect") (.call "infect") := fun _ =>
    @Expands.action _ "infect" .infect rfl
  have hscout : Expands scoutDefinitions scout scoutWrittenOut :=
    .ifThen (.block (.cons (hmove _) (.cons
      (.instruction rfl rfl (.ifElse (hinfect _) (.block .nil))) .nil)))
  have hnested : Expands .empty scoutNested scoutNested :=
    .block (.cons (.block .nil) (.cons (.ifThen (.block (.cons (.block (.cons (hmove _) .nil))
      (.cons (.block (.cons (.ifElse (.block (.cons (hinfect _) .nil)) (.block .nil)) .nil))
        .nil)))) .nil))
  obtain ⟨t₁, t₂, hunique₁, hunique₂, hflat, -⟩ := compile_determines_flat h₁ h₂
  rw [← (hunique₁ _).mp hscout, ← (hunique₂ _).mp hnested] at hflat
  exact ⟨h₁, h₂, hscout, hnested, hflat⟩

/-- Code does not show whether a main body of one statement is a sequence: an action by itself and
the sequence of only that action have the same code, and tidying leaves them different. -/
theorem compile_not_determines_tidy :
    ((call "move").compile .empty).outcome = .ok ⟨[0, 5]⟩ ∧
    ((block [call "move"]).compile .empty).outcome = .ok ⟨[0, 5]⟩ ∧
    Expands .empty (call "move") (call "move") ∧
    Expands .empty (block [call "move"]) (block [call "move"]) ∧
    (call "move").tidy ≠ (block [call "move"]).tidy := by
  have hmove : Expands .empty (.call "move") (.call "move") :=
    @Expands.action _ "move" .move rfl
  refine ⟨by cbv, by cbv, hmove, .block (.cons hmove .nil), ?_⟩
  simp [tidy]

end Statement

end RobotScript
