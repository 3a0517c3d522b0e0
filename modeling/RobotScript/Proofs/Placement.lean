import RobotScript.Proofs.Expansion

/-!
# Where code sits

Jumps name addresses of the whole program, so every statement about a piece of code is relative to
where the piece sits. `CodeAt program address code` places `code` in `program`: the instructions
before it take `address` numbers together. Placing goes by instructions and not by numbers, so an
address at which code is placed is never that of a jump's target number.

## Main results

* `CodeAt.left`, `CodeAt.right`, `CodeAt.tail`: the pieces of placed code are placed.
* `decode_ofInstrs`: **decoding undoes encoding** for instructions whose targets are in range.
* `CodeAt.mem_place`: placed code is what decoding finds at its address.
* `Statement.isBoundary_target`: **a statement's jumps stay in its code**; they go to one of its
  instructions, or to the address just after its code.
-/

namespace RobotScript

/-- The instructions with their addresses, the first of them at `address`. -/
def Instr.place (address : Nat) : List Instr → List Placed
  | [] => []
  | i :: rest => ⟨address, i⟩ :: place (address + i.size) rest

namespace Instr

/-- What follows code is placed where the code ends. -/
theorem place_append (address : Nat) (code more : List Instr) :
    place address (code ++ more) = place address code ++ place (address + sizeAll code) more := by
  induction code generalizing address with
  | nil => simp [place, sizeAll]
  | cons i code ih =>
      rw [List.cons_append, place, place, ih, sizeAll, Nat.add_assoc, List.cons_append]

/-- What follows a jump is placed two numbers later. -/
theorem place_jump_cons (address target : Nat) (code : List Instr) :
    place address (jump target :: code) = ⟨address, jump target⟩ :: place (address + 2) code := rfl

/-- What follows a conditional jump is placed two numbers later. -/
theorem place_jumpUnless_cons (address : Nat) (c : Condition) (target : Nat) (code : List Instr) :
    place address (jumpUnless c target :: code) =
      ⟨address, jumpUnless c target⟩ :: place (address + 2) code := rfl

/-- The placed instructions are the instructions. -/
theorem map_instr_place (address : Nat) (code : List Instr) :
    (place address code).map Placed.instr = code := by
  induction code generalizing address with
  | nil => rfl
  | cons i code ih => rw [place, List.map_cons, ih]

/-- A placed instruction is one of the instructions. -/
theorem mem_of_mem_place {address : Nat} {code : List Instr} {p : Placed}
    (hp : p ∈ place address code) : p.instr ∈ code := by
  have hmem : p.instr ∈ (place address code).map Placed.instr := List.mem_map_of_mem hp
  rwa [map_instr_place] at hmem

end Instr

/-- The piece `code` of a program starts at `address`. -/
def CodeAt (program : List Instr) (address : Nat) (code : List Instr) : Prop :=
  ∃ before after, program = before ++ code ++ after ∧ Instr.sizeAll before = address

namespace CodeAt

variable {program code code' : List Instr} {address : Nat} {i : Instr}

/-- A program starts at address zero. -/
theorem whole (program : List Instr) : CodeAt program 0 program :=
  ⟨[], [], by simp, rfl⟩

/-- The first of two pieces of code is at the address of both. -/
theorem left (h : CodeAt program address (code ++ code')) : CodeAt program address code := by
  obtain ⟨before, after, rfl, hsize⟩ := h
  exact ⟨before, code' ++ after, by simp, hsize⟩

/-- The second of two pieces of code follows the first. -/
theorem right (h : CodeAt program address (code ++ code')) :
    CodeAt program (address + Instr.sizeAll code) code' := by
  obtain ⟨before, after, rfl, rfl⟩ := h
  exact ⟨before ++ code, after, by simp, Instr.sizeAll_append before code⟩

/-- What follows an instruction is placed after it. -/
theorem tail (h : CodeAt program address (i :: code)) : CodeAt program (address + i.size) code := by
  have h' : CodeAt program (address + Instr.sizeAll [i]) code :=
    right (show CodeAt program address ([i] ++ code) from h)
  simpa [Instr.sizeAll] using h'

theorem mem_place_append (before code : List Instr) (start : Nat) :
    ⟨start + Instr.sizeAll before, i⟩ ∈ Instr.place start (before ++ i :: code) := by
  induction before generalizing start with
  | nil => simp [Instr.place, Instr.sizeAll]
  | cons j before ih =>
      have h := ih (start + j.size)
      rw [Nat.add_assoc] at h
      rw [List.cons_append, Instr.place, Instr.sizeAll]
      exact List.mem_cons_of_mem _ h

/-- Placed code is among the instructions of the program, with its address. -/
theorem mem_place (h : CodeAt program address (i :: code)) :
    ⟨address, i⟩ ∈ Instr.place 0 program := by
  obtain ⟨before, after, rfl, rfl⟩ := h
  have h' := mem_place_append (i := i) before (code ++ after) 0
  rw [Nat.zero_add] at h'
  simpa using h'

/-- The numbers of an instruction stand at its address. -/
theorem values_drop (h : CodeAt program address (i :: code)) :
    ∃ rest, (Bytecode.ofInstrs program).values.drop address = i.encode ++ rest := by
  obtain ⟨before, after, rfl, rfl⟩ := h
  refine ⟨(code ++ after).flatMap Instr.encode, ?_⟩
  rw [← Instr.length_flatMap_encode]
  simp [Bytecode.ofInstrs]

end CodeAt

/-! ### Decoding -/

namespace Bytecode

/-- An operation without a target is decoded by itself. -/
theorem decodeFrom_complete {op : Opcode} {instr : Instr} (h : op.shape = .complete instr)
    (length address : Nat) (rest : List Nat) :
    decodeFrom length address (op.code :: rest) =
      (decodeFrom length (address + 1) rest).map (⟨address, instr⟩ :: ·) := by
  rw [decodeFrom, Opcode.ofCode?_code]
  simp only [h]
  cases decodeFrom length (address + 1) rest <;> rfl

/-- A jump is decoded with its target, if that is in range. -/
theorem decodeFrom_awaitsTarget {op : Opcode} {instr : Nat → Instr}
    (h : op.shape = .awaitsTarget instr) {length target : Nat} (htarget : target < length)
    (address : Nat) (rest : List Nat) :
    decodeFrom length address (op.code :: target :: rest) =
      (decodeFrom length (address + 2) rest).map (⟨address, instr target⟩ :: ·) := by
  rw [decodeFrom, Opcode.ofCode?_code]
  simp only [h, htarget, if_true]
  cases decodeFrom length (address + 2) rest <;> rfl

/-- Decoding takes an instruction off the front of the numbers. -/
theorem decodeFrom_encode_append {length : Nat} {i : Instr}
    (h : ∀ target, i.target? = some target → target < length) (address : Nat) (rest : List Nat) :
    decodeFrom length address (i.encode ++ rest) =
      (decodeFrom length (address + i.size) rest).map (⟨address, i⟩ :: ·) := by
  cases i with
  | act action => exact decodeFrom_complete rfl length address rest
  | halt => exact decodeFrom_complete rfl length address rest
  | jump target => exact decodeFrom_awaitsTarget rfl (h target rfl) address rest
  | jumpUnless c target => exact decodeFrom_awaitsTarget rfl (h target rfl) address rest

theorem decodeFrom_flatMap_encode {length : Nat} {code : List Instr}
    (h : ∀ i ∈ code, ∀ target, i.target? = some target → target < length) (address : Nat) :
    decodeFrom length address (code.flatMap Instr.encode) = .ok (Instr.place address code) := by
  induction code generalizing address with
  | nil => rfl
  | cons i code ih =>
      have hcode := ih (fun j hj => h j (List.mem_cons_of_mem _ hj)) (address + i.size)
      rw [List.flatMap_cons, decodeFrom_encode_append (h i (by simp)), hcode]
      rfl

/-- **Decoding undoes encoding**: if every target is an address of the code, decoding gives back the
instructions, each with its address. -/
theorem decode_ofInstrs {code : List Instr}
    (h : ∀ i ∈ code, ∀ target, i.target? = some target → target < Instr.sizeAll code) :
    (ofInstrs code).decode = .ok (Instr.place 0 code) := by
  rw [decode, size_ofInstrs]
  exact decodeFrom_flatMap_encode h 0

end Bytecode

/-! ### Boundaries and targets -/

/-- In code that starts at `start`, an instruction starts at `address`, or the code ends there. -/
def IsBoundary (start : Nat) (code : List Instr) (address : Nat) : Prop :=
  ∃ before after, code = before ++ after ∧ address = start + Instr.sizeAll before

namespace IsBoundary

variable {start middle address : Nat} {code more : List Instr} {i : Instr}

/-- The start of code is a boundary. -/
theorem first (start : Nat) (code : List Instr) : IsBoundary start code start :=
  ⟨[], code, rfl, rfl⟩

/-- The end of code is a boundary. -/
theorem last (start : Nat) (code : List Instr) :
    IsBoundary start code (start + Instr.sizeAll code) :=
  ⟨code, [], by simp, rfl⟩

/-- A boundary stays one when code is added at the end. -/
theorem append (h : IsBoundary start code address) (more : List Instr) :
    IsBoundary start (code ++ more) address := by
  obtain ⟨before, after, rfl, rfl⟩ := h
  exact ⟨before, after ++ more, by simp, rfl⟩

/-- A boundary stays one when code is added in front. -/
theorem prepend (h : IsBoundary middle more address)
    (hmiddle : middle = start + Instr.sizeAll code) : IsBoundary start (code ++ more) address := by
  obtain ⟨before, after, rfl, rfl⟩ := h
  refine ⟨code ++ before, after, by simp, ?_⟩
  rw [hmiddle, Instr.sizeAll_append]
  omega

/-- A boundary stays one when an instruction is added in front. -/
theorem cons (h : IsBoundary (start + i.size) code address) :
    IsBoundary start (i :: code) address := by
  obtain ⟨before, after, rfl, rfl⟩ := h
  refine ⟨i :: before, after, rfl, ?_⟩
  rw [Instr.sizeAll]
  omega

/-- A boundary is not outside the code. -/
theorem bounds (h : IsBoundary start code address) :
    start ≤ address ∧ address ≤ start + Instr.sizeAll code := by
  obtain ⟨before, after, rfl, rfl⟩ := h
  rw [Instr.sizeAll_append]
  omega

end IsBoundary

namespace Statement

theorem isBoundary_target_layoutAll {body : List Statement} {i : Instr} {target : Nat}
    (ih : ∀ s ∈ body, ∀ start, i ∈ s.layout start → IsBoundary start (s.layout start) target)
    (start : Nat) (hi : i ∈ layoutAll start body) :
    IsBoundary start (layoutAll start body) target := by
  induction body generalizing start with
  | nil => simp [layoutAll] at hi
  | cons s rest ihRest =>
      rw [layoutAll, List.mem_append] at hi
      rw [layoutAll]
      rcases hi with hi | hi
      · exact (ih s (by simp) start hi).append _
      · have hrest := ihRest (fun t ht => ih t (by simp [ht])) (start + s.codeSize) hi
        exact hrest.prepend (by rw [sizeAll_layout])

/-- **A statement's jumps stay in its code**: they go to one of its instructions, or to the address
just after its code. -/
theorem isBoundary_target (s : Statement) {i : Instr} {target : Nat}
    (htarget : i.target? = some target) (start : Nat) (hi : i ∈ s.layout start) :
    IsBoundary start (s.layout start) target := by
  induction s using Statement.induction generalizing start with
  | block body ih =>
      rw [layout] at hi ⊢
      exact isBoundary_target_layoutAll ih start hi
  | ifThen c body ih =>
      rw [layout, List.mem_cons] at hi
      rw [layout]
      refine .cons ?_
      rcases hi with rfl | hi
      · obtain rfl := Option.some.inj htarget
        rw [← sizeAll_layout body (start + 2)]
        exact .last (start + 2) _
      · exact ih (start + 2) hi
  | ifElse c thenBody elseBody ihThen ihElse =>
      have hthen : start + 2 + thenBody.codeSize =
          start + Instr.sizeAll (.jumpUnless c (start + 2 + thenBody.codeSize + 2) ::
            thenBody.layout (start + 2)) := by
        rw [Instr.sizeAll, sizeAll_layout, Nat.add_assoc]
        rfl
      rw [layout, List.mem_append, List.mem_cons, List.mem_cons] at hi
      rw [layout]
      rcases hi with (rfl | hi) | rfl | hi
      · obtain rfl := Option.some.inj htarget
        exact .prepend (.cons (.first _ _)) hthen
      · exact .append (.cons (ihThen (start + 2) hi)) _
      · obtain rfl := Option.some.inj htarget
        refine .prepend (.cons ?_) hthen
        rw [← sizeAll_layout elseBody (start + 2 + thenBody.codeSize + 2)]
        exact .last _ _
      · exact .prepend (.cons (ihElse _ hi)) hthen
  | whileDo c body ih =>
      rw [layout, List.mem_append, List.mem_cons, List.mem_singleton] at hi
      rw [layout]
      rcases hi with (rfl | hi) | rfl
      · obtain rfl := Option.some.inj htarget
        refine .prepend (.last (start + 2 + body.codeSize) [.jump start]) ?_
        rw [Instr.sizeAll, sizeAll_layout, Nat.add_assoc]
        rfl
      · exact .append (.cons (ih (start + 2) hi)) _
      · obtain rfl := Option.some.inj htarget
        exact .first _ _
  | call name =>
      rw [layout, List.mem_map] at hi
      obtain ⟨action, -, rfl⟩ := hi
      cases htarget

/-- A statement's jumps go neither before its code nor further than just after it. -/
theorem target_bounds_of_mem_layout (s : Statement) {i : Instr} {target : Nat}
    (htarget : i.target? = some target) {start : Nat} (hi : i ∈ s.layout start) :
    start ≤ target ∧ target ≤ start + s.codeSize := by
  have hbounds := (s.isBoundary_target htarget start hi).bounds
  rwa [sizeAll_layout] at hbounds

/-- The complete code of a statement that calls only actions decodes to its instructions. -/
theorem decode_layout (s : Statement) :
    (Bytecode.ofInstrs (s.layout 0 ++ [.halt])).decode =
      .ok (Instr.place 0 (s.layout 0 ++ [.halt])) := by
  refine Bytecode.decode_ofInstrs fun i hi target htarget => ?_
  have hsize : Instr.sizeAll (s.layout 0 ++ [.halt]) = s.codeSize + 1 := by
    rw [Instr.sizeAll_append, sizeAll_layout]
    rfl
  rw [hsize]
  rcases List.mem_append.mp hi with hi | hi
  · have := s.target_bounds_of_mem_layout htarget hi
    omega
  · obtain rfl := List.mem_singleton.mp hi
    cases htarget

end Statement

end RobotScript
