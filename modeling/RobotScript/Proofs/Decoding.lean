import Mathlib.Tactic
import RobotScript.Proofs.Placement

/-!
# Decoding is the inverse of encoding

Decoding goes through the numbers of a code with one cursor and stops at the first instruction that
it cannot read. Here both of its outcomes are described without it. The numbers split into
instructions in at most one way, and decoding finds that way if there is one with all targets in
range. Otherwise it passes over instructions that are in order and reports what is wrong at the
address it has come to; the reason follows from the one or two numbers there.

One lemma, `exists_encode_or_fault`, says what can stand at the cursor: an instruction in order, or
one of the three faults. The rest is induction on the numbers.

## Main definitions

* `Bytecode.Splits` — the instructions with their addresses are those of the code.
* `Bytecode.OnBoundary` — the addresses that are reached from zero over instructions in order.
* `Bytecode.Fault` — why no instruction in order starts a list of numbers.

## Main results

* `Bytecode.decodeFrom_eq_ok_iff`, `Bytecode.decodeFrom_eq_error_iff`: both outcomes, from any
  address.
* `Instr.flatMap_encode_injective`: **numbers split into instructions in at most one way**.
* `Bytecode.decode_classification`: **what becomes of any list of numbers**.
-/

namespace RobotScript

/-! ### Operations and their codes -/

namespace Opcode

/-- The operations are numbered from zero in their order. -/
theorem map_code_all : all.map code = List.range 17 := by decide

/-- The operation that is found under a number has this number. -/
theorem code_of_ofCode? {value : Nat} {op : Opcode} (h : ofCode? value = some op) :
    op.code = value := by
  have hcode : (all.map code)[value]? = some op.code := by
    rw [List.getElem?_map, show all[value]? = some op from h, Option.map_some]
  rw [map_code_all] at hcode
  obtain ⟨_, hvalue⟩ := List.getElem?_eq_some_iff.mp hcode
  rw [← hvalue, List.getElem_range]

/-- The numbers from 17 on are no operations, and only they. -/
theorem ofCode?_eq_none_iff {value : Nat} : ofCode? value = none ↔ 17 ≤ value :=
  List.getElem?_eq_none_iff

theorem code_lt (op : Opcode) : op.code < 17 := by
  by_contra hle
  have hnone := ofCode?_eq_none_iff.mpr (Nat.le_of_not_lt hle)
  rw [ofCode?_code] at hnone
  cases hnone

theorem code_injective {op op' : Opcode} (h : op.code = op'.code) : op = op' :=
  Option.some.inj (by rw [← ofCode?_code op, h, ofCode?_code])

/-- An operation that is not a jump is an instruction by itself. -/
theorem exists_instr_of_not_hasTarget {op : Opcode} (h : op.hasTarget = false) :
    ∃ i : Instr, i.encode = [op.code] ∧ i.target? = none := by
  cases op with
  | act action => exact ⟨.act action, rfl, rfl⟩
  | halt => exact ⟨.halt, rfl, rfl⟩
  | jump => cases h
  | jumpUnless c => cases h

/-- A jump is an instruction together with any target. -/
theorem exists_instr_of_hasTarget {op : Opcode} (h : op.hasTarget = true) (target : Nat) :
    ∃ i : Instr, i.encode = [op.code, target] ∧ i.target? = some target := by
  cases op with
  | act action => cases h
  | halt => cases h
  | jump => exact ⟨.jump target, rfl, rfl⟩
  | jumpUnless c => exact ⟨.jumpUnless c target, rfl, rfl⟩

end Opcode

namespace Instr

/-- The operation of an instruction is a jump exactly if the instruction has a target. -/
theorem hasTarget_opcode (i : Instr) : i.opcode.hasTarget = i.target?.isSome := by
  cases i <;> rfl

/-- The instruction goes to an address below `length`, if it is a jump. -/
def InRange (length : Nat) (i : Instr) : Prop :=
  ∀ target, i.target? = some target → target < length

theorem eq_of_opcode_of_target? {i j : Instr} (hop : i.opcode = j.opcode)
    (htarget : i.target? = j.target?) : i = j := by
  cases i <;> cases j <;> simp_all [opcode, target?]

/-- An instruction ends where its operation says, so that what follows it is known. -/
theorem encode_append_inj {i j : Instr} {rest rest' : List Nat}
    (h : i.encode ++ rest = j.encode ++ rest') : i = j ∧ rest = rest' := by
  rw [encode, encode, List.cons_append, List.cons_append] at h
  obtain ⟨hcode, htail⟩ := List.cons.inj h
  have hop : i.opcode = j.opcode := Opcode.code_injective hcode
  -- the same operation has a target in both or in neither
  have hsome : i.target?.isSome = j.target?.isSome := by
    rw [← hasTarget_opcode, ← hasTarget_opcode, hop]
  have hlength : i.target?.toList.length = j.target?.toList.length := by
    rw [Option.length_toList, Option.length_toList, hsome]
  obtain ⟨htarget, hrest⟩ := List.append_inj htail hlength
  have htarget' : i.target? = j.target? := by simpa using congrArg List.head? htarget
  exact ⟨eq_of_opcode_of_target? hop htarget', hrest⟩

/-- **Numbers split into instructions in at most one way**, whatever the targets. -/
theorem flatMap_encode_injective : Function.Injective (List.flatMap encode) := by
  intro code
  induction code with
  | nil =>
      rintro (_ | ⟨j, code'⟩) h
      · rfl
      · cases h
  | cons i code ih =>
      rintro (_ | ⟨j, code'⟩) h
      · cases h
      · obtain ⟨rfl, hrest⟩ := encode_append_inj h
        rw [ih hrest]

end Instr

namespace Bytecode

/-! ### What can stand at the cursor -/

/-- Why no instruction with a target below `length` starts the numbers from `address` on. -/
inductive Fault (length address : Nat) : List Nat → DecodeError → Prop
  | unknownOpcode {value : Nat} (rest : List Nat) : 17 ≤ value →
      Fault length address (value :: rest) (.unknownOpcode address value)
  | missingTarget {op : Opcode} : op.hasTarget = true →
      Fault length address [op.code] (.missingTarget address op)
  | targetOutOfRange {op : Opcode} {target : Nat} (rest : List Nat) : op.hasTarget = true →
      length ≤ target →
      Fault length address (op.code :: target :: rest) (.targetOutOfRange address target length)

/-- Numbers start with an instruction in order, or with one of the faults. -/
theorem exists_encode_or_fault (length address value : Nat) (rest : List Nat) :
    (∃ i more, value :: rest = Instr.encode i ++ more ∧ i.InRange length) ∨
      ∃ e, Fault length address (value :: rest) e := by
  cases hop : Opcode.ofCode? value with
  | none => exact .inr ⟨_, .unknownOpcode rest (Opcode.ofCode?_eq_none_iff.mp hop)⟩
  | some op =>
      obtain rfl := Opcode.code_of_ofCode? hop
      cases hjump : op.hasTarget with
      | false =>
          obtain ⟨i, hencode, hnone⟩ := op.exists_instr_of_not_hasTarget hjump
          exact .inl ⟨i, rest, by simp [hencode], by simp [Instr.InRange, hnone]⟩
      | true =>
          cases rest with
          | nil => exact .inr ⟨_, .missingTarget hjump⟩
          | cons target more =>
              by_cases hrange : target < length
              · obtain ⟨i, hencode, htarget⟩ := op.exists_instr_of_hasTarget hjump target
                refine .inl ⟨i, more, by simp [hencode], ?_⟩
                rintro _ hsome
                rw [htarget] at hsome
                exact Option.some.inj hsome ▸ hrange
              · exact .inr ⟨_, .targetOutOfRange more hjump (Nat.le_of_not_lt hrange)⟩

/-- A fault at the cursor is reported. -/
theorem Fault.decodeFrom_eq {length address : Nat} {values : List Nat} {e : DecodeError}
    (h : Fault length address values e) : decodeFrom length address values = .error e := by
  cases h with
  | unknownOpcode rest hvalue =>
      rw [decodeFrom, Opcode.ofCode?_eq_none_iff.mpr hvalue]
  | @missingTarget op hjump =>
      rw [decodeFrom, Opcode.ofCode?_code]
      cases op with
      | act action => cases hjump
      | halt => cases hjump
      | jump => rfl
      | jumpUnless c => rfl
  | @targetOutOfRange op target rest hjump htarget =>
      rw [decodeFrom, Opcode.ofCode?_code]
      cases op with
      | act action => cases hjump
      | halt => cases hjump
      | jump => exact if_neg (Nat.not_lt.mpr htarget)
      | jumpUnless c => exact if_neg (Nat.not_lt.mpr htarget)

/-! ### Both outcomes -/

/-- A fault after instructions in order is reported, with its address. -/
theorem decodeFrom_of_fault {length : Nat} {before : List Instr}
    (hbefore : ∀ i ∈ before, i.InRange length) {address : Nat} {rest : List Nat} {e : DecodeError}
    (h : Fault length (address + Instr.sizeAll before) rest e) :
    decodeFrom length address (before.flatMap Instr.encode ++ rest) = .error e := by
  induction before generalizing address with
  | nil => exact h.decodeFrom_eq
  | cons i before ih =>
      obtain ⟨hi, hbefore⟩ := List.forall_mem_cons.mp hbefore
      rw [Instr.sizeAll, ← Nat.add_assoc] at h
      rw [List.flatMap_cons, List.append_assoc, decodeFrom_encode_append hi, ih hbefore h]
      rfl

/-- Numbers are instructions in order up to their end, or up to a fault. -/
theorem exists_flatMap_or_fault (length address : Nat) (values : List Nat) :
    ∃ before rest, values = List.flatMap Instr.encode before ++ rest ∧
      (∀ i ∈ before, i.InRange length) ∧
      (rest = [] ∨ ∃ e, Fault length (address + Instr.sizeAll before) rest e) := by
  induction hn : values.length using Nat.strong_induction_on generalizing address values with
  | _ n ih =>
  cases values with
  | nil => exact ⟨[], [], rfl, by simp, .inl rfl⟩
  | cons value later =>
      rcases exists_encode_or_fault length address value later with ⟨i, more, heq, hi⟩ | ⟨e, he⟩
      · have hshorter : more.length < n := by
          rw [← hn, heq, List.length_append, Instr.encode, List.length_cons]
          omega
        obtain ⟨before, rest, rfl, hbefore, hrest⟩ :=
          ih more.length hshorter (address + i.size) more rfl
        refine ⟨i :: before, rest, ?_, List.forall_mem_cons.mpr ⟨hi, hbefore⟩, ?_⟩
        · rw [heq, List.flatMap_cons, List.append_assoc]
        · rwa [Instr.sizeAll, ← Nat.add_assoc]
      · exact ⟨[], value :: later, rfl, by simp, .inr ⟨e, he⟩⟩

/-- Decoding succeeds exactly on the numbers of instructions in order, and places these. -/
theorem decodeFrom_eq_ok_iff {length address : Nat} {values : List Nat} {placed : List Placed} :
    decodeFrom length address values = .ok placed ↔
      ∃ code, values = List.flatMap Instr.encode code ∧ (∀ i ∈ code, i.InRange length) ∧
        placed = Instr.place address code := by
  constructor
  · intro h
    obtain ⟨before, rest, rfl, hbefore, rfl | ⟨e, he⟩⟩ :=
      exists_flatMap_or_fault length address values
    · rw [List.append_nil, decodeFrom_flatMap_encode hbefore] at h
      exact ⟨before, List.append_nil _, hbefore, (Except.ok.inj h).symm⟩
    · rw [decodeFrom_of_fault hbefore he] at h
      cases h
  · rintro ⟨code, rfl, hcode, rfl⟩
    exact decodeFrom_flatMap_encode hcode address

/-- Decoding fails exactly where a fault follows instructions in order. -/
theorem decodeFrom_eq_error_iff {length address : Nat} {values : List Nat} {e : DecodeError} :
    decodeFrom length address values = .error e ↔
      ∃ before rest, values = List.flatMap Instr.encode before ++ rest ∧
        (∀ i ∈ before, i.InRange length) ∧
        Fault length (address + Instr.sizeAll before) rest e := by
  constructor
  · intro h
    obtain ⟨before, rest, rfl, hbefore, rfl | ⟨e', he⟩⟩ :=
      exists_flatMap_or_fault length address values
    · rw [List.append_nil, decodeFrom_flatMap_encode hbefore] at h
      cases h
    · rw [decodeFrom_of_fault hbefore he] at h
      exact ⟨before, rest, rfl, hbefore, Except.error.inj h ▸ he⟩
  · rintro ⟨before, rest, rfl, hbefore, hfault⟩
    exact decodeFrom_of_fault hbefore hfault

/-! ### The boundaries of the instructions -/

/-- The address is the first one of the code, or follows an instruction in order at such an
address. -/
inductive OnBoundary (bc : Bytecode) : Nat → Prop
  | start : OnBoundary bc 0
  | next {address : Nat} {i : Instr} : OnBoundary bc address →
      i.encode <+: bc.values.drop address → i.InRange bc.size →
      OnBoundary bc (address + i.size)

/-- The boundaries are where instructions in order from the start of the code end. -/
theorem onBoundary_iff {bc : Bytecode} {address : Nat} :
    bc.OnBoundary address ↔ ∃ before, bc.values =
      List.flatMap Instr.encode before ++ bc.values.drop address ∧
      (∀ i ∈ before, i.InRange bc.size) ∧ Instr.sizeAll before = address := by
  constructor
  · intro h
    induction h with
    | start => exact ⟨[], by simp, by simp, rfl⟩
    | @next address i _ hstarts hi ih =>
        obtain ⟨before, hvalues, hbefore, hsize⟩ := ih
        obtain ⟨rest, hrest⟩ := hstarts
        refine ⟨before ++ [i], ?_, by simpa [or_imp, forall_and] using ⟨hbefore, hi⟩, ?_⟩
        · rw [← List.drop_drop, ← hrest, Instr.size, List.drop_left, List.flatMap_append,
            List.append_assoc, List.flatMap_singleton, hrest]
          exact hvalues
        · rw [Instr.sizeAll_append, hsize]
          rfl
  · rintro ⟨before, hvalues, hbefore, hsize⟩
    induction before using List.reverseRecOn generalizing address with
    | nil => exact hsize ▸ .start
    | append_singleton before i ih =>
        obtain ⟨hbefore, hi⟩ := List.forall_mem_append.mp hbefore
        rw [Instr.sizeAll_append] at hsize
        have hdrop : bc.values.drop (Instr.sizeAll before) =
            i.encode ++ bc.values.drop address := by
          conv_lhs => rw [hvalues]
          rw [List.flatMap_append, List.append_assoc, ← Instr.length_flatMap_encode,
            List.drop_left, List.flatMap_singleton]
        have hboundary : bc.OnBoundary (Instr.sizeAll before) := by
          refine ih ?_ hbefore rfl
          rw [hdrop, ← List.append_assoc]
          simpa using hvalues
        rw [← hsize]
        exact hboundary.next (hdrop ▸ List.prefix_append _ _) (hi i (by simp))

/-- Of two beginnings of the same numbers, the instructions of the shorter one come first in the
longer one. -/
theorem exists_append_of_sizeAll_lt {short long : List Instr} {rest rest' : List Nat}
    (h : List.flatMap Instr.encode short ++ rest = List.flatMap Instr.encode long ++ rest')
    (hlt : Instr.sizeAll short < Instr.sizeAll long) :
    ∃ i more, long = short ++ i :: more := by
  induction short generalizing long with
  | nil =>
      cases long with
      | nil => exact absurd hlt (Nat.lt_irrefl _)
      | cons i more => exact ⟨i, more, rfl⟩
  | cons j short ih =>
      cases long with
      | nil => exact absurd hlt (Nat.not_lt_zero _)
      | cons i long =>
          rw [List.flatMap_cons, List.flatMap_cons, List.append_assoc, List.append_assoc] at h
          obtain ⟨rfl, hrest⟩ := Instr.encode_append_inj h
          obtain ⟨i', more, rfl⟩ := ih hrest (Nat.lt_of_add_lt_add_left hlt)
          exact ⟨i', more, rfl⟩

/-- Before a boundary there is an instruction in order at every boundary, so that at most the last
boundary has a fault. -/
theorem OnBoundary.exists_encode_of_lt {bc : Bytecode} {address earlier : Nat}
    (h : bc.OnBoundary address) (hearlier : bc.OnBoundary earlier) (hlt : earlier < address) :
    ∃ i : Instr, i.encode <+: bc.values.drop earlier ∧ i.InRange bc.size := by
  obtain ⟨long, hlong, hrange, rfl⟩ := onBoundary_iff.mp h
  obtain ⟨short, hshort, -, rfl⟩ := onBoundary_iff.mp hearlier
  obtain ⟨i, more, rfl⟩ := exists_append_of_sizeAll_lt (hshort.symm.trans hlong) hlt
  have hsame := hshort.symm.trans hlong
  rw [List.flatMap_append, List.append_assoc] at hsame
  refine ⟨i, ?_, hrange i (by simp)⟩
  rw [List.append_cancel_left hsame, List.flatMap_cons, List.append_assoc]
  exact List.prefix_append _ _

/-- Decoding fails exactly where a fault stands at a boundary. -/
theorem decode_eq_error_iff {bc : Bytecode} {e : DecodeError} :
    bc.decode = .error e ↔
      ∃ address, bc.OnBoundary address ∧ Fault bc.size address (bc.values.drop address) e := by
  rw [decode, decodeFrom_eq_error_iff]
  simp only [onBoundary_iff, Nat.zero_add]
  constructor
  · rintro ⟨before, rest, hvalues, hbefore, hfault⟩
    have hdrop : bc.values.drop (Instr.sizeAll before) = rest := by
      rw [hvalues, ← Instr.length_flatMap_encode, List.drop_left]
    exact ⟨_, ⟨before, hdrop ▸ hvalues, hbefore, rfl⟩, hdrop ▸ hfault⟩
  · rintro ⟨_, ⟨before, hvalues, hbefore, rfl⟩, hfault⟩
    exact ⟨before, _, hvalues, hbefore, hfault⟩

/-- A number that is no operation is reported exactly if it stands at a boundary. -/
theorem decode_eq_unknownOpcode_iff {bc : Bytecode} {address value : Nat} :
    bc.decode = .error (.unknownOpcode address value) ↔
      bc.OnBoundary address ∧ bc.values[address]? = some value ∧ 17 ≤ value := by
  rw [decode_eq_error_iff]
  constructor
  · rintro ⟨address', hboundary, hfault⟩
    generalize hdrop : bc.values.drop address' = rest at hfault
    cases hfault with
    | unknownOpcode later hvalue =>
        exact ⟨hboundary, by rw [← List.head?_drop, hdrop, List.head?_cons], hvalue⟩
  · rintro ⟨hboundary, hget, hvalue⟩
    refine ⟨address, hboundary, ?_⟩
    rw [← List.head?_drop] at hget
    obtain ⟨later, hdrop⟩ := List.head?_eq_some_iff.mp hget
    exact hdrop ▸ .unknownOpcode later hvalue

/-- That a target is missing is reported exactly if a jump at a boundary is the last number. -/
theorem decode_eq_missingTarget_iff {bc : Bytecode} {address : Nat} {op : Opcode} :
    bc.decode = .error (.missingTarget address op) ↔
      bc.OnBoundary address ∧ bc.values[address]? = some op.code ∧ op.hasTarget = true ∧
        address + 1 = bc.size := by
  rw [decode_eq_error_iff]
  constructor
  · rintro ⟨address', hboundary, hfault⟩
    generalize hdrop : bc.values.drop address' = rest at hfault
    cases hfault with
    | missingTarget hjump =>
        have hlength := congrArg List.length hdrop
        rw [List.length_drop, List.length_singleton] at hlength
        exact ⟨hboundary, by rw [← List.head?_drop, hdrop, List.head?_cons], hjump,
          by rw [size]; omega⟩
  · rintro ⟨hboundary, hget, hjump, hsize⟩
    refine ⟨address, hboundary, ?_⟩
    rw [← List.head?_drop] at hget
    obtain ⟨later, hdrop⟩ := List.head?_eq_some_iff.mp hget
    have hlater : later = [] := by
      have hlength := congrArg List.length hdrop
      rw [List.length_drop, List.length_cons, ← size, ← hsize] at hlength
      exact List.eq_nil_of_length_eq_zero (by omega)
    rw [hdrop, hlater]
    exact .missingTarget hjump

/-- That a target is out of range is reported exactly if it follows a jump at a boundary. -/
theorem decode_eq_targetOutOfRange_iff {bc : Bytecode} {address target length : Nat} :
    bc.decode = .error (.targetOutOfRange address target length) ↔
      bc.OnBoundary address ∧
        (∃ op : Opcode, bc.values[address]? = some op.code ∧ op.hasTarget = true) ∧
        bc.values[address + 1]? = some target ∧ bc.size ≤ target ∧ length = bc.size := by
  rw [decode_eq_error_iff]
  constructor
  · rintro ⟨address', hboundary, hfault⟩
    generalize hdrop : bc.values.drop address' = rest at hfault
    cases hfault with
    | @targetOutOfRange op _ later hjump htarget =>
        refine ⟨hboundary, ⟨op, ?_, hjump⟩, ?_, htarget, rfl⟩
        · rw [← List.head?_drop, hdrop, List.head?_cons]
        · rw [← List.getElem?_drop, hdrop]
          rfl
  · rintro ⟨hboundary, ⟨op, hget, hjump⟩, hget', htarget, rfl⟩
    refine ⟨address, hboundary, ?_⟩
    rw [← List.head?_drop] at hget
    obtain ⟨more, hdrop⟩ := List.head?_eq_some_iff.mp hget
    rw [← List.getElem?_drop, hdrop, List.getElem?_cons_succ,
      ← List.head?_eq_getElem?] at hget'
    obtain ⟨later, rfl⟩ := List.head?_eq_some_iff.mp hget'
    exact hdrop ▸ .targetOutOfRange later hjump htarget

/-! ### Codes and their instructions -/

/-- The instructions with their addresses are those of the code: their numbers are the numbers of
the code, their targets are in range, and each starts where those before it end. -/
structure Splits (bc : Bytecode) (placed : List Placed) : Prop where
  values : placed.flatMap (fun p => p.instr.encode) = bc.values
  inRange : ∀ p ∈ placed, p.instr.InRange bc.size
  address : ∀ before p after, placed = before ++ p :: after →
    p.address = Instr.sizeAll (before.map Placed.instr)

/-- Instructions are placed one after another from `start` on exactly if each starts where those
before it end. -/
theorem eq_place_iff {start : Nat} {placed : List Placed} :
    placed = Instr.place start (placed.map Placed.instr) ↔
      ∀ before p after, placed = before ++ p :: after →
        p.address = start + Instr.sizeAll (before.map Placed.instr) := by
  induction placed generalizing start with
  | nil => simp [Instr.place]
  | cons q placed ih =>
      rw [List.map_cons, Instr.place, List.cons.injEq, ih]
      constructor
      · rintro ⟨hq, hplaced⟩ before p after heq
        cases before with
        | nil =>
            obtain ⟨rfl, -⟩ := List.cons.inj heq
            rw [hq]
            rfl
        | cons q' before =>
            obtain ⟨rfl, hrest⟩ := List.cons.inj heq
            rw [hplaced before p after hrest, List.map_cons, Instr.sizeAll, Nat.add_assoc]
      · intro h
        refine ⟨?_, fun before p after heq => ?_⟩
        · have hq : q.address = start := h [] q placed rfl
          rw [← hq]
        · rw [h (q :: before) p after (by rw [heq, List.cons_append]), List.map_cons,
            Instr.sizeAll, Nat.add_assoc]

/-- Decoding succeeds exactly with the instructions of the code. -/
theorem decode_eq_ok_iff {bc : Bytecode} {placed : List Placed} :
    bc.decode = .ok placed ↔ bc.Splits placed := by
  rw [decode, decodeFrom_eq_ok_iff]
  constructor
  · rintro ⟨code, hvalues, hrange, rfl⟩
    have hinstrs := Instr.map_instr_place 0 code
    refine ⟨?_, fun p hp => hrange _ (Instr.mem_of_mem_place hp), ?_⟩
    · rw [← List.flatMap_map, hinstrs, hvalues]
    · have hplace := eq_place_iff.mp (congrArg (Instr.place 0) hinstrs.symm)
      simpa only [Nat.zero_add] using hplace
  · rintro ⟨hvalues, hrange, haddress⟩
    refine ⟨placed.map Placed.instr, ?_, ?_, eq_place_iff.mpr (by simpa using haddress)⟩
    · rw [List.flatMap_map, hvalues]
    · simpa using hrange

/-- **What becomes of a list of numbers.** Decoding succeeds exactly if the numbers are those of
instructions one after another, the targets of which are in range. It then gives these instructions,
which no others have the numbers of, each with the size of those before it as its address. Otherwise
it reports the first boundary of instructions at which none in order starts: that no operation has
the number there, that a jump there is the last number, or that the target of a jump there is out of
range. -/
theorem decode_classification (bc : Bytecode) :
    ((∃ placed, bc.decode = .ok placed) ↔
      ∃ code, bc.values = List.flatMap Instr.encode code ∧ ∀ i ∈ code, i.InRange bc.size) ∧
    (∀ placed, bc.decode = .ok placed ↔ bc.Splits placed) ∧
    (∀ placed, bc.decode = .ok placed →
      ∀ code, bc.values = List.flatMap Instr.encode code ↔ code = placed.map Placed.instr) ∧
    (∀ address value, bc.decode = .error (.unknownOpcode address value) ↔
      bc.OnBoundary address ∧ bc.values[address]? = some value ∧ 17 ≤ value) ∧
    (∀ address op, bc.decode = .error (.missingTarget address op) ↔
      bc.OnBoundary address ∧ bc.values[address]? = some op.code ∧ op.hasTarget = true ∧
        address + 1 = bc.size) ∧
    (∀ address target length, bc.decode = .error (.targetOutOfRange address target length) ↔
      bc.OnBoundary address ∧
        (∃ op : Opcode, bc.values[address]? = some op.code ∧ op.hasTarget = true) ∧
        bc.values[address + 1]? = some target ∧ bc.size ≤ target ∧ length = bc.size) ∧
    ∀ address earlier, bc.OnBoundary address → bc.OnBoundary earlier → earlier < address →
      ∃ i : Instr, i.encode <+: bc.values.drop earlier ∧ i.InRange bc.size := by
  refine ⟨?_, fun _ => decode_eq_ok_iff, fun placed h code => ?_,
    fun _ _ => decode_eq_unknownOpcode_iff, fun _ _ => decode_eq_missingTarget_iff,
    fun _ _ _ => decode_eq_targetOutOfRange_iff,
    fun _ _ hboundary hearlier => hboundary.exists_encode_of_lt hearlier⟩
  · constructor
    · rintro ⟨placed, h⟩
      obtain ⟨code, hvalues, hrange, -⟩ := decodeFrom_eq_ok_iff.mp h
      exact ⟨code, hvalues, hrange⟩
    · rintro ⟨code, hvalues, hrange⟩
      exact ⟨_, decodeFrom_eq_ok_iff.mpr ⟨code, hvalues, hrange, rfl⟩⟩
  · have hvalues := (decode_eq_ok_iff.mp h).values
    rw [← List.flatMap_map] at hvalues
    rw [← hvalues, Instr.flatMap_encode_injective.eq_iff, eq_comm]

/-- A loop is decoded as its four instructions, and as nothing else. In other numbers, a jump to the
address just after the last number is out of range; the number there would be an operation if it
stood at a boundary. -/
theorem decode_classification_loop :
    (∃ placed, decode ⟨[16, 5, 0, 6, 0, 5]⟩ = .ok placed ∧
      placed.map Placed.instr = [.jumpUnless .always 5, .act .move, .jump 0, .halt]) ∧
    decode ⟨[6, 0, 16, 4]⟩ = .error (.targetOutOfRange 2 4 4) := by
  obtain ⟨hok, -, hunique, -⟩ := decode_classification ⟨[16, 5, 0, 6, 0, 5]⟩
  have hvalues : [16, 5, 0, 6, 0, 5] = List.flatMap Instr.encode
      [.jumpUnless .always 5, .act .move, .jump 0, .halt] := rfl
  obtain ⟨placed, hplaced⟩ := hok.mpr ⟨_, hvalues, by simp [Instr.InRange, Instr.target?, size]⟩
  refine ⟨⟨placed, hplaced, ((hunique placed hplaced _).mp hvalues).symm⟩, ?_⟩
  obtain ⟨-, -, -, -, -, hrange, -⟩ := decode_classification ⟨[6, 0, 16, 4]⟩
  have hboundary : OnBoundary ⟨[6, 0, 16, 4]⟩ 2 :=
    OnBoundary.start.next (i := .jump 0) (by decide) (by simp [Instr.InRange, Instr.target?, size])
  exact (hrange 2 4 4).mpr ⟨hboundary, ⟨.jumpUnless .always, rfl, rfl⟩, rfl, by decide, rfl⟩

end Bytecode

end RobotScript
