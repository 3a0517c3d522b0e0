import Mathlib.Tactic
import RobotScript.Bytecode.Listing
import RobotScript.Proofs.ActionOrder
import RobotScript.Proofs.Decoding
import RobotScript.Proofs.DelimitedText

/-!
# Listings lose nothing

A listing has a line for each instruction, and besides these a head of three lines and a rule above
each instruction that some jump goes to. Whether an instruction is marked depends on the whole code,
so the lines of two codes cannot be compared one instruction at a time before the rules have been
taken out. What is left is read from left to right: the address ends before the first blank, the
mark has a fixed width, the mnemonic has no blank inside, and the target ends before the next blank.

In generated code every jump goes to the start of an instruction. So there is a marked line for each
target, where a code in general may have targets without one.

## Main definitions

* `Placed.line` — the line of an instruction, without its end.
* `Bytecode.markedLines` — the lines of a text that carry the mark.
* `Bytecode.targets` — the addresses that the jumps of a code go to.

## Main results

* `Opcode.letters_injective`: no two operations have the same mnemonic.
* `Placed.line_inj`: **an instruction, its address and its mark are determined by its line**.
* `Bytecode.listingOf_inj`: instructions are determined by their listing.
* `Bytecode.markedLines_listingOf`: the marked lines are those of the instructions that are targets.
* `Bytecode.listing_faithful`: **a listing determines its code, and in the listing of generated code
  each target has its marked line**.
-/

namespace RobotScript

open Text

/-! ### Mnemonics -/

namespace Opcode

/-- The characters of the operation's name in a code listing. -/
def letters : Opcode → List Char
  | act action => action.name.toList.map capital
  | halt => ['H', 'A', 'L', 'T']
  | jump => ['J', 'U', 'M', 'P']
  | jumpUnless c => "JUMP_IF_NOT_".toList ++ c.spelling.toList.map capital

theorem mnemonic_toList (op : Opcode) : op.mnemonic.toList = op.letters := by
  have hcapitals : ∀ word, (capitals word).toList = word.toList.map capital := fun _ =>
    String.toList_map
  cases op with
  | act action => exact hcapitals action.name
  | halt => rfl
  | jump => rfl
  | jumpUnless c => exact String.toList_append.trans (congrArg _ (hcapitals c.spelling))

theorem mem_all (op : Opcode) : op ∈ all :=
  List.mem_of_getElem? op.ofCode?_code

/-- No two operations have the same mnemonic. -/
theorem letters_injective : Function.Injective letters := by
  intro op op' h
  have hnodup : (all.map letters).Nodup := by decide +kernel
  exact List.inj_on_of_nodup_map hnodup op.mem_all op'.mem_all h

/-- The character is a capital letter or an underscore. -/
def isLetter (c : Char) : Bool :=
  c.isUpper || c == '_'

/-- A mnemonic is made of capital letters and underscores. -/
theorem isLetter_of_mem_letters {op : Opcode} {c : Char} (hc : c ∈ op.letters) :
    isLetter c = true := by
  have hall : all.all (fun op => op.letters.all isLetter) = true := by decide +kernel
  exact List.all_eq_true.mp (List.all_eq_true.mp hall op op.mem_all) c hc

end Opcode

/-! ### The line of an instruction -/

namespace Placed

/-- What stands between the address and the mnemonic. -/
def mark (isTarget : Bool) : List Char :=
  [' ', if isTarget then '►' else ' ', ' ']

/-- What stands after the mnemonic of an instruction: for a jump blanks up to the column for the
target, the target and the direction. -/
def operand (p : Placed) : List Char :=
  match p.instr.target? with
  | some target =>
    List.replicate (32 - p.instr.opcode.letters.length) ' ' ++
      ' ' :: ((padded 4 target).toList ++ [' ', if target ≤ p.address then '↑' else '↓'])
  | none => []

/-- The line of an instruction without its end. -/
def line (p : Placed) (isTarget : Bool) : List Char :=
  (padded 4 p.address).toList ++ (mark isTarget ++ (p.instr.opcode.letters ++ p.operand))

/-- The rule above an instruction that is a target, without its line end. -/
def ruleLine : List Char :=
  List.replicate 6 ' ' ++ '┌' :: List.replicate 34 '─'

theorem lines_toList (p : Placed) (isTarget : Bool) :
    (p.lines isTarget).toList =
      ended ((if isTarget then [ruleLine] else []) ++ [p.line isTarget]) := by
  have hrule : (if isTarget then targetRule else "").toList =
      ended (if isTarget then [ruleLine] else []) := by
    cases isTarget with
    | false => rfl
    | true => decide +kernel
  have hmark : (if isTarget then " ► " else "   ").toList = mark isTarget := by
    cases isTarget <;> rfl
  have hspace : " ".toList = [' '] := rfl
  have hend : "\n".toList = ['\n'] := rfl
  have harrow : ∀ target, (if target ≤ p.address then " ↑\n" else " ↓\n").toList =
      [' ', if target ≤ p.address then '↑' else '↓', '\n'] := by
    intro target
    split <;> rfl
  have hlines (lines more : List (List Char)) :
      ended (lines ++ more) = ended lines ++ ended more := by
    simp [ended]
  have hline : ended [p.line isTarget] = p.line isTarget ++ ['\n'] := by simp [ended]
  rw [lines, hlines, hline, line, operand]
  cases p.instr.target? with
  | none =>
      simp only [String.toList_append, hrule, hmark, hend, Opcode.mnemonic_toList,
        List.append_assoc, List.append_nil]
  | some target =>
      simp only [String.toList_append, hrule, hmark, hspace, harrow, padRight, String.toList_ofList,
        List.rightpad, Opcode.mnemonic_toList, List.append_assoc, List.cons_append, List.nil_append]

/-- After the mnemonic comes a blank or the end of the line. -/
theorem head?_operand (p : Placed) : ∀ c ∈ p.operand.head?, c = ' ' := by
  intro c hc
  unfold operand at hc
  split at hc
  · cases hlength : 32 - p.instr.opcode.letters.length with
    | zero =>
        rw [hlength] at hc
        exact (Option.some.inj hc).symm
    | succ n =>
        rw [hlength] at hc
        exact (Option.some.inj hc).symm
  · cases hc

/-- The mnemonic and what follows it determine the instruction. -/
theorem instr_eq_of_letters {p p' : Placed}
    (h : p.instr.opcode.letters ++ p.operand = p'.instr.opcode.letters ++ p'.operand) :
    p.instr = p'.instr := by
  have hblank : Opcode.isLetter ' ' = false := rfl
  obtain ⟨hletters, hoperand⟩ := append_inj_of_stop (fun _ => Opcode.isLetter_of_mem_letters)
    (fun _ => Opcode.isLetter_of_mem_letters) (fun c hc => p.head?_operand c hc ▸ hblank)
    (fun c hc => p'.head?_operand c hc ▸ hblank) h
  have hop := Opcode.letters_injective hletters
  refine Instr.eq_of_opcode_of_target? hop ?_
  -- the same operation has a target in both or in neither
  have hsome : p.instr.target?.isSome = p'.instr.target?.isSome := by
    rw [← Instr.hasTarget_opcode, ← Instr.hasTarget_opcode, hop]
  cases htarget : p.instr.target? with
  | none =>
      rw [htarget] at hsome
      exact (Option.isNone_iff_eq_none.mp (by simpa using hsome.symm)).symm
  | some target =>
      rw [htarget] at hsome
      obtain ⟨target', htarget'⟩ := Option.isSome_iff_exists.mp hsome.symm
      rw [operand, operand, htarget, htarget', hletters] at hoperand
      obtain ⟨rfl, -⟩ := padded_append_inj (List.cons.inj (List.append_cancel_left hoperand)).2
        (by simp) (by simp)
      exact htarget'.symm

/-- **An instruction, its address and its mark are determined by its line.** -/
theorem line_inj {p p' : Placed} {isTarget isTarget' : Bool}
    (h : p.line isTarget = p'.line isTarget') : p = p' ∧ isTarget = isTarget' := by
  obtain ⟨haddress, hrest⟩ := padded_append_inj h (by simp [mark]) (by simp [mark])
  obtain ⟨hmark, hinstr⟩ := List.append_inj hrest rfl
  have htarget : isTarget = isTarget' := by
    cases isTarget <;> cases isTarget' <;> simp_all [mark]
  have hinstr' := instr_eq_of_letters hinstr
  obtain ⟨address, instr⟩ := p
  obtain ⟨address', instr'⟩ := p'
  exact ⟨congrArg₂ Placed.mk haddress hinstr', htarget⟩

/-- What stands in the line of an instruction besides its mark. -/
theorem of_mem_line {p : Placed} {isTarget : Bool} {c : Char} (hc : c ∈ p.line isTarget) :
    c.isDigit = true ∨ c ∈ mark isTarget ∨ Opcode.isLetter c = true ∨ c ∈ [' ', '↑', '↓'] := by
  rw [line, List.mem_append, List.mem_append, List.mem_append] at hc
  rcases hc with hc | hc | hc | hc
  · exact .inl (isDigit_of_mem_padded hc)
  · exact .inr (.inl hc)
  · exact .inr (.inr (.inl (Opcode.isLetter_of_mem_letters hc)))
  · unfold operand at hc
    split at hc
    · rename_i target _
      simp only [List.mem_append, List.mem_replicate, List.mem_cons, List.not_mem_nil,
        or_false] at hc
      rcases hc with ⟨-, rfl⟩ | rfl | hc | rfl | hc
      · simp
      · simp
      · exact .inl (isDigit_of_mem_padded hc)
      · simp
      · split at hc <;> simp [hc]
    · cases hc

/-- The line of an instruction has no line end inside. -/
theorem lineEnd_not_mem_line (p : Placed) (isTarget : Bool) : '\n' ∉ p.line isTarget := by
  intro hc
  rcases of_mem_line hc with h | h | h | h
  · cases h
  · cases isTarget <;> simp [mark] at h
  · cases h
  · simp at h

/-- The line of an instruction carries the mark exactly if the instruction is a target. -/
theorem mark_mem_line_iff {p : Placed} {isTarget : Bool} :
    '►' ∈ p.line isTarget ↔ isTarget = true := by
  constructor
  · intro hc
    rcases of_mem_line hc with h | h | h | h
    · cases h
    · cases isTarget with
      | false => simp [mark] at h
      | true => rfl
    · cases h
    · simp at h
  · rintro rfl
    simp [line, mark]

/-- A rule is not the line of an instruction. -/
theorem line_ne_ruleLine (p : Placed) (isTarget : Bool) : p.line isTarget ≠ ruleLine := by
  intro hline
  have hc : '┌' ∈ p.line isTarget := by simp [hline, ruleLine]
  rcases of_mem_line hc with h | h | h | h
  · cases h
  · cases isTarget <;> simp [mark] at h
  · cases h
  · simp at h

end Placed

/-! ### The lines of a listing -/

namespace Bytecode

/-- The addresses that the jumps of the code go to, in the order of the jumps. -/
def targets (code : List Placed) : List Nat :=
  code.filterMap fun p => p.instr.target?

/-- The rule above and below the head of a listing, without its line end. -/
def headRuleLine : List Char :=
  List.replicate 40 '═'

/-- The head of a listing, without its rules and its line end. -/
def headLine (size count : Nat) : List Char :=
  ' ' :: ((padded 0 size).toList ++ (" values, ".toList ++
    ((padded 0 count).toList ++ " instructions".toList)))

/-- The lines for instructions, of which `isTarget` says which are targets. -/
def instrLines (isTarget : Nat → Bool) (code : List Placed) : List (List Char) :=
  code.flatMap fun p =>
    (if isTarget p.address then [Placed.ruleLine] else []) ++ [p.line (isTarget p.address)]

/-- The lines of a text that carry the mark of a target. -/
def markedLines (text : String) : List (List Char) :=
  (text.toList.splitOn '\n').filter fun line => '►' ∈ line

theorem listingOf_toList (size : Nat) (code : List Placed) :
    (listingOf size code).toList =
      ended ([headRuleLine, headLine size code.length, headRuleLine] ++
        instrLines (fun address => (targets code).contains address) code) := by
  have hrule : headRule.toList = headRuleLine ++ ['\n'] := by decide +kernel
  have hspace : " ".toList = [' '] := rfl
  have hend : " instructions\n".toList = " instructions".toList ++ ['\n'] := rfl
  have hinstr :
      (String.join (code.map fun p => p.lines ((targets code).contains p.address))).toList =
      ended (instrLines (fun address => (targets code).contains address) code) := by
    rw [String.toList_join, List.flatMap_map, instrLines, ended, List.flatMap_assoc]
    simp only [Placed.lines_toList, ended]
  have hlisting : listingOf size code = headRule ++ (" " ++ padded 0 size ++ " values, " ++
      padded 0 code.length ++ " instructions\n") ++ headRule ++
      String.join (code.map fun p => p.lines ((targets code).contains p.address)) := by
    rw [padded_zero, padded_zero]
    rfl
  rw [hlisting]
  simp only [String.toList_append, hrule, hspace, hend, hinstr]
  simp only [ended, headLine, List.flatMap_cons, List.append_assoc, List.cons_append,
    List.nil_append]

/-- No line of a listing has a line end inside. -/
theorem lineEnd_not_mem_lines {size count : Nat} {isTarget : Nat → Bool} {code : List Placed} :
    ∀ line ∈ [headRuleLine, headLine size count, headRuleLine] ++ instrLines isTarget code,
      '\n' ∉ line := by
  have hpadded : ∀ n, '\n' ∉ (padded 0 n).toList := fun n hn =>
    absurd (isDigit_of_mem_padded hn) (by decide)
  intro line hline
  rcases List.mem_append.mp hline with hline | hline
  · have hhead : '\n' ∉ headLine size count := by simp [headLine, hpadded]
    have hrule : '\n' ∉ headRuleLine := by simp [headRuleLine]
    simp only [List.mem_cons, List.not_mem_nil, or_false] at hline
    rcases hline with rfl | rfl | rfl
    · exact hrule
    · exact hhead
    · exact hrule
  · obtain ⟨p, -, hline⟩ := List.mem_flatMap.mp hline
    rcases List.mem_append.mp hline with hline | hline
    · split at hline
      · rw [List.mem_singleton.mp hline]
        simp [Placed.ruleLine]
      · cases hline
    · rw [List.mem_singleton.mp hline]
      exact p.lineEnd_not_mem_line _

/-- Without the rules, there is a line for each instruction. -/
theorem filter_instrLines (isTarget : Nat → Bool) (code : List Placed) :
    (instrLines isTarget code).filter (fun line => line ≠ Placed.ruleLine) =
      code.map fun p => p.line (isTarget p.address) := by
  induction code with
  | nil => rfl
  | cons p code ih =>
      have hline := p.line_ne_ruleLine (isTarget p.address)
      rw [instrLines, List.flatMap_cons, List.filter_append, ← instrLines, ih, List.map_cons]
      split <;> simp [hline]

/-- Lines for instructions determine the instructions, whichever of them are marked. -/
theorem instrLines_inj {isTarget isTarget' : Nat → Bool} {code code' : List Placed}
    (h : instrLines isTarget code = instrLines isTarget' code') : code = code' := by
  have hlines := congrArg (List.filter fun line => line ≠ Placed.ruleLine) h
  rw [filter_instrLines, filter_instrLines] at hlines
  clear h
  induction code generalizing code' with
  | nil => simpa using hlines
  | cons p code ih =>
      cases code' with
      | nil => cases hlines
      | cons p' code' =>
          obtain ⟨hline, hrest⟩ := List.cons.inj hlines
          rw [(Placed.line_inj hline).1, ih hrest]

/-- **Instructions are determined by their listing.** -/
theorem listingOf_inj {size size' : Nat} {code code' : List Placed}
    (h : listingOf size code = listingOf size' code') : code = code' := by
  have hlist := congrArg String.toList h
  rw [listingOf_toList, listingOf_toList] at hlist
  have hlines := ended_inj lineEnd_not_mem_lines lineEnd_not_mem_lines hlist
  exact instrLines_inj (List.append_inj hlines (by simp)).2

/-- **The marked lines of a listing are those of the instructions that are targets.** -/
theorem markedLines_listingOf (size : Nat) (code : List Placed) :
    markedLines (listingOf size code) =
      (code.filter fun p => (targets code).contains p.address).map fun p => p.line true := by
  have hhead : '►' ∉ headLine size code.length := by
    have hpadded : ∀ n, '►' ∉ (padded 0 n).toList := fun n hn =>
      absurd (isDigit_of_mem_padded hn) (by decide)
    simp [headLine, hpadded]
  have hheadRule : '►' ∉ headRuleLine := by simp [headRuleLine]
  have hrule : '►' ∉ Placed.ruleLine := by simp [Placed.ruleLine]
  have hlines : ∀ (isTarget : Nat → Bool) (code : List Placed),
      (instrLines isTarget code).filter (fun line => '►' ∈ line) =
        (code.filter fun p => isTarget p.address).map fun p => p.line true := by
    intro isTarget code
    induction code with
    | nil => rfl
    | cons p code ih =>
        rw [instrLines, List.flatMap_cons, List.filter_append, ← instrLines, ih]
        cases htarget : isTarget p.address with
        | false => simp [htarget, Placed.mark_mem_line_iff]
        | true => simp [htarget, hrule, Placed.mark_mem_line_iff]
  rw [markedLines, listingOf_toList, splitOn_ended lineEnd_not_mem_lines, List.filter_append,
    List.filter_append, hlines]
  simp [hhead, hheadRule]

/-- Code has a listing exactly if it can be decoded. -/
theorem listing_eq_ok_iff {bc : Bytecode} {text : String} :
    bc.listing = .ok text ↔ ∃ code, bc.decode = .ok code ∧ text = listingOf bc.size code := by
  rw [listing]
  cases bc.decode with
  | error e => simp [bind, Except.bind]
  | ok code => simp [bind, Except.bind, pure, Except.pure, eq_comm]

/-- Code is determined by its listing. -/
theorem listing_inj {bc bc' : Bytecode} {text : String} (h : bc.listing = .ok text)
    (h' : bc'.listing = .ok text) : bc = bc' := by
  obtain ⟨code, hcode, rfl⟩ := listing_eq_ok_iff.mp h
  obtain ⟨code', hcode', htext⟩ := listing_eq_ok_iff.mp h'
  obtain rfl := listingOf_inj htext
  have hvalues : bc.values = bc'.values :=
    (decode_eq_ok_iff.mp hcode).values.symm.trans (decode_eq_ok_iff.mp hcode').values
  exact congrArg Bytecode.mk hvalues

end Bytecode

/-! ### Generated code -/

/-- Every target of generated code is the start of an instruction. -/
theorem Statement.startsAt_target (s : Statement) {target : Nat}
    (h : target ∈ Bytecode.targets (Instr.place 0 (s.layout 0 ++ [.halt]))) :
    StartsAt (Instr.place 0 (s.layout 0 ++ [.halt])) target := by
  obtain ⟨p, hp, htarget⟩ := List.mem_filterMap.mp h
  rcases List.mem_append.mp (Instr.mem_of_mem_place hp) with hp | hp
  · exact (s.isBoundary_target htarget 0 hp).startsAt_place .halt
  · rw [List.mem_singleton.mp hp] at htarget
    cases htarget

namespace Bytecode

/-- **A listing determines its code, and in the listing of generated code each target has its marked
line.** Two codes with the same listing are the same. In the listing of generated code there are as
many marked lines as there are different targets of jumps; they are the lines of the instructions
that start at the targets, in the order of the code. -/
theorem listing_faithful :
    (∀ (bc bc' : Bytecode) (text : String),
      bc.listing = .ok text → bc'.listing = .ok text → bc = bc') ∧
    ∀ (defs : Definitions) (body : Statement) (bc : Bytecode),
      (body.compile defs).outcome = .ok bc →
      ∃ (code : List Placed) (text : String) (marked : List Placed),
        bc.decode = .ok code ∧ bc.listing = .ok text ∧
        (markedLines text).length = (targets code).toFinset.card ∧
        markedLines text = marked.map (fun p => p.line true) ∧ marked.Sublist code ∧
        ∀ target, target ∈ marked.map Placed.address ↔ target ∈ targets code := by
  refine ⟨fun bc bc' text h h' => listing_inj h h', fun defs body bc h => ?_⟩
  obtain ⟨instrs, hinstrs, rfl⟩ := Statement.compile_eq_ok_iff.mp h
  obtain ⟨t, -, rfl⟩ := Statement.exists_expands_of_emit hinstrs
  have hdecode := t.decode_layout
  have hstarts := fun target => @t.startsAt_target target
  have hordered := Instr.pairwise_place 0 (t.layout 0 ++ [.halt])
  generalize Instr.place 0 (t.layout 0 ++ [.halt]) = code at hdecode hstarts hordered
  have hmarked := markedLines_listingOf (ofInstrs (t.layout 0 ++ [.halt])).size code
  generalize hmem : (code.filter fun p => (targets code).contains p.address) = marked at hmarked
  have haddress : ∀ target, target ∈ marked.map Placed.address ↔ target ∈ targets code := by
    intro target
    subst hmem
    rw [List.mem_map]
    constructor
    · rintro ⟨p, hp, rfl⟩
      simpa using (List.mem_filter.mp hp).2
    · intro htarget
      obtain ⟨p, hp, rfl⟩ := hstarts target htarget
      exact ⟨p, List.mem_filter.mpr ⟨hp, by simpa using htarget⟩, rfl⟩
  have hsublist : marked.Sublist code := hmem ▸ List.filter_sublist
  refine ⟨code, _, marked, hdecode, listing_eq_ok_iff.mpr ⟨code, hdecode, rfl⟩, ?_, hmarked,
    hsublist, haddress⟩
  -- the addresses of the marked instructions are the targets without repetitions
  have hnodup : (marked.map Placed.address).Nodup :=
    List.pairwise_map.mpr ((hordered.sublist hsublist).imp fun hlt => Nat.ne_of_lt hlt)
  have htargets : (marked.map Placed.address).toFinset = (targets code).toFinset := by
    ext target
    rw [List.mem_toFinset, List.mem_toFinset, haddress]
  rw [hmarked, List.length_map, ← htargets, List.toFinset_card_of_nodup hnodup, List.length_map]

/-- A loop around two branches, one inside the other, of which the inner one comes in for a call. -/
def beacon : Statement :=
  .whileDo .always (.ifThen (.ahead .wall false) (.call "strike"))

/-- What the loop calls. -/
def beaconDefinitions : Definitions :=
  .ofList [("strike", .ifThen (.ahead .enemy false) (.call "infect"))]

/-- The two branches go to the same address, so four jumps have three targets, and three lines are
marked. No other code has this listing. -/
theorem listing_faithful_beacon :
    (beacon.compile beaconDefinitions).outcome = .ok ⟨[16, 9, 13, 7, 9, 7, 3, 6, 0, 5]⟩ ∧
    ∃ text, listing ⟨[16, 9, 13, 7, 9, 7, 3, 6, 0, 5]⟩ = .ok text ∧
      (markedLines text).length = 3 ∧
      ∀ bc : Bytecode, bc.listing = .ok text → bc = ⟨[16, 9, 13, 7, 9, 7, 3, 6, 0, 5]⟩ := by
  have hcompile : (beacon.compile beaconDefinitions).outcome =
      .ok ⟨[16, 9, 13, 7, 9, 7, 3, 6, 0, 5]⟩ := by cbv
  have hdecode : decode ⟨[16, 9, 13, 7, 9, 7, 3, 6, 0, 5]⟩ =
      .ok [⟨0, .jumpUnless .always 9⟩, ⟨2, .jumpUnless (.ahead .wall false) 7⟩,
        ⟨4, .jumpUnless (.ahead .enemy false) 7⟩, ⟨6, .act .infect⟩, ⟨7, .jump 0⟩,
        ⟨9, .halt⟩] := rfl
  obtain ⟨code, text, -, hcode, htext, hlength, -⟩ := listing_faithful.2 _ _ _ hcompile
  obtain rfl := Except.ok.inj (hcode.symm.trans hdecode)
  exact ⟨hcompile, text, htext, hlength, fun bc hbc => listing_faithful.1 _ _ _ hbc htext⟩

end Bytecode

end RobotScript
