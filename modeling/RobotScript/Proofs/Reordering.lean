import RobotScript.Compile
import RobotScript.Proofs.Spacing
import RobotScript.Proofs.UnusedInstructions
import RobotScript.Proofs.WordClasses

/-!
# The order of definitions

The instructions of a program are collected while it is read, and the name of each is compared with
those before it. So the reader sees them in an order, but the program has none. Here the text of a
program is cut into its heading, the texts of its instructions, and its main body, with the layout
between them. Every text that is read as a program can be cut in this way, and if the texts of its
instructions are put together in another order, the result is read as the same program.

## Main definitions

* `Gap` — some layout.
* `InstructionText` — the text of an instruction.
* `CutSource` — a source cut into its parts.

## Main results

* `spaced_append_iff`: the text of tokens can be cut between any two of them.
* `ProgramTree.Defines.perm_entries`: instructions are the entries of what they define, in some
  order.
* `ProgramTree.Denotes.of_perm`: a derivation denotes the same program with its instructions in
  another order.
* `CutSource.exists_of_parse`: **a text that is read can be cut**.
* `Program.parse_reordered`: **the order of the definitions does not matter**.
-/

namespace RobotScript

open ProgramTree (instructionTokens ValidInstructions Defines)
open StatementTree (blockTokens)

/-! ### Cutting texts -/

/-- Some layout between two tokens. -/
structure Gap where
  text : List Char
  layout : Layout text
  ne_nil : text ≠ []

/-- **The text of tokens can be cut between any two of them**, and put together again. -/
theorem spaced_append_iff {tokens more : List Token} (hne : tokens ≠ []) (hmore : more ≠ [])
    {text : List Char} :
    Spaced (tokens ++ more) text ↔
      ∃ (first : List Char) (gap : Gap) (rest : List Char), Spaced tokens first ∧
        Spaced more rest ∧ text = first ++ gap.text ++ rest := by
  obtain ⟨next, more, rfl⟩ := List.exists_cons_of_ne_nil hmore
  constructor
  · intro h
    induction tokens generalizing text with
    | nil => exact absurd rfl hne
    | cons token tokens ih =>
        cases tokens with
        | nil =>
            cases h with
            | cons hlexable hgap hgapNe hrest =>
                exact ⟨_, ⟨_, hgap, hgapNe⟩, _, .single hlexable, hrest, rfl⟩
        | cons token' tokens =>
            cases h with
            | cons hlexable hgap hgapNe hrest =>
                obtain ⟨first, gap, rest, hfirst, hmore, rfl⟩ := ih (by simp) hrest
                exact ⟨_, gap, rest, .cons hlexable hgap hgapNe hfirst, hmore, by simp⟩
  · rintro ⟨first, gap, rest, hfirst, hrest, rfl⟩
    induction hfirst with
    | nil => exact absurd rfl hne
    | single hlexable => exact .cons hlexable gap.layout gap.ne_nil hrest
    | cons hlexable hgap hgapNe _ ih =>
        have hall := Spaced.cons hlexable hgap hgapNe (ih (by simp))
        simpa using hall

/-- The text of an instruction, from its first word to its closing name. -/
structure InstructionText where
  instruction : String × List StatementTree
  text : List Char
  spaced : Spaced (instructionTokens instruction) text

/-- Texts of instructions one after another, each with some layout after it. -/
def InstructionText.join (texts : List (InstructionText × Gap)) : List Char :=
  texts.flatMap fun i => i.1.text ++ i.2.text

/-- An instruction has tokens. -/
theorem instructionTokens_ne_nil (instruction : String × List StatementTree) :
    instructionTokens instruction ≠ [] := by
  simp [instructionTokens]

/-- The text of instructions before other tokens consists of their texts. -/
theorem InstructionText.exists_of_spaced {instructions : List (String × List StatementTree)}
    {more : List Token} (hmore : more ≠ []) {text : List Char}
    (h : Spaced (instructions.flatMap instructionTokens ++ more) text) :
    ∃ (texts : List (InstructionText × Gap)) (rest : List Char),
      texts.map (fun i => i.1.instruction) = instructions ∧ Spaced more rest ∧
        text = join texts ++ rest := by
  induction instructions generalizing text with
  | nil => exact ⟨[], text, rfl, h, rfl⟩
  | cons instruction instructions ih =>
      rw [List.flatMap_cons, List.append_assoc,
        spaced_append_iff (instructionTokens_ne_nil instruction) (by simp [hmore])] at h
      obtain ⟨first, gap, rest, hfirst, hrest, rfl⟩ := h
      obtain ⟨texts, rest, rfl, hspaced, rfl⟩ := ih hrest
      exact ⟨(⟨instruction, first, hfirst⟩, gap) :: texts, rest, rfl, hspaced, by simp [join]⟩

/-- Texts of instructions before the text of other tokens. -/
theorem InstructionText.spaced_join (texts : List (InstructionText × Gap)) {more : List Token}
    (hmore : more ≠ []) {rest : List Char} (hrest : Spaced more rest) :
    Spaced ((texts.map fun i => i.1.instruction).flatMap instructionTokens ++ more)
      (join texts ++ rest) := by
  induction texts with
  | nil => exact hrest
  | cons i texts ih =>
      rw [List.map_cons, List.flatMap_cons, List.append_assoc,
        spaced_append_iff (instructionTokens_ne_nil _) (by simp [hmore])]
      exact ⟨_, i.2, _, i.1.spaced, ih, by simp [join]⟩

/-! ### Sources in parts -/

/-- A source cut into parts: the heading `PROGRAM n IS`, the instructions, and the main part from
`BEGIN` to the closing name, with the layout between and around them. -/
structure CutSource where
  name : String
  body : List StatementTree
  before : List Char
  before_layout : Layout before
  heading : List Char
  heading_spaced : Spaced [.keyword .programKw, .ident name, .keyword .isKw] heading
  gap : Gap
  instructions : List (InstructionText × Gap)
  main : List Char
  main_spaced : Spaced ([.keyword .beginKw] ++ blockTokens body ++ [.keyword .endKw, .ident name])
    main
  after : List Char
  after_trailing : Trailing after

namespace CutSource

/-- The text of the parts. -/
def source (cut : CutSource) : String :=
  String.ofList (cut.before ++ (cut.heading ++ cut.gap.text ++
    (InstructionText.join cut.instructions ++ cut.main)) ++ cut.after)

/-- The same parts with other instructions. -/
def withInstructions (cut : CutSource) (texts : List (InstructionText × Gap)) : CutSource :=
  { cut with instructions := texts }

/-- The derivation tree that the parts show. -/
def tree (cut : CutSource) : ProgramTree :=
  ⟨cut.name, cut.instructions.map fun i => i.1.instruction, cut.body⟩

/-- The tokens of a program are those of its parts. -/
theorem tokens_eq (d : ProgramTree) :
    d.tokens = [.keyword .programKw, .ident d.name, .keyword .isKw] ++
      (d.instructions.flatMap instructionTokens ++
        ([.keyword .beginKw] ++ blockTokens d.body ++ [.keyword .endKw, .ident d.name])) := by
  simp [ProgramTree.tokens]

/-- The text of the parts writes the tokens of the tree. -/
theorem writes (cut : CutSource) : Writes cut.tree.tokens cut.source.toList := by
  rw [source, String.toList_ofList]
  refine ⟨cut.before, _, cut.after, cut.before_layout, ?_, cut.after_trailing, rfl⟩
  rw [tokens_eq, spaced_append_iff (by simp) (by simp)]
  exact ⟨cut.heading, cut.gap, _, cut.heading_spaced,
    InstructionText.spaced_join cut.instructions (by simp) cut.main_spaced, rfl⟩

/-- A source that writes the tokens of a tree can be cut into the parts of the tree. -/
theorem exists_of_writes {d : ProgramTree} {source : String}
    (h : Writes d.tokens source.toList) :
    ∃ cut : CutSource, cut.source = source ∧ cut.tree = d := by
  obtain ⟨before, body, after, hbefore, hbody, hafter, hsource⟩ := h
  rw [tokens_eq, spaced_append_iff (by simp) (by simp)] at hbody
  obtain ⟨heading, gap, rest, hheading, hrest, rfl⟩ := hbody
  obtain ⟨texts, main, htexts, hmain, rfl⟩ := InstructionText.exists_of_spaced (by simp) hrest
  refine ⟨⟨d.name, d.body, before, hbefore, heading, hheading, gap, texts, main, hmain, after,
    hafter⟩, ?_, ?_⟩
  · rw [CutSource.source, ← hsource, String.ofList_toList]
  · rw [tree, htexts]

end CutSource

/-! ### The tokens of a program are words -/

/-- A character by itself is read as no condition, since each has more letters. -/
theorem Condition.ofWord?_singleton (c : Char) : ofWord? (String.singleton c) = none := by
  have hlonger : ∀ condition : Condition, (condition.spelling.toList.length != 1) = true :=
    of_all rfl
  rw [Option.eq_none_iff_forall_ne_some]
  intro condition h
  have hlength := (ofWord?_eq_some_iff_forall₂.mp h).length_eq
  rw [String.toList_singleton] at hlength
  exact bne_iff_ne.mp (hlonger condition) hlength

/-- A word without a meaning of its own stands for a condition, where it is a guard. -/
theorem Guard.isSome_of_token_eq_other {g : Guard} {text : String} (h : g.token = .other text) :
    (Condition.ofWord? text).isSome := by
  cases g with
  | exact c => cases h
  | ident word c spelled => cases h
  | other word c spelled =>
      obtain rfl := Token.other.inj h
      rw [spelled]
      rfl

/-- A word without a meaning of its own stands in a statement only for a condition. -/
theorem StatementTree.isSome_of_other_mem_tokens {t : StatementTree} {text : String}
    (h : Token.other text ∈ t.tokens) : (Condition.ofWord? text).isSome := by
  induction t using StatementTree.induction with
  | call name =>
      rw [tokens, List.mem_singleton] at h
      cases h
  | ifThen g body ih =>
      obtain hg | ⟨t, ht, hmem⟩ : Token.other text = g.token ∨
          ∃ t ∈ body, Token.other text ∈ t.tokens := by simpa [tokens] using h
      · exact Guard.isSome_of_token_eq_other hg.symm
      · exact ih t ht hmem
  | ifElse g thenBody elseBody ihThen ihElse =>
      obtain hg | ⟨t, ht, hmem⟩ | ⟨t, ht, hmem⟩ : Token.other text = g.token ∨
          (∃ t ∈ thenBody, Token.other text ∈ t.tokens) ∨
            ∃ t ∈ elseBody, Token.other text ∈ t.tokens := by simpa [tokens] using h
      · exact Guard.isSome_of_token_eq_other hg.symm
      · exact ihThen t ht hmem
      · exact ihElse t ht hmem
  | whileDo g body ih =>
      obtain hg | ⟨t, ht, hmem⟩ : Token.other text = g.token ∨
          ∃ t ∈ body, Token.other text ∈ t.tokens := by simpa [tokens] using h
      · exact Guard.isSome_of_token_eq_other hg.symm
      · exact ih t ht hmem

/-- There are no signs in a statement. -/
theorem StatementTree.noSigns_tokens (t : StatementTree) : NoSigns t.tokens := by
  intro c _ hmem
  have hsome := isSome_of_other_mem_tokens hmem
  rw [Condition.ofWord?_singleton] at hsome
  cases hsome

/-- There are no signs in a program. -/
theorem ProgramTree.noSigns_tokens (d : ProgramTree) : NoSigns d.tokens := by
  intro c hc hmem
  obtain ⟨name, body, -, t, -, hmem⟩ | ⟨t, -, hmem⟩ :
      (∃ name body, (name, body) ∈ d.instructions ∧
        ∃ t ∈ body, Token.other (String.singleton c) ∈ t.tokens) ∨
      ∃ t ∈ d.body, Token.other (String.singleton c) ∈ t.tokens := by
    simpa [tokens, instructionTokens, StatementTree.blockTokens] using hmem
  · exact t.noSigns_tokens c hc hmem
  · exact t.noSigns_tokens c hc hmem

/-- **A text that is read can be cut** into the parts of its derivation. -/
theorem CutSource.exists_of_parse {source : String} {p : Program}
    (h : Program.parse source = .ok p) :
    ∃ cut : CutSource, cut.source = source ∧ cut.tree.Valid ∧ cut.tree.Denotes p := by
  obtain ⟨located, d, hscan, htokens, hvalid, hdenotes, -⟩ := Program.exists_scanned_tree_of_parse h
  have hwrites := writes_of_scanFrom hscan htokens d.noSigns_tokens
  obtain ⟨cut, hsource, rfl⟩ := exists_of_writes hwrites
  exact ⟨cut, hsource, hvalid, hdenotes⟩

/-- However a text that is read is cut, the parts show its derivation. -/
theorem CutSource.valid_and_denotes {cut : CutSource} {p : Program}
    (h : Program.parse cut.source = .ok p) : cut.tree.Valid ∧ cut.tree.Denotes p := by
  obtain ⟨located, d, hscan, htokens, hvalid, hdenotes, -⟩ := Program.exists_scanned_tree_of_parse h
  obtain ⟨located', hscan', htokens'⟩ := cut.writes.scans .start
  obtain rfl : located' = located := Except.ok.inj (hscan'.symm.trans hscan)
  have hsame : cut.tree.tokens = d.tokens := List.append_cancel_right (htokens'.symm.trans htokens)
  obtain rfl := ProgramTree.tokens_injective hsame
  exact ⟨hvalid, hdenotes⟩

/-! ### Another order -/

namespace ProgramTree

variable {instructions instructions' : List (String × List StatementTree)}

/-- The rules about instructions do not ask for their order. -/
theorem ValidInstructions.of_perm (h : ValidInstructions instructions)
    (hperm : instructions'.Perm instructions) : ValidInstructions instructions' where
  distinct := (hperm.map Prod.fst).nodup_iff.mpr h.distinct
  notAction i hi := h.notAction i (hperm.mem_iff.mp hi)
  nesting i hi := h.nesting i (hperm.mem_iff.mp hi)

/-- What instructions define does not depend on their order. -/
theorem Defines.of_perm {defs : Definitions} (h : Defines instructions defs)
    (hperm : instructions'.Perm instructions) : Defines instructions' defs := by
  intro name body
  rw [h name body]
  constructor
  · rintro ⟨i, hi, hname, hbody⟩
    exact ⟨i, hperm.mem_iff.mpr hi, hname, hbody⟩
  · rintro ⟨i, hi, hname, hbody⟩
    exact ⟨i, hperm.mem_iff.mp hi, hname, hbody⟩

/-- The instructions that definitions are made of are their entries, in some order. -/
theorem Defines.perm_entries {defs : Definitions} (h : Defines instructions defs)
    (hdistinct : (instructions.map Prod.fst).Nodup) :
    (instructions.map fun i => (i.1, StatementTree.block i.2)).Perm defs.entries := by
  have hnodup : (instructions.map fun i => (i.1, StatementTree.block i.2)).Nodup :=
    .of_map Prod.fst (by rwa [List.map_map])
  refine (List.perm_ext_iff_of_nodup hnodup (.of_map Prod.fst defs.nodup_names)).mpr ?_
  rintro ⟨name, body⟩
  rw [← defs.find?_eq_some_iff_mem, h name body, List.mem_map]
  simp only [Prod.mk.injEq]

/-- A derivation with its instructions in another order keeps the rules. -/
theorem Valid.of_perm {d : ProgramTree} (h : d.Valid) (hperm : instructions'.Perm d.instructions) :
    Valid { d with instructions := instructions' } :=
  ⟨h.instructions.of_perm hperm, h.nesting⟩

/-- **A derivation denotes the same program with its instructions in another order.** -/
theorem Denotes.of_perm {d : ProgramTree} {p : Program} (h : d.Denotes p)
    (hperm : instructions'.Perm d.instructions) :
    Denotes { d with instructions := instructions' } p :=
  ⟨h.name, h.definitions.of_perm hperm, h.body⟩

end ProgramTree

/-- **The order of the definitions does not matter.** A text that is read as a program can be cut
into its parts. However it is cut, if the texts of its instructions are put together in another
order, with any layout between them, the result is read as the same program. So it has the same
layout and the same names of instructions, and compiling it has the same outcome and the same
events. The order of the texts is lost where it could be seen: the instructions sorted by their
names, in whatever way, are the entries of the program, and those whose bodies are not inserted,
sorted, are the ones that are reported as unused. -/
theorem Program.parse_reordered {source : String} {p : Program}
    (h : Program.parse source = .ok p) :
    (∃ cut : CutSource, cut.source = source) ∧
    ∀ cut : CutSource, cut.source = source →
      ∀ texts, (texts.map Prod.fst).Perm (cut.instructions.map Prod.fst) →
        ∃ p', Program.parse (cut.withInstructions texts).source = .ok p' ∧ p' = p ∧
          p'.render = p.render ∧ p'.definitions.names = p.definitions.names ∧
          p'.compile = p.compile ∧
          RobotScript.compile (cut.withInstructions texts).source =
            RobotScript.compile source ∧
          (∀ sorted : List (String × Statement),
            sorted.Perm (texts.map fun i =>
              (i.1.instruction.1, StatementTree.block i.1.instruction.2)) →
            sorted.Pairwise (fun a b => a.1 ≤ b.1) → sorted = p'.definitions.entries) ∧
          ∀ (events : List Event) (sorted : List String),
            sorted.Perm ((texts.map fun i => i.1.instruction.1).filter fun name =>
              !Statement.isInserted events name) →
            sorted.Pairwise (· ≤ ·) → sorted = Statement.unusedNames p'.definitions events := by
  constructor
  · obtain ⟨cut, hsource, -⟩ := CutSource.exists_of_parse h
    exact ⟨cut, hsource⟩
  · rintro cut rfl texts hperm
    obtain ⟨hvalid, hdenotes⟩ := CutSource.valid_and_denotes h
    have htrees : (texts.map fun i => i.1.instruction).Perm cut.tree.instructions := by
      have hmap := hperm.map InstructionText.instruction
      rwa [List.map_map, List.map_map] at hmap
    have hparse : Program.parse (cut.withInstructions texts).source = .ok p :=
      Program.parse_of_scans (cut.withInstructions texts).writes.scans (hvalid.of_perm htrees)
        (hdenotes.of_perm htrees)
    have hentries : (texts.map fun i =>
        (i.1.instruction.1, StatementTree.block i.1.instruction.2)).Perm p.definitions.entries := by
      have hmap := (hdenotes.definitions.of_perm htrees).perm_entries
        (hvalid.instructions.of_perm htrees).distinct
      rwa [List.map_map] at hmap
    have hnames : (texts.map fun i => i.1.instruction.1).Perm p.definitions.names := by
      have hmap := hentries.map Prod.fst
      rwa [List.map_map] at hmap
    refine ⟨p, hparse, rfl, rfl, rfl, rfl, ?_, fun sorted hsame hsorted => ?_,
      fun events sorted hsame hsorted => ?_⟩
    · rw [RobotScript.compile, RobotScript.compile, hparse, h]
    · exact Definitions.eq_entries_of_sorted (hsame.trans hentries) hsorted
    · exact Statement.eq_unusedNames_of_sorted hnames hsame hsorted

/-- A space. -/
def space : Gap := ⟨[' '], .blank (by simp) .nil, by simp⟩

/-- The text of an instruction that goes two steps, with a comment between them. -/
def walkText : InstructionText where
  instruction := ("walk", [.call "move", .call "move"])
  text := "INSTRUCTION walk IS move #1\n move END walk".toList
  spaced := by
    have hwalk : (Token.ident "walk").Lexable := (spells_identifier rfl).lexable
    have hmove : (Token.ident "move").Lexable := (spells_identifier rfl).lexable
    have hcomment : Layout (' ' :: ('#' :: ['1'] ++ '\n' :: [' '])) :=
      .blank (by simp) (.comment (by simp) space.layout)
    have htext : Spaced [.keyword .instructionKw, .ident "walk", .keyword .isKw, .ident "move",
        .ident "move", .keyword .endKw, .ident "walk"] _ :=
      .cons (spells_keyword .instructionKw).lexable space.layout space.ne_nil <|
      .cons hwalk space.layout space.ne_nil <|
      .cons (spells_keyword .isKw).lexable space.layout space.ne_nil <|
      .cons hmove hcomment (by simp) <| .cons hmove space.layout space.ne_nil <|
      .cons (spells_keyword .endKw).lexable space.layout space.ne_nil <| .single hwalk
    simp only [instructionTokens, blockTokens, StatementTree.tokens, List.flatMap_cons,
      List.flatMap_nil, List.cons_append, List.nil_append]
    exact htext

/-- The text of an instruction that calls the other. -/
def tourText : InstructionText where
  instruction := ("tour", [.call "walk"])
  text := "INSTRUCTION tour IS walk END tour".toList
  spaced := by
    have hwalk : (Token.ident "walk").Lexable := (spells_identifier rfl).lexable
    have htour : (Token.ident "tour").Lexable := (spells_identifier rfl).lexable
    have htext : Spaced [.keyword .instructionKw, .ident "tour", .keyword .isKw, .ident "walk",
        .keyword .endKw, .ident "tour"] _ :=
      .cons (spells_keyword .instructionKw).lexable space.layout space.ne_nil <|
      .cons htour space.layout space.ne_nil <|
      .cons (spells_keyword .isKw).lexable space.layout space.ne_nil <|
      .cons hwalk space.layout space.ne_nil <|
      .cons (spells_keyword .endKw).lexable space.layout space.ne_nil <| .single htour
    simp only [instructionTokens, blockTokens, StatementTree.tokens, List.flatMap_cons,
      List.flatMap_nil, List.cons_append, List.nil_append]
    exact htext

/-- A source with these two instructions. -/
def trip : CutSource where
  name := "Trip"
  body := [.call "tour"]
  before := []
  before_layout := .nil
  heading := "PROGRAM Trip IS".toList
  heading_spaced := by
    have htrip : (Token.ident "Trip").Lexable := (spells_identifier rfl).lexable
    have htext : Spaced [.keyword .programKw, .ident "Trip", .keyword .isKw] _ :=
      .cons (spells_keyword .programKw).lexable space.layout space.ne_nil <|
      .cons htrip space.layout space.ne_nil <| .single (spells_keyword .isKw).lexable
    exact htext
  gap := space
  instructions := [(walkText, space), (tourText, space)]
  main := "BEGIN tour END Trip".toList
  main_spaced := by
    have htrip : (Token.ident "Trip").Lexable := (spells_identifier rfl).lexable
    have htour : (Token.ident "tour").Lexable := (spells_identifier rfl).lexable
    have htext : Spaced [.keyword .beginKw, .ident "tour", .keyword .endKw, .ident "Trip"] _ :=
      .cons (spells_keyword .beginKw).lexable space.layout space.ne_nil <|
      .cons htour space.layout space.ne_nil <|
      .cons (spells_keyword .endKw).lexable space.layout space.ne_nil <| .single htrip
    simp only [blockTokens, StatementTree.tokens, List.flatMap_cons, List.flatMap_nil,
      List.cons_append, List.nil_append]
    exact htext
  after := []
  after_trailing := .closed .nil

/-- The two instructions of the trip can change places, and sorted they are the entries. -/
theorem Program.parse_reordered_trip :
    let p : Program := ⟨"Trip", .ofList [("walk", .block [.call "move", .call "move"]),
      ("tour", .block [.call "walk"])], .block [.call "tour"]⟩
    let swapped := trip.withInstructions [(tourText, space), (walkText, space)]
    trip.source = "PROGRAM Trip IS INSTRUCTION walk IS move #1\n move END walk " ++
      "INSTRUCTION tour IS walk END tour BEGIN tour END Trip" ∧
    swapped.source = "PROGRAM Trip IS INSTRUCTION tour IS walk END tour " ++
      "INSTRUCTION walk IS move #1\n move END walk BEGIN tour END Trip" ∧
    Program.parse trip.source = .ok p ∧ Program.parse swapped.source = .ok p ∧
    RobotScript.compile swapped.source = RobotScript.compile trip.source ∧
    p.definitions.entries = [("tour", .block [.call "walk"]),
      ("walk", .block [.call "move", .call "move"])] := by
  intro p swapped
  have hparse : Program.parse trip.source = .ok p := by decide +kernel
  obtain ⟨-, hany⟩ := Program.parse_reordered hparse
  obtain ⟨p', hswapped, rfl, -, -, -, hcompile, hentries, -⟩ :=
    hany trip rfl [(tourText, space), (walkText, space)] (.swap _ _ _)
  exact ⟨by decide +kernel, by decide +kernel, hparse, hswapped, hcompile,
    (hentries _ (.of_eq (by cbv)) (by decide)).symm⟩

end RobotScript
