import RobotScript.Proofs.Canonical
import RobotScript.Proofs.ProgramReading

/-!
# Writing programs and reading them back

The canonical programs are those that can be read from some text, and each of them can be read from
the text of its own layout. Both directions go through the derivation tree. The tokens of a text are
proper, so what a tree derives from them is canonical; and the layout of a canonical program shows
the yield of a tree that denotes it.

## Main definitions

* `Program.Canonical` — the program has names that can be spelled and bodies that can be shown.
* `Program.tree` — the derivation tree that the layout of a program shows.

## Main results

* `Program.show_lines`: the layout of a program shows the yield of its tree.
* `Program.Canonical.valid_tree`, `Program.Canonical.denotes_tree`: the tree of a canonical program
  keeps the rules and denotes the program.
* `ProgramTree.Denotes.canonical`: what is derived from proper tokens is canonical.
* `Program.exists_parse_iff_canonical`: **the canonical programs are those that can be read, and
  those that can be read from their own layout**.
-/

namespace RobotScript

namespace Program

/-- The program can be shown by a text: its names are identifiers, its instructions do not have the
names of actions, and its bodies are canonical. -/
structure Canonical (p : Program) : Prop where
  name : isIdentifier p.name = true
  keys : ∀ key ∈ p.definitions.names, isIdentifier key = true ∧ Action.isName key = false
  body : p.body.CanonicalBody
  bodies : ∀ e ∈ p.definitions.entries, e.2.CanonicalBody

/-- The derivation tree of a program, with its instructions in ascending order of their names. -/
def tree (p : Program) : ProgramTree :=
  ⟨p.name, p.definitions.entries.map fun e => (e.1, e.2.trees), p.body.trees⟩

/-! ### The layout of programs -/

/-- The layout of an instruction shows the yield of its tree. -/
theorem show_definitionLines {name : String} {body : Statement}
    (hname : isIdentifier name = true)
    (hcalls : ∀ called ∈ body.callNames, isIdentifier called = true) :
    Line.Show (definitionLines name body) (ProgramTree.instructionTokens (name, body.trees)) := by
  have hopen : List.Forall₂ Spells ["INSTRUCTION", name, "IS"]
      [.keyword .instructionKw, .ident name, .keyword .isKw] :=
    .cons (spells_keyword .instructionKw)
      (.cons (spells_identifier hname) (.cons (spells_keyword .isKw) .nil))
  have hclose : List.Forall₂ Spells ["END", name] [.keyword .endKw, .ident name] :=
    .cons (spells_keyword .endKw) (.cons (spells_identifier hname) .nil)
  have hbody := Statement.show_lines hcalls (2 * Line.step)
  have hall := Line.Show.cons Line.step hopen
    (hbody.append (.cons Line.step hclose (.cons 0 .nil .nil)))
  simpa [definitionLines, ProgramTree.instructionTokens] using hall

/-- The layout of instructions shows the yields of their trees. -/
theorem show_definitions {entries : List (String × Statement)}
    (hkeys : ∀ e ∈ entries, isIdentifier e.1 = true)
    (hcalls : ∀ e ∈ entries, ∀ name ∈ e.2.callNames, isIdentifier name = true) :
    Line.Show (entries.flatMap fun e => definitionLines e.1 e.2)
      ((entries.map fun e => (e.1, e.2.trees)).flatMap ProgramTree.instructionTokens) := by
  induction entries with
  | nil => exact .nil
  | cons e entries ih =>
      obtain ⟨hkey, hkeys⟩ := List.forall_mem_cons.mp hkeys
      obtain ⟨hcall, hcalls⟩ := List.forall_mem_cons.mp hcalls
      rw [List.flatMap_cons, List.map_cons, List.flatMap_cons]
      exact (show_definitionLines hkey hcall).append (ih hkeys hcalls)

/-- Every key of the definitions of a canonical program is an identifier and no action. -/
theorem Canonical.key {p : Program} (h : p.Canonical) {e : String × Statement}
    (he : e ∈ p.definitions.entries) : isIdentifier e.1 = true ∧ Action.isName e.1 = false :=
  h.keys e.1 (List.mem_map_of_mem he)

/-- **The layout of a canonical program shows the yield of its tree.** -/
theorem show_lines {p : Program} (h : p.Canonical) : Line.Show p.lines p.tree.tokens := by
  have hopen : List.Forall₂ Spells ["PROGRAM", p.name, "IS"]
      [.keyword .programKw, .ident p.name, .keyword .isKw] :=
    .cons (spells_keyword .programKw)
      (.cons (spells_identifier h.name) (.cons (spells_keyword .isKw) .nil))
  have hbegin : List.Forall₂ Spells ["BEGIN"] [.keyword .beginKw] :=
    .cons (spells_keyword .beginKw) .nil
  have hclose : List.Forall₂ Spells ["END", p.name] [.keyword .endKw, .ident p.name] :=
    .cons (spells_keyword .endKw) (.cons (spells_identifier h.name) .nil)
  have hdefinitions := show_definitions (fun e he => (h.key he).1) fun e he => (h.bodies e he).calls
  have hbody := Statement.show_lines h.body.calls Line.step
  have hall := Line.Show.cons 0 hopen (.cons 0 .nil
    (hdefinitions.append (.cons 0 hbegin (hbody.append (.cons 0 hclose .nil)))))
  simpa [lines, tree, ProgramTree.tokens] using hall

/-! ### The tree of a canonical program -/

/-- The tree of a canonical program keeps the rules about names and nesting. -/
theorem Canonical.valid_tree {p : Program} (h : p.Canonical) : p.tree.Valid := by
  refine ⟨⟨?_, ?_, ?_⟩, ?_⟩
  · have hnames : p.tree.instructions.map Prod.fst = p.definitions.names := by
      simp [tree, Definitions.names]
    rw [hnames]
    exact p.definitions.nodup_names
  · intro i hi
    obtain ⟨e, he, rfl⟩ := List.mem_map.mp hi
    exact (h.key he).2
  · intro i hi
    obtain ⟨e, he, rfl⟩ := List.mem_map.mp hi
    rw [(h.bodies e he).block_trees]
    exact (h.bodies e he).nesting
  · rw [tree, h.body.block_trees]
    exact h.body.nesting

/-- The tree of a canonical program denotes the program. -/
theorem Canonical.denotes_tree {p : Program} (h : p.Canonical) : p.tree.Denotes p := by
  refine ⟨rfl, ?_, h.body.block_trees.symm⟩
  intro name body
  rw [Definitions.find?_eq_some_iff_mem]
  constructor
  · intro hmem
    exact ⟨_, List.mem_map.mpr ⟨_, hmem, rfl⟩, rfl, (h.bodies _ hmem).block_trees⟩
  · rintro ⟨i, hi, rfl, rfl⟩
    obtain ⟨e, he, rfl⟩ := List.mem_map.mp hi
    rw [(h.bodies e he).block_trees]
    exact he

end Program

/-! ### What is derived from proper tokens -/

/-- **A program that is derived from proper tokens is canonical.** -/
theorem ProgramTree.Denotes.canonical {d : ProgramTree} {p : Program} (h : d.Denotes p)
    (hvalid : d.Valid) (hproper : ∀ token ∈ d.tokens, token.IsProper) : p.Canonical := by
  have hname : Token.ident d.name ∈ d.tokens := by simp [ProgramTree.tokens]
  have hinstruction : ∀ i ∈ d.instructions, ∀ token ∈ ProgramTree.instructionTokens i,
      token.IsProper := by
    intro i hi token htoken
    have hmem : token ∈ d.instructions.flatMap ProgramTree.instructionTokens :=
      List.mem_flatMap.mpr ⟨i, hi, htoken⟩
    exact hproper token (by simp only [ProgramTree.tokens, List.mem_append]; tauto)
  -- an entry of the program comes from an instruction of the tree
  have hentry : ∀ e ∈ p.definitions.entries,
      ∃ i ∈ d.instructions, i.1 = e.1 ∧ StatementTree.block i.2 = e.2 := fun e he =>
    (h.definitions e.1 e.2).mp ((Definitions.find?_eq_some_iff_mem _).mpr he)
  refine ⟨?_, ?_, ?_, ?_⟩
  · rw [h.name]
    exact (hproper _ hname).2 d.name rfl
  · intro key hkey
    obtain ⟨e, he, rfl⟩ := List.mem_map.mp hkey
    obtain ⟨i, hi, hfst, -⟩ := hentry e he
    have hident : Token.ident i.1 ∈ ProgramTree.instructionTokens i := by
      simp [ProgramTree.instructionTokens]
    rw [← hfst]
    exact ⟨(hinstruction i hi _ hident).2 i.1 rfl, hvalid.instructions.notAction i hi⟩
  · rw [h.body]
    refine StatementTree.canonicalBody_block (fun token htoken => hproper token ?_) hvalid.nesting
    simp only [ProgramTree.tokens, List.mem_append]
    tauto
  · intro e he
    obtain ⟨i, hi, -, hbody⟩ := hentry e he
    rw [← hbody]
    refine StatementTree.canonicalBody_block (fun token htoken => hinstruction i hi token ?_)
      (hvalid.instructions.nesting i hi)
    simp only [ProgramTree.instructionTokens, List.mem_append]
    tauto

/-! ### Reading texts -/

namespace Program

/-- The program of a text is what the reader makes of its tokens without comments and line ends. -/
theorem parse_of_scan {source : String} {front : List Located} {stop : Position}
    (h : scan source = .ok (front ++ [⟨.eof, stop⟩])) :
    Program.parse source =
      (Reader.program.run (.ofTokens
        (front.filter (fun t => !t.token.isLayout) ++ [⟨.eof, stop⟩]))).1 := by
  have hscan : scanProgram source =
      .ok (front.filter (fun t => !t.token.isLayout) ++ [⟨.eof, stop⟩]) := by
    rw [scanProgram, h]
    change Except.ok (List.filter _ (front ++ [_])) = _
    rw [List.filter_append]
    rfl
  rw [Program.parse, hscan]

/-- A text that has the tokens of a valid tree is read as what the tree denotes. -/
theorem parse_of_scans {source : String} {d : ProgramTree} {p : Program}
    (h : Scans source.toList d.tokens) (hvalid : d.Valid) (hdenotes : d.Denotes p) :
    Program.parse source = .ok p := by
  obtain ⟨located, hscan, htokens⟩ := h .start
  obtain ⟨front, stop, rfl, hproper⟩ := scanFrom_eq_ok hscan
  have hfront : (front.filter fun t => !t.token.isLayout).map Located.token = d.tokens := by
    rw [List.filter_append, List.map_append] at htokens
    exact List.append_cancel_right htokens
  rw [parse_of_scan hscan, Reader.program_run_iff_exists_tree]
  · exact ⟨d, hfront.symm, hvalid, hdenotes⟩
  · exact fun t ht => (hproper t (List.mem_of_mem_filter ht)).1

/-- A program that is read from a text is derived from the tokens of the text, and these are
proper. -/
theorem exists_scanned_tree_of_parse {source : String} {p : Program}
    (h : Program.parse source = .ok p) :
    ∃ located, ∃ d : ProgramTree, scan source = .ok located ∧
      (located.filter fun t => !t.token.isLayout).map Located.token = d.tokens ++ [.eof] ∧
      d.Valid ∧ d.Denotes p ∧ ∀ token ∈ d.tokens, token.IsProper := by
  cases hscan : scan source with
  | error e =>
      rw [Program.parse, scanProgram, hscan] at h
      cases h
  | ok located =>
      obtain ⟨front, stop, rfl, hproper⟩ := scanFrom_eq_ok hscan
      have hkept : ∀ t ∈ front.filter (fun t => !t.token.isLayout), t.token.IsProper :=
        fun t ht => hproper t (List.mem_of_mem_filter ht)
      rw [parse_of_scan hscan,
        Reader.program_run_iff_exists_tree fun t ht => (hkept t ht).1] at h
      obtain ⟨d, htokens, hvalid, hdenotes⟩ := h
      refine ⟨_, d, rfl, ?_, hvalid, hdenotes, ?_⟩
      · rw [List.filter_append, List.map_append, htokens]
        rfl
      · rw [htokens, List.forall_mem_map]
        exact hkept

/-- A program that is read from a text is derived from proper tokens. -/
theorem exists_tree_of_parse {source : String} {p : Program} (h : Program.parse source = .ok p) :
    ∃ d : ProgramTree, d.Valid ∧ d.Denotes p ∧ ∀ token ∈ d.tokens, token.IsProper := by
  obtain ⟨-, d, -, -, hvalid, hdenotes, hproper⟩ := exists_scanned_tree_of_parse h
  exact ⟨d, hvalid, hdenotes, hproper⟩

/-- A program that is read from a text is canonical. -/
theorem canonical_of_parse {source : String} {p : Program} (h : Program.parse source = .ok p) :
    p.Canonical := by
  obtain ⟨d, hvalid, hdenotes, hproper⟩ := exists_tree_of_parse h
  exact hdenotes.canonical hvalid hproper

/-- The layout of a canonical program is read as the program. -/
theorem Canonical.parse_render {p : Program} (h : p.Canonical) : Program.parse p.render = .ok p :=
  parse_of_scans (show_lines h).scans h.valid_tree h.denotes_tree

/-- **Writing and reading back.** For every program these are the same: some text is read as it; it
is canonical; the text of its layout is read as it. -/
theorem exists_parse_iff_canonical (p : Program) :
    ((∃ source, Program.parse source = .ok p) ↔ p.Canonical) ∧
      (p.Canonical ↔ Program.parse p.render = .ok p) := by
  refine ⟨⟨?_, fun h => ⟨p.render, h.parse_render⟩⟩, ⟨Canonical.parse_render, canonical_of_parse⟩⟩
  rintro ⟨source, h⟩
  exact canonical_of_parse h

end Program

end RobotScript
