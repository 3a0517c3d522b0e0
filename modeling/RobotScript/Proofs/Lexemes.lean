import Mathlib.Data.List.DropRight
import Mathlib.Tactic
import RobotScript.Proofs.Scanning

/-!
# A source and its tokens, character by character

Scanning loses nothing and puts everything in its place: a source is cut into pieces, one for each
token, and each piece is the gap before the token and the characters of the token. What these
characters are is said without the scanner (`Lexeme`), and so is the place of a character, by
counting the line ends before it and the characters after the last of them. Scanning fails on
control characters outside of comments, and reports the first of them.

What can stand at the cursor after a gap is said once, in `exists_lexeme_or_isStray`; scanning over
it is the step lemma `Lexeme.scanFrom_append`. Between two steps it has to be known that no word
goes on over the cursor, and that the comment on the current line, if there is one, is over
(`AtBorder`).

## Main definitions

* `openLine`, `Position.after` — the current line and the place after a text, by counting.
* `IsStray` — the character stops scanning.
* `Lexeme` — the characters of a token, between what stands before and after them.
* `Piece`, `Piece.Fits` — a token with its characters and the gap before it.
* `Cut`, `Partition` — a row of pieces that fit, and one that makes up a whole source.

## Main results

* `Position.advanceAll_start`: the place that scanning keeps track of is the one found by counting.
* `Lexeme.scanFrom_append`, `Cut.scanFrom_append`: scanning one piece, and any number of them.
* `exists_cut`: every source is cut into pieces, up to its end or up to a stray character.
* `scan_partition`: **scanning cuts a source into its tokens, or finds the first stray character**.
-/

namespace RobotScript

/-! ### Places -/

/-- The characters after the last line end. -/
def openLine (before : List Char) : List Char :=
  before.rtakeWhile isInLine

/-- The place after a text: lines count its line ends, columns the characters after the last. -/
def Position.after (before : List Char) : Position :=
  ⟨1 + before.count '\n', 1 + (openLine before).length⟩

theorem openLine_concat_lineEnd (before : List Char) : openLine (before ++ ['\n']) = [] :=
  List.rtakeWhile_concat_neg isInLine before '\n' (by decide)

theorem openLine_concat {c : Char} (hc : c ≠ '\n') (before : List Char) :
    openLine (before ++ [c]) = openLine before ++ [c] :=
  List.rtakeWhile_concat_pos isInLine before c (by simpa [isInLine] using hc)

/-- A text without a line end stays on the current line. -/
theorem openLine_append {text : List Char} (h : '\n' ∉ text) (before : List Char) :
    openLine (before ++ text) = openLine before ++ text := by
  induction text using List.reverseRecOn with
  | nil => simp
  | append_singleton text c ih =>
      rw [List.mem_append, not_or, List.mem_singleton] at h
      rw [← List.append_assoc, openLine_concat (Ne.symm h.2), ih h.1, List.append_assoc]

/-- What is on the current line was there before or is in the text. -/
theorem mem_openLine_append {c : Char} {before text : List Char}
    (h : c ∈ openLine (before ++ text)) : c ∈ openLine before ∨ c ∈ text := by
  induction text using List.reverseRecOn with
  | nil => exact .inl (by simpa using h)
  | append_singleton text d ih =>
      rw [← List.append_assoc] at h
      by_cases hd : d = '\n'
      · rw [hd, openLine_concat_lineEnd] at h
        cases h
      · rw [openLine_concat hd, List.mem_append] at h
        rcases h with h | h
        · exact (ih h).imp_right (List.mem_append_left _)
        · exact .inr (List.mem_append_right _ h)

theorem Position.advanceAll_append (p : Position) (text more : List Char) :
    p.advanceAll (text ++ more) = (p.advanceAll text).advanceAll more :=
  List.foldl_append

/-- **The place that is kept track of is the one found by counting.** -/
theorem Position.advanceAll_start (before : List Char) :
    start.advanceAll before = after before := by
  induction before using List.reverseRecOn with
  | nil => rfl
  | append_singleton before c ih =>
      rw [advanceAll_append, ih]
      change (after before).advance c = _
      by_cases hc : c = '\n'
      · subst hc
        rw [advance, if_pos rfl, after, after, openLine_concat_lineEnd, List.count_append]
        simp [Nat.add_assoc]
      · rw [advance, if_neg hc, after, after, openLine_concat hc, List.count_append]
        simp [Nat.add_assoc, hc]

/-- The place after two texts is reached from the place after the first. -/
theorem Position.advanceAll_after (before text : List Char) :
    (after before).advanceAll text = after (before ++ text) := by
  rw [← advanceAll_start, ← advanceAll_start, advanceAll_append]

/-! ### Stray characters -/

/-- A control character that stands neither between tokens nor, as far as the text before it goes,
in a comment. -/
def IsStray (before : List Char) (c : Char) : Prop :=
  isControl c = true ∧ c ∉ ['\t', '\r', '\n'] ∧ '#' ∉ openLine before

/-- No character of the text is stray there. -/
def NoStray (before text : List Char) : Prop :=
  ∀ earlier c later, text = earlier ++ c :: later → ¬ IsStray (before ++ earlier) c

theorem NoStray.append {before text more : List Char} (h : NoStray before text)
    (hmore : NoStray (before ++ text) more) : NoStray before (text ++ more) := by
  intro earlier c later heq
  rcases List.append_eq_append_iff.mp heq with ⟨middle, rfl, hmiddle⟩ | ⟨middle, htext, hmiddle⟩
  · rw [← List.append_assoc]
    exact hmore middle c later hmiddle
  · cases middle with
    | nil =>
        rw [List.append_nil] at htext
        rw [List.nil_append] at hmiddle
        have hstart := hmore [] c later hmiddle.symm
        rwa [List.append_nil, htext] at hstart
    | cons d middle =>
        obtain ⟨rfl, -⟩ := List.cons.inj hmiddle
        exact h earlier c middle htext

/-- A text without control characters, but for those between tokens, has no stray character. -/
theorem NoStray.of_forall {text : List Char}
    (h : ∀ c ∈ text, isControl c = true → c ∈ ['\t', '\r', '\n']) (before : List Char) :
    NoStray before text := by
  rintro earlier c later rfl ⟨hcontrol, hlayout, -⟩
  exact hlayout (h c (by simp) hcontrol)

/-- Nothing in a comment is stray. -/
theorem NoStray.of_comment {text : List Char} (h : '\n' ∉ text) (before : List Char) :
    NoStray before ('#' :: text) := by
  rintro (_ | ⟨_, earlier⟩) c later heq ⟨hcontrol, -, hcomment⟩
  · obtain ⟨rfl, -⟩ := List.cons.inj heq
    exact absurd hcontrol (by decide)
  · obtain ⟨rfl, rfl⟩ := List.cons.inj heq
    have hline : '\n' ∉ '#' :: earlier := by simp_all
    rw [openLine_append hline] at hcomment
    simp at hcomment

/-! ### Lexemes -/

/-- The characters of a token, between the text before and the text after them. -/
inductive Lexeme (before after : List Char) : List Char → Token → Prop
  /-- A line end is itself. -/
  | newline : Lexeme before after ['\n'] .newline
  /-- A comment goes on to the end of its line. The token has what follows the number sign, without
  the blanks at its two ends. -/
  | comment {text : List Char} : '\n' ∉ text → (∀ c ∈ after.head?, c = '\n') →
      Lexeme before after ('#' :: text) (.comment (String.ofList (Text.trim text)))
  /-- A word is a run of word characters that goes on in neither direction. -/
  | word {word : List Char} : word ≠ [] → (∀ c ∈ word, isWordChar c = true) →
      (∀ c ∈ before.getLast?, isWordChar c = false) → EndsWord after →
      Lexeme before after word (.ofWord (String.ofList word))
  /-- A sign is itself. -/
  | sign {c : Char} : isSign c = true → Lexeme before after [c] (.other (String.ofList [c]))
  /-- The end of the input has no characters, and none after it. -/
  | eof : after = [] → Lexeme before after [] .eof

/-- A character between tokens ends a word, is no line end and opens no comment. -/
theorem isGap_excludes {c : Char} (h : isGap c = true) :
    isWordChar c = false ∧ c ≠ '\n' ∧ c ≠ '#' ∧ (isControl c = true → c ∈ ['\t', '\r', '\n']) := by
  simp only [isGap, Bool.or_eq_true, beq_iff_eq] at h
  rcases h with (rfl | rfl) | rfl
  · decide
  · decide
  · decide

/-- The letters and digits are three intervals. -/
theorem toNat_of_isAlphanum {c : Char} (h : c.isAlphanum = true) :
    (65 ≤ c.toNat ∧ c.toNat ≤ 90) ∨ (97 ≤ c.toNat ∧ c.toNat ≤ 122) ∨
      (48 ≤ c.toNat ∧ c.toNat ≤ 57) := by
  rcases Bool.or_eq_true_iff.mp h with hletter | hdigit
  · rcases Bool.or_eq_true_iff.mp hletter with hupper | hlower
    · exact .inl (of_decide_eq_true hupper)
    · exact .inr (.inl ((Bool.and_eq_true_iff.mp hlower).imp of_decide_eq_true of_decide_eq_true))
  · exact .inr (.inr (Char.isDigit_iff_toNat.mp hdigit))

/-- A character of a word is no control character. -/
theorem isControl_of_isWordChar {c : Char} (h : isWordChar c = true) : isControl c = false := by
  rw [isWordChar, Bool.or_eq_true, Bool.or_eq_true, beq_iff_eq, beq_iff_eq] at h
  rcases h with ((h | rfl) | rfl)
  · have hbounds := toNat_of_isAlphanum h
    simp only [isControl, Bool.or_eq_false_iff, Bool.and_eq_false_iff, decide_eq_false_iff_not]
    omega
  · decide
  · decide

/-- **Scanning over a token**: its characters give the token, and the rest is scanned behind
them. -/
theorem Lexeme.scanFrom_append {before after lexeme : List Char} {token : Token}
    (h : Lexeme before after lexeme token) (hne : token ≠ .eof) (position : Position) :
    scanFrom position (lexeme ++ after) =
      (scanFrom (position.advanceAll lexeme) after).map (⟨token, position⟩ :: ·) := by
  cases h with
  | newline => exact scanFrom_lineEnd
  | comment htext hafter => exact scanFrom_comment htext hafter
  | word hword hchars _ hafter => exact scanFrom_word hword hchars hafter
  | sign hc => exact scanFrom_sign hc
  | eof => exact absurd rfl hne

/-- Nothing in a token is stray. -/
theorem Lexeme.noStray {before after lexeme : List Char} {token : Token}
    (h : Lexeme before after lexeme token) : NoStray before lexeme := by
  cases h with
  | newline => exact .of_forall (by simp) before
  | comment htext _ => exact .of_comment htext before
  | word _ hchars _ _ =>
      refine .of_forall (fun c hc hcontrol => ?_) before
      rw [isControl_of_isWordChar (hchars c hc)] at hcontrol
      cases hcontrol
  | @sign c hc =>
      obtain ⟨-, -, -, -, hcontrol⟩ := isSign_excludes hc
      exact .of_forall (by simp [hcontrol]) before
  | eof => exact .of_forall (by simp) before

/-- Only the end of the input has no characters. -/
theorem Lexeme.ne_nil {before after lexeme : List Char} {token : Token}
    (h : Lexeme before after lexeme token) (hne : token ≠ .eof) : lexeme ≠ [] := by
  cases h with
  | newline => simp
  | comment => simp
  | word hword => exact hword
  | sign => simp
  | eof => exact absurd rfl hne

/-! ### Borders -/

/-- Between the text before and the rest no word goes on, and what is left of the line is not part
of a comment. -/
structure AtBorder (before rest : List Char) : Prop where
  wordEnds : (∀ c ∈ before.getLast?, isWordChar c = false) ∨ EndsWord rest
  commentEnds : '#' ∉ openLine before ∨ ∀ c ∈ rest.head?, c = '\n'

/-- A source starts at a border. -/
theorem AtBorder.start (source : List Char) : AtBorder [] source :=
  ⟨.inl (by simp), .inl (by simp [openLine])⟩

/-- Before anything but a line end, the current line has no comment. -/
theorem AtBorder.not_mem_openLine {before rest : List Char} {c : Char}
    (h : AtBorder before (c :: rest)) (hc : c ≠ '\n') : '#' ∉ openLine before :=
  h.commentEnds.resolve_right fun hhead => hc (hhead c rfl)

/-- Before a word, no word ends. -/
theorem AtBorder.getLast?_of_isWordChar {before rest : List Char} {c : Char}
    (h : AtBorder before (c :: rest)) (hc : isWordChar c = true) :
    ∀ d ∈ before.getLast?, isWordChar d = false := by
  refine h.wordEnds.resolve_right fun hends => ?_
  rw [hends c rfl] at hc
  cases hc

/-- A border follows text that opens no comment, if no word goes on there. -/
theorem AtBorder.of_append {before text rest : List Char} {c : Char}
    (h : AtBorder before (c :: text ++ rest)) (hc : c ≠ '\n') (hcomment : '#' ∉ c :: text)
    (hword : (∀ d ∈ (c :: text).getLast?, isWordChar d = false) ∨ EndsWord rest) :
    AtBorder (before ++ c :: text) rest := by
  refine ⟨?_, .inl fun hmem => ?_⟩
  · rw [List.getLast?_append_cons]
    exact hword
  · exact (mem_openLine_append hmem).elim (h.not_mem_openLine hc) hcomment

/-- A border follows a gap. -/
theorem AtBorder.gap {before gap rest : List Char} (h : AtBorder before (gap ++ rest))
    (hgap : ∀ c ∈ gap, isGap c = true) : AtBorder (before ++ gap) rest := by
  cases gap with
  | nil => simpa using h
  | cons c gap =>
      refine h.of_append (isGap_excludes (hgap c List.mem_cons_self)).2.1 (fun hmem => ?_)
        (.inl fun d hd => ?_)
      · exact (isGap_excludes (hgap '#' hmem)).2.2.1 rfl
      · exact (isGap_excludes (hgap d (List.mem_of_mem_getLast? hd))).1

/-- A border follows a token. -/
theorem Lexeme.atBorder {before after lexeme : List Char} {token : Token}
    (h : Lexeme before after lexeme token) (hborder : AtBorder before (lexeme ++ after)) :
    AtBorder (before ++ lexeme) after := by
  cases h with
  | newline =>
      refine ⟨.inl ?_, .inl (by simp [openLine_concat_lineEnd])⟩
      rw [List.getLast?_concat]
      rintro c ⟨⟩
      decide
  | comment _ hafter =>
      refine ⟨.inr fun c hc => ?_, .inr hafter⟩
      rw [hafter c hc]
      decide
  | word hne hchars _ hafter =>
      obtain ⟨c, more, rfl⟩ := List.exists_cons_of_ne_nil hne
      refine hborder.of_append (isWordChar_excludes (hchars c List.mem_cons_self)).2.1
        (fun hmem => ?_) (.inr hafter)
      exact (isWordChar_excludes (hchars '#' hmem)).2.2 rfl
  | @sign c hc =>
      obtain ⟨-, hline, hcomment, hword, -⟩ := isSign_excludes hc
      refine hborder.of_append hline (by simpa using hcomment.symm) (.inl ?_)
      rintro d ⟨⟩
      exact hword
  | eof => simpa using hborder

/-- **What can stand at the cursor.** After a gap comes a token or a stray character. -/
theorem exists_lexeme_or_isStray {before rest : List Char} {c : Char}
    (h : AtBorder before (c :: rest)) (hgap : isGap c = false) :
    (∃ lexeme after token, c :: rest = lexeme ++ after ∧ Lexeme before after lexeme token ∧
      token ≠ .eof) ∨ IsStray before c := by
  by_cases hline : c = '\n'
  · exact .inl ⟨['\n'], rest, .newline, by rw [hline]; rfl, .newline, by simp⟩
  by_cases hcomment : c = '#'
  · refine .inl ⟨'#' :: rest.takeWhile isInLine, rest.dropWhile isInLine, _, ?_,
      .comment ?_ ?_, by simp⟩
    · rw [List.cons_append, List.takeWhile_append_dropWhile, hcomment]
    · intro hmem
      exact absurd (List.mem_takeWhile_imp hmem) (by decide)
    · intro d hd
      have hnot := List.head?_dropWhile_not isInLine rest
      rw [Option.mem_def.mp hd] at hnot
      simpa [isInLine] using hnot
  by_cases hword : isWordChar c = true
  · refine .inl ⟨c :: rest.takeWhile isWordChar, rest.dropWhile isWordChar, _, ?_,
      .word (by simp) ?_ (h.getLast?_of_isWordChar hword) ?_, (Token.ofWord_isProper _).1⟩
    · rw [List.cons_append, List.takeWhile_append_dropWhile]
    · exact List.forall_mem_cons.mpr ⟨hword, fun d hd => List.mem_takeWhile_imp hd⟩
    · intro d hd
      have hnot := List.head?_dropWhile_not isWordChar rest
      rw [Option.mem_def.mp hd] at hnot
      simpa using hnot
  by_cases hcontrol : isControl c = true
  · refine .inr ⟨hcontrol, ?_, h.not_mem_openLine hline⟩
    simp only [isGap, Bool.or_eq_false_iff, beq_eq_false_iff_ne] at hgap
    simp [hline, hgap]
  · refine .inl ⟨[c], rest, _, rfl, .sign ?_, by simp⟩
    simp only [isGap, Bool.or_eq_false_iff, beq_eq_false_iff_ne] at hgap
    simp [isSign, hword, hgap, hcomment, hcontrol]

/-! ### Pieces -/

/-- A token with its characters and the gap before them. -/
structure Piece where
  gap : List Char
  lexeme : List Char
  located : Located

namespace Piece

/-- The characters of the piece. -/
def text (p : Piece) : List Char :=
  p.gap ++ p.lexeme

/-- The characters of pieces one after another. -/
def textAll (pieces : List Piece) : List Char :=
  pieces.flatMap text

/-- The piece stands between the text before and the text after it: its gap separates tokens, its
characters are those of its token, and the place of the token is where they start. -/
structure Fits (before after : List Char) (p : Piece) : Prop where
  gap : ∀ c ∈ p.gap, isGap c = true
  lexeme : Lexeme (before ++ p.gap) after p.lexeme p.located.token
  position : p.located.position = .after (before ++ p.gap)

end Piece

open Piece

/-- Each of the pieces stands between the text before and after all of them, and between the
others. -/
def Cut (before : List Char) : List Piece → (after : List Char) → Prop
  | [], _ => True
  | p :: pieces, after =>
    p.Fits before (textAll pieces ++ after) ∧ Cut (before ++ p.text) pieces after

theorem textAll_cons (p : Piece) (pieces : List Piece) :
    textAll (p :: pieces) = p.text ++ textAll pieces :=
  List.flatMap_cons

theorem textAll_append (pieces more : List Piece) :
    textAll (pieces ++ more) = textAll pieces ++ textAll more :=
  List.flatMap_append

/-- Pieces follow one another exactly if each of them stands between those before and those after
it. -/
theorem cut_iff {before after : List Char} {pieces : List Piece} :
    Cut before pieces after ↔ ∀ front p back, pieces = front ++ p :: back →
      p.Fits (before ++ textAll front) (textAll back ++ after) := by
  induction pieces generalizing before with
  | nil => simp [Cut]
  | cons q pieces ih =>
      rw [Cut, ih]
      constructor
      · rintro ⟨hq, hpieces⟩ front p back heq
        cases front with
        | nil =>
            obtain ⟨rfl, rfl⟩ := List.cons.inj heq
            simpa [textAll] using hq
        | cons q' front =>
            obtain ⟨rfl, hrest⟩ := List.cons.inj heq
            rw [textAll_cons, ← List.append_assoc]
            exact hpieces front p back hrest
      · intro h
        refine ⟨by simpa [textAll] using h [] q pieces rfl, fun front p back heq => ?_⟩
        have hp := h (q :: front) p back (by rw [heq, List.cons_append])
        rwa [textAll_cons, ← List.append_assoc] at hp

/-- Pieces after pieces. -/
theorem Cut.append {before after : List Char} {pieces more : List Piece}
    (h : Cut before pieces (textAll more ++ after))
    (hmore : Cut (before ++ textAll pieces) more after) : Cut before (pieces ++ more) after := by
  induction pieces generalizing before with
  | nil => simpa [textAll] using hmore
  | cons p pieces ih =>
      rw [textAll_cons, ← List.append_assoc] at hmore
      rw [List.cons_append, Cut, textAll_append, List.append_assoc]
      exact ⟨h.1, ih h.2 hmore⟩

/-- A gap is passed over. -/
theorem scanFrom_gaps {gap : List Char} (h : ∀ c ∈ gap, isGap c = true) (position : Position)
    (rest : List Char) :
    scanFrom position (gap ++ rest) = scanFrom (position.advanceAll gap) rest := by
  induction gap generalizing position with
  | nil => rfl
  | cons c gap ih =>
      obtain ⟨hc, hgap⟩ := List.forall_mem_cons.mp h
      rw [List.cons_append, scanFrom_gap hc, ih hgap]
      rfl

/-- **Scanning over pieces** gives their tokens, and the rest is scanned behind them. -/
theorem Cut.scanFrom_append {before after : List Char} {pieces : List Piece}
    (h : Cut before pieces after) (hne : ∀ p ∈ pieces, p.located.token ≠ .eof) :
    scanFrom (.after before) (textAll pieces ++ after) =
      (scanFrom (.after (before ++ textAll pieces)) after).map (pieces.map located ++ ·) := by
  induction pieces generalizing before with
  | nil =>
      rw [textAll, List.flatMap_nil, List.append_nil, List.nil_append]
      cases scanFrom (.after before) after <;> rfl
  | cons p pieces ih =>
      obtain ⟨⟨hgap, hlexeme, hposition⟩, hpieces⟩ := h
      obtain ⟨hp, hrest⟩ := List.forall_mem_cons.mp hne
      rw [textAll_cons, text, List.append_assoc, List.append_assoc, scanFrom_gaps hgap,
        Position.advanceAll_after, hlexeme.scanFrom_append hp, Position.advanceAll_after,
        List.append_assoc, ← text, ih hpieces hrest, List.append_assoc, ← hposition]
      cases scanFrom (.after (before ++ (p.text ++ textAll pieces))) after <;> rfl

/-- A gap is scanned as the end of the input alone, at the place behind it. -/
theorem scanFrom_gap_eof {before gap : List Char} (h : ∀ c ∈ gap, isGap c = true) :
    scanFrom (.after before) gap = .ok [⟨.eof, .after (before ++ gap)⟩] := by
  have hscan := scanFrom_gaps h (.after before) []
  rwa [List.append_nil, Position.advanceAll_after, scanFrom] at hscan

/-- A stray character after a gap is reported, with its place. -/
theorem scanFrom_gap_stray {before gap rest : List Char} {c : Char}
    (h : ∀ c ∈ gap, isGap c = true) (hc : IsStray (before ++ gap) c) :
    scanFrom (.after before) (gap ++ c :: rest) = .error ⟨.after (before ++ gap), c⟩ := by
  obtain ⟨hcontrol, hlayout, -⟩ := hc
  have hgap : isGap c = false := by
    rw [Bool.eq_false_iff]
    intro hgap
    exact hlayout ((isGap_excludes hgap).2.2.2 hcontrol)
  have hline : c ≠ '\n' := by
    rintro rfl
    simp at hlayout
  have hcomment : c ≠ '#' := by
    rintro rfl
    exact absurd hcontrol (by decide)
  have hword : isWordChar c = false := by
    rw [Bool.eq_false_iff]
    intro hword
    rw [isControl_of_isWordChar hword] at hcontrol
    cases hcontrol
  rw [scanFrom_gaps h, Position.advanceAll_after, scanFrom, if_neg (by simp [hgap]), if_neg hline,
    if_neg hcomment, if_neg (by simp [hword]), if_pos hcontrol]

/-- **Every source is cut into pieces**, up to a gap that ends it or a stray character. Nothing
before is stray. -/
theorem exists_cut (before source : List Char) (h : AtBorder before source) :
    ∃ pieces gap rest, source = textAll pieces ++ (gap ++ rest) ∧
      Cut before pieces (gap ++ rest) ∧ (∀ p ∈ pieces, p.located.token ≠ .eof) ∧
      (∀ c ∈ gap, isGap c = true) ∧ NoStray before (textAll pieces ++ gap) ∧
      (rest = [] ∨ ∃ c more, rest = c :: more ∧ IsStray (before ++ textAll pieces ++ gap) c) := by
  induction hn : source.length using Nat.strong_induction_on generalizing before source with
  | _ n ih =>
  obtain ⟨gap, rest, rfl, hgap, hrest⟩ : ∃ gap rest, source = gap ++ rest ∧
      (∀ c ∈ gap, isGap c = true) ∧ ∀ c ∈ rest.head?, isGap c = false := by
    refine ⟨source.takeWhile isGap, source.dropWhile isGap,
      List.takeWhile_append_dropWhile.symm, fun c hc => List.mem_takeWhile_imp hc, fun c hc => ?_⟩
    have hnot := List.head?_dropWhile_not isGap source
    rw [Option.mem_def.mp hc] at hnot
    simpa using hnot
  have hplain : NoStray before gap := .of_forall (fun c hc => (isGap_excludes (hgap c hc)).2.2.2) _
  cases rest with
  | nil => exact ⟨[], gap, [], rfl, trivial, by simp, hgap, hplain, .inl rfl⟩
  | cons c more =>
      have hborder := h.gap hgap
      rcases exists_lexeme_or_isStray hborder (hrest c rfl) with
        ⟨lexeme, after, token, heq, hlexeme, hne⟩ | hstray
      · rw [heq] at hborder hn ⊢
        have hlength := List.length_pos_iff.mpr (hlexeme.ne_nil hne)
        rw [List.length_append, List.length_append] at hn
        obtain ⟨pieces, gap', rest', rfl, hcut, htokens, hgap', hplain', hstop⟩ :=
          ih after.length (by omega) (before ++ gap ++ lexeme) after (hlexeme.atBorder hborder) rfl
        let p : Piece := ⟨gap, lexeme, ⟨token, .after (before ++ gap)⟩⟩
        have htext : before ++ gap ++ lexeme = before ++ p.text := List.append_assoc _ _ _
        rw [htext] at hcut hplain' hstop
        refine ⟨p :: pieces, gap', rest', ?_, ⟨⟨hgap, hlexeme, rfl⟩, hcut⟩,
          List.forall_mem_cons.mpr ⟨hne, htokens⟩, hgap', ?_, ?_⟩
        · rw [textAll_cons, text]
          simp only [List.append_assoc]
          rfl
        · rw [textAll_cons, List.append_assoc]
          exact (hplain.append hlexeme.noStray).append hplain'
        · rwa [textAll_cons, ← List.append_assoc]
      · exact ⟨[], gap, c :: more, rfl, trivial, by simp, hgap, hplain,
          .inr ⟨c, more, rfl, by simpa [textAll] using hstray⟩⟩

/-! ### Sources -/

/-- The pieces make up the source and have its tokens. The end of the input is the token of the last
piece, which has no characters, and of no other. -/
structure Partition (source : List Char) (tokens : List Located) (pieces : List Piece) :
    Prop where
  source_eq : source = textAll pieces
  tokens_eq : tokens = pieces.map located
  fits : ∀ front p back, pieces = front ++ p :: back → p.Fits (textAll front) (textAll back)
  eof : ∃ front last, pieces = front ++ [last] ∧ last.located.token = .eof ∧ last.lexeme = [] ∧
    ∀ p ∈ front, p.located.token ≠ .eof

/-- A source with a partition is scanned as the tokens of the pieces. -/
theorem Partition.scanFrom_eq {source : List Char} {tokens : List Located} {pieces : List Piece}
    (h : Partition source tokens pieces) : scanFrom (.after []) source = .ok tokens := by
  obtain ⟨rfl, rfl, hfits, front, last, rfl, heof, hlexeme, hne⟩ := h
  have hlast : last.Fits (textAll front) [] := hfits front last [] rfl
  have hfront : Cut [] front last.text := by
    refine cut_iff.mpr fun front' p back heq => ?_
    have hp := hfits front' p (back ++ [last]) (by rw [heq]; simp)
    rwa [textAll_append, show textAll [last] = last.text by simp [textAll]] at hp
  have hlocated : last.located = ⟨.eof, .after (textAll front ++ last.gap)⟩ := by
    rw [← hlast.position, ← heof]
  rw [textAll_append, show textAll [last] = last.text by simp [textAll],
    hfront.scanFrom_append hne, List.nil_append, text, hlexeme, List.append_nil,
    scanFrom_gap_eof hlast.gap, ← hlocated, List.map_append]
  rfl

/-- A source has a partition and no stray character, or its first stray character is reported. -/
theorem exists_partition_or_stray (source : List Char) :
    (NoStray [] source ∧ ∃ tokens pieces, Partition source tokens pieces) ∨
      ∃ before c after, source = before ++ c :: after ∧ IsStray before c ∧ NoStray [] before ∧
        scanFrom (.after []) source = .error ⟨.after before, c⟩ := by
  obtain ⟨pieces, gap, rest, rfl, hcut, hne, hgap, hplain, rfl | ⟨c, more, rfl, hstray⟩⟩ :=
    exists_cut [] source (.start source)
  · rw [List.append_nil] at hcut ⊢
    let last : Piece := ⟨gap, [], ⟨.eof, .after (textAll pieces ++ gap)⟩⟩
    have hlast : textAll [last] = gap := by simp [textAll, text, last]
    have hcut' : Cut [] (pieces ++ [last]) [] := by
      refine Cut.append ?_ ⟨⟨hgap, .eof rfl, rfl⟩, trivial⟩
      rwa [hlast, List.append_nil]
    refine .inl ⟨hplain, (pieces ++ [last]).map located, pieces ++ [last], ?_, rfl, ?_,
      pieces, last, rfl, rfl, rfl, hne⟩
    · rw [textAll_append, hlast]
    · simpa using cut_iff.mp hcut'
  · refine .inr ⟨textAll pieces ++ gap, c, more, by simp, by simpa using hstray, hplain, ?_⟩
    rw [List.nil_append] at hstray
    rw [hcut.scanFrom_append hne, List.nil_append, scanFrom_gap_stray hgap hstray]
    rfl

/-- Each token of a source that is scanned has characters in it. -/
theorem exists_lexeme_of_mem_scan {source : String} {tokens : List Located}
    (h : scan source = .ok tokens) {t : Located} (ht : t ∈ tokens) :
    ∃ before after lexeme, Lexeme before after lexeme t.token := by
  have hscan : scan source = scanFrom (.after []) source.toList := rfl
  rcases exists_partition_or_stray source.toList with
    ⟨-, tokens', pieces, hpartition⟩ | ⟨_, _, _, -, -, -, herror⟩
  · rw [hscan, hpartition.scanFrom_eq, Except.ok.injEq] at h
    rw [← h, hpartition.tokens_eq] at ht
    obtain ⟨p, hp, rfl⟩ := List.mem_map.mp ht
    obtain ⟨front, back, hpieces⟩ := List.append_of_mem hp
    exact ⟨_, _, _, (hpartition.fits front p back hpieces).lexeme⟩
  · rw [hscan, herror] at h
    cases h

/-- **Scanning cuts a source into its tokens, or finds the first stray character.** It fails exactly
if some character is stray, and then reports the first one, with its place. Otherwise the source is
a list of pieces one after another, one for each token in order. In each piece the gap separates
tokens, the characters are those of the token, and the place is that of the first of them. -/
theorem scan_partition (source : String) :
    ((∃ e, scan source = .error e) ↔
      ∃ before c after, source.toList = before ++ c :: after ∧ IsStray before c) ∧
    (∀ e, scan source = .error e →
      ∃ before after, source.toList = before ++ e.char :: after ∧ IsStray before e.char ∧
        e.position = .after before ∧
        ∀ earlier c later, before = earlier ++ c :: later → ¬ IsStray earlier c) ∧
    ∀ tokens, scan source = .ok tokens ↔ ∃ pieces, Partition source.toList tokens pieces := by
  have hscan : scan source = scanFrom (.after []) source.toList := rfl
  rw [hscan]
  rcases exists_partition_or_stray source.toList with
    ⟨hplain, tokens, pieces, h⟩ | ⟨before, c, after, hsource, hstray, hfirst, herror⟩
  · rw [h.scanFrom_eq]
    refine ⟨⟨?_, ?_⟩, ?_, fun tokens' => ⟨?_, ?_⟩⟩
    · rintro ⟨e, he⟩
      cases he
    · rintro ⟨before, c, after, hsource, hstray⟩
      exact absurd hstray (hplain before c after hsource)
    · intro e he
      cases he
    · intro heq
      exact ⟨pieces, Except.ok.inj heq ▸ h⟩
    · rintro ⟨pieces', h'⟩
      rw [← h.scanFrom_eq, h'.scanFrom_eq]
  · rw [herror]
    refine ⟨⟨fun _ => ⟨before, c, after, hsource, hstray⟩, fun _ => ⟨_, rfl⟩⟩, ?_,
      fun tokens => ⟨?_, ?_⟩⟩
    · intro e he
      obtain rfl := Except.error.inj he
      exact ⟨before, after, hsource, hstray, rfl, hfirst⟩
    · intro heq
      cases heq
    · rintro ⟨pieces, h⟩
      rw [← herror, h.scanFrom_eq]

/-- The bell in the comment is passed over, and the one on the second line is reported, behind a tab
and a word of three characters. A word, a sign and a comment need no gap between them, and the
blanks around the text of the comment, a tab and a carriage return among them, are not part of it.
-/
theorem scan_partition_bell :
    scan "go # \x07\n\tA_1\x07" = .error ⟨⟨2, 5⟩, '\x07'⟩ ∧
    (∃ before after, "go # \x07\n\tA_1\x07".toList = before ++ '\x07' :: after ∧
      IsStray before '\x07' ∧ ⟨2, 5⟩ = Position.after before) ∧
    ∃ pieces, Partition "go-1!#\t two  words \r\n".toList
      [⟨.ident "go-1", ⟨1, 1⟩⟩, ⟨.other "!", ⟨1, 5⟩⟩, ⟨.comment "two  words", ⟨1, 6⟩⟩,
        ⟨.newline, ⟨1, 21⟩⟩, ⟨.eof, ⟨2, 1⟩⟩]
      pieces := by
  have hbell : scan "go # \x07\n\tA_1\x07" = .error ⟨⟨2, 5⟩, '\x07'⟩ := by decide +kernel
  have hword : scan "go-1!#\t two  words \r\n" = .ok
      [⟨.ident "go-1", ⟨1, 1⟩⟩, ⟨.other "!", ⟨1, 5⟩⟩, ⟨.comment "two  words", ⟨1, 6⟩⟩,
        ⟨.newline, ⟨1, 21⟩⟩, ⟨.eof, ⟨2, 1⟩⟩] := by decide +kernel
  obtain ⟨before, after, hsource, hstray, hposition, -⟩ := (scan_partition _).2.1 _ hbell
  exact ⟨hbell, ⟨before, after, hsource, hstray, hposition⟩,
    ((scan_partition _).2.2 _).mp hword⟩

end RobotScript
