import Mathlib.Data.List.Forall2
import Mathlib.Data.List.TakeWhile
import RobotScript.Program.Layout
import RobotScript.Token.Scan

/-!
# What scanning finds

Two facts about splitting a source into tokens. Whatever the source, the tokens end with the only
end of input, and every name among them is an identifier. And a source that is laid out in lines of
words has the tokens of its words, whatever the indentation. The second goes from the end of the
source to its beginning, one word, sign or piece of layout at a time.

## Main definitions

* `isSign` — the characters that are tokens by themselves.
* `EndsWord` — what can stand behind a word.
* `Scans` — a source and its tokens, without comments and line ends.
* `Spells` — a word and its token.
* `Line.Show` — lines and the tokens of their words.

## Main results

* `scanFrom_eq_ok`: the end of the input stands at the end, and names are identifiers.
* `scanFrom_gap`, `scanFrom_lineEnd`, `scanFrom_comment`, `scanFrom_sign`, `scanFrom_word`: scanning
  one token at a time.
* `Line.Show.scans`: **the text of a layout has the tokens of its words**.
-/

namespace RobotScript

/-! ### Words -/

/-- A word is read as a keyword exactly if it is how the keyword is written. -/
theorem Keyword.ofWord?_eq_some_iff {word : String} {k : Keyword} :
    ofWord? word = some k ↔ word = k.spelling := by
  constructor
  · unfold ofWord?
    split <;> rintro ⟨⟩ <;> rfl
  · rintro rfl
    cases k <;> rfl

/-- The words that are keywords are those that are read as keywords. -/
theorem isKeyword_iff {word : String} :
    isKeyword word = true ↔ ∃ k, Keyword.ofWord? word = some k := by
  have hwords : Keyword.words = Keyword.all.map Keyword.spelling := rfl
  rw [isKeyword, List.contains_iff_mem, hwords, List.mem_map]
  constructor
  · rintro ⟨k, -, rfl⟩
    exact ⟨k, Keyword.ofWord?_eq_some_iff.mpr rfl⟩
  · rintro ⟨k, hk⟩
    exact ⟨k, k.mem_all, (Keyword.ofWord?_eq_some_iff.mp hk).symm⟩

/-- A word that is no keyword is not read as one. -/
theorem Keyword.ofWord?_eq_none {word : String} (h : isKeyword word = false) :
    ofWord? word = none := by
  rw [Option.eq_none_iff_forall_ne_some]
  intro k hk
  rw [isKeyword_iff.mpr ⟨k, hk⟩] at h
  cases h

/-- An identifier is its own token. -/
theorem Token.ofWord_of_isIdentifier {word : String} (h : isIdentifier word = true) :
    Token.ofWord word = .ident word := by
  have hparts := h
  simp only [isIdentifier, Bool.and_eq_true, Bool.not_eq_true', Option.isNone_iff_eq_none] at hparts
  obtain ⟨⟨-, hkeyword⟩, hcondition⟩ := hparts
  rw [ofWord, Keyword.ofWord?_eq_none hkeyword]
  simp only
  rw [hcondition]
  simp only
  rw [if_pos h]

/-- A word that is a name is an identifier. -/
theorem Token.isIdentifier_of_ofWord_eq {word name : String}
    (h : Token.ofWord word = .ident name) : isIdentifier name = true := by
  unfold ofWord at h
  split at h
  · cases h
  · split at h
    · cases h
    · split at h
      · rename_i hidentifier
        obtain rfl := Token.ident.inj h
        exact hidentifier
      · cases h

/-- The token is not the end of the input, and if it is a name it is an identifier. -/
def Token.IsProper (token : Token) : Prop :=
  token ≠ .eof ∧ ∀ name, token = .ident name → isIdentifier name = true

/-- A word is a proper token. -/
theorem Token.ofWord_isProper (word : String) : (Token.ofWord word).IsProper := by
  refine ⟨?_, fun name => Token.isIdentifier_of_ofWord_eq⟩
  unfold ofWord
  split
  · simp
  · split
    · simp
    · split
      · simp
      · simp

/-- A word is not there for the reader only. -/
theorem Token.isLayout_ofWord (word : String) : (Token.ofWord word).isLayout = false := by
  unfold ofWord
  split
  · rfl
  · split
    · rfl
    · split
      · rfl
      · rfl

/-- A character of a word neither separates tokens, nor ends a line, nor opens a comment. -/
theorem isWordChar_excludes {c : Char} (h : isWordChar c = true) :
    isGap c = false ∧ c ≠ '\n' ∧ c ≠ '#' := by
  refine ⟨?_, ?_, ?_⟩
  · rw [Bool.eq_false_iff]
    intro hgap
    simp only [isGap, Bool.or_eq_true, beq_iff_eq] at hgap
    rcases hgap with (rfl | rfl) | rfl
    · exact absurd h (by decide)
    · exact absurd h (by decide)
    · exact absurd h (by decide)
  · rintro rfl
    exact absurd h (by decide)
  · rintro rfl
    exact absurd h (by decide)

/-- The word of a token is how the token is written. -/
theorem Token.spelling_ofWord (word : String) : (Token.ofWord word).spelling = word := by
  unfold ofWord
  split
  · rename_i k hk
    exact (Keyword.ofWord?_eq_some_iff.mp hk).symm
  · split
    · rename_i c hc
      have hspelling := List.find?_some hc
      exact beq_iff_eq.mp hspelling
    · split
      · rfl
      · rfl

/-- The character is a token by itself: it is no part of a word and no space, opens no comment, and
is no control character. -/
def isSign (c : Char) : Bool :=
  !isWordChar c && c != ' ' && c != '#' && !isControl c

/-- A sign is none of the other characters. -/
theorem isSign_excludes {c : Char} (h : isSign c = true) :
    isGap c = false ∧ c ≠ '\n' ∧ c ≠ '#' ∧ isWordChar c = false ∧ isControl c = false := by
  simp only [isSign, Bool.and_eq_true, Bool.not_eq_true', bne_iff_ne] at h
  obtain ⟨⟨⟨hword, hspace⟩, hcomment⟩, hcontrol⟩ := h
  refine ⟨?_, ?_, hcomment, hword, hcontrol⟩
  · rw [Bool.eq_false_iff]
    intro hgap
    simp only [isGap, Bool.or_eq_true, beq_iff_eq] at hgap
    rcases hgap with (rfl | rfl) | rfl
    · exact hspace rfl
    · exact absurd hcontrol (by decide)
    · exact absurd hcontrol (by decide)
  · rintro rfl
    exact absurd hcontrol (by decide)

/-- No word goes on into this text. -/
def EndsWord (text : List Char) : Prop :=
  ∀ c ∈ text.head?, isWordChar c = false

/-- A character that is no part of a word ends a word. -/
theorem EndsWord.of_cons {c : Char} (hc : isWordChar c = false) (rest : List Char) :
    EndsWord (c :: rest) := by
  rintro d ⟨⟩
  exact hc

theorem EndsWord.takeWhile {text : List Char} (h : EndsWord text) :
    text.takeWhile isWordChar = [] := by
  cases text with
  | nil => rfl
  | cons c rest => exact List.takeWhile_cons_of_neg (by simp [h c rfl])

theorem EndsWord.dropWhile {text : List Char} (h : EndsWord text) :
    text.dropWhile isWordChar = text := by
  cases text with
  | nil => rfl
  | cons c rest => exact List.dropWhile_cons_of_neg (by simp [h c rfl])

/-- A text without a line end stays in its line. -/
theorem isInLine_of_mem {text : List Char} (h : '\n' ∉ text) : ∀ c ∈ text, isInLine c = true := by
  intro c hc
  have hne : c ≠ '\n' := fun heq => h (heq ▸ hc)
  simpa [isInLine] using hne

/-! ### Any source -/

/-- One more token before others. -/
theorem eq_cons_of_scan {x : Except ScanError (List Located)} {t : Located}
    {located : List Located} (h : (do let later ← x; return t :: later) = .ok located) :
    ∃ later, x = .ok later ∧ located = t :: later := by
  cases x with
  | error e => cases h
  | ok later => exact ⟨later, rfl, (Except.ok.inj h).symm⟩

/-- The end of the input stays at the end if a proper token is put before the others. -/
theorem exists_front_cons {t : Located} {later : List Located} (ht : t.token.IsProper)
    (h : ∃ front stop, later = front ++ [⟨.eof, stop⟩] ∧ ∀ u ∈ front, u.token.IsProper) :
    ∃ front stop, t :: later = front ++ [⟨.eof, stop⟩] ∧ ∀ u ∈ front, u.token.IsProper := by
  obtain ⟨front, stop, rfl, hfront⟩ := h
  exact ⟨t :: front, stop, rfl, List.forall_mem_cons.mpr ⟨ht, hfront⟩⟩

/-- **The tokens of a source end with the only end of input, and the names among them are
identifiers.** -/
theorem scanFrom_eq_ok {position : Position} {source : List Char} {located : List Located}
    (h : scanFrom position source = .ok located) :
    ∃ front stop, located = front ++ [⟨.eof, stop⟩] ∧ ∀ t ∈ front, t.token.IsProper := by
  fun_induction scanFrom position source generalizing located with
  | case1 position =>
      obtain rfl := Except.ok.inj h
      exact ⟨[], position, rfl, by simp⟩
  | case2 position c rest hgap ih => exact ih h
  | case3 position rest hgap ih =>
      obtain ⟨later, hlater, rfl⟩ := eq_cons_of_scan h
      exact exists_front_cons ⟨by simp, by simp⟩ (ih hlater)
  | case4 position rest text hgap hline =>
      rename_i ih
      obtain ⟨later, hlater, rfl⟩ := eq_cons_of_scan h
      exact exists_front_cons ⟨by simp, by simp⟩ (ih hlater)
  | case5 position c rest hgap hline hcomment hword word =>
      rename_i ih
      obtain ⟨later, hlater, rfl⟩ := eq_cons_of_scan h
      exact exists_front_cons (Token.ofWord_isProper _) (ih hlater)
  | case6 => cases h
  | case7 position c rest hgap hline hcomment hword hcontrol ih =>
      obtain ⟨later, hlater, rfl⟩ := eq_cons_of_scan h
      exact exists_front_cons ⟨by simp, by simp⟩ (ih hlater)

/-! ### One token at a time -/

section

variable {position : Position} {c : Char} {text word rest : List Char}

/-- One more token before others, as a function of these. -/
theorem scan_cons_eq_map (x : Except ScanError (List Located)) (t : Located) :
    (do let later ← x; return t :: later) = x.map (t :: ·) := by
  cases x <;> rfl

/-- A character that separates tokens is passed over. -/
theorem scanFrom_gap (hc : isGap c = true) :
    scanFrom position (c :: rest) = scanFrom (position.advance c) rest := by
  rw [scanFrom, if_pos hc]

/-- A line end is a token. -/
theorem scanFrom_lineEnd :
    scanFrom position ('\n' :: rest) =
      (scanFrom (position.advance '\n') rest).map (⟨.newline, position⟩ :: ·) := by
  rw [scanFrom, if_neg (by decide), if_pos rfl, scan_cons_eq_map]

/-- A comment is a token, up to the end of its line. -/
theorem scanFrom_comment (htext : '\n' ∉ text) (hrest : ∀ c ∈ rest.head?, c = '\n') :
    scanFrom position ('#' :: text ++ rest) =
      (scanFrom (position.advanceAll ('#' :: text)) rest).map
        (⟨.comment (String.ofList (Text.trim text)), position⟩ :: ·) := by
  have hinside := isInLine_of_mem htext
  have htake : rest.takeWhile isInLine = [] := by
    cases rest with
    | nil => rfl
    | cons d more => exact List.takeWhile_cons_of_neg (by rw [hrest d rfl]; decide)
  have hdrop : rest.dropWhile isInLine = rest := by
    cases rest with
    | nil => rfl
    | cons d more => exact List.dropWhile_cons_of_neg (by rw [hrest d rfl]; decide)
  rw [List.cons_append, scanFrom, if_neg (by decide), if_neg (by decide), if_pos rfl,
    List.takeWhile_append_of_pos hinside, List.dropWhile_append_of_pos hinside, htake, hdrop,
    List.append_nil]
  exact scan_cons_eq_map _ _

/-- A sign is a token by itself, whatever follows. -/
theorem scanFrom_sign (hc : isSign c = true) :
    scanFrom position (c :: rest) =
      (scanFrom (position.advance c) rest).map (⟨.other (String.ofList [c]), position⟩ :: ·) := by
  obtain ⟨hgap, hline, hcomment, hword, hcontrol⟩ := isSign_excludes hc
  rw [scanFrom, if_neg (by simp [hgap]), if_neg hline, if_neg hcomment, if_neg (by simp [hword]),
    if_neg (by simp [hcontrol]), scan_cons_eq_map]

/-- A word is one token, if what follows cannot go on with it. -/
theorem scanFrom_word (hne : word ≠ []) (hword : ∀ c ∈ word, isWordChar c = true)
    (hrest : EndsWord rest) :
    scanFrom position (word ++ rest) =
      (scanFrom (position.advanceAll word) rest).map
        (⟨.ofWord (String.ofList word), position⟩ :: ·) := by
  obtain ⟨c, more, rfl⟩ := List.exists_cons_of_ne_nil hne
  obtain ⟨hc, hmore⟩ := List.forall_mem_cons.mp hword
  obtain ⟨hgap, hline, hcomment⟩ := isWordChar_excludes hc
  rw [List.cons_append, scanFrom, if_neg (by simp [hgap]), if_neg hline, if_neg hcomment,
    if_pos hc, List.takeWhile_append_of_pos hmore, List.dropWhile_append_of_pos hmore,
    hrest.takeWhile, hrest.dropWhile, List.append_nil]
  exact scan_cons_eq_map _ _

end

/-! ### Sources made of words -/

/-- Wherever the source starts, these are its tokens without comments and line ends. -/
def Scans (source : List Char) (tokens : List Token) : Prop :=
  ∀ position, ∃ located, scanFrom position source = .ok located ∧
    (located.filter fun t => !t.token.isLayout).map Located.token = tokens ++ [.eof]

/-- An empty source has no tokens. -/
theorem Scans.nil : Scans [] [] := by
  intro position
  exact ⟨[⟨.eof, position⟩], by rw [scanFrom], rfl⟩

/-- A character that separates tokens is passed over. -/
theorem Scans.gap {c : Char} {rest : List Char} {tokens : List Token} (hc : isGap c = true)
    (h : Scans rest tokens) : Scans (c :: rest) tokens := by
  intro position
  obtain ⟨located, hscan, htokens⟩ := h (position.advance c)
  exact ⟨located, by rw [scanFrom_gap hc, hscan], htokens⟩

/-- A line end is left out. -/
theorem Scans.lineEnd {rest : List Char} {tokens : List Token} (h : Scans rest tokens) :
    Scans ('\n' :: rest) tokens := by
  intro position
  obtain ⟨located, hscan, htokens⟩ := h (position.advance '\n')
  exact ⟨⟨.newline, position⟩ :: located, by rw [scanFrom_lineEnd, hscan]; rfl, htokens⟩

/-- A comment is left out, up to the end of its line. -/
theorem Scans.comment {text rest : List Char} {tokens : List Token} (htext : '\n' ∉ text)
    (h : Scans rest tokens) : Scans ('#' :: text ++ '\n' :: rest) tokens := by
  intro position
  obtain ⟨located, hscan, htokens⟩ := h.lineEnd (position.advanceAll ('#' :: text))
  refine ⟨⟨.comment (String.ofList (Text.trim text)), position⟩ :: located, ?_, htokens⟩
  rw [scanFrom_comment htext (by simp), hscan]
  rfl

/-- A comment that nothing ends goes on to the end of the input. -/
theorem Scans.lastComment {text : List Char} (htext : '\n' ∉ text) : Scans ('#' :: text) [] := by
  intro position
  refine ⟨[⟨.comment (String.ofList (Text.trim text)), position⟩,
    ⟨.eof, position.advanceAll ('#' :: text)⟩], ?_, rfl⟩
  rw [← List.append_nil ('#' :: text), scanFrom_comment htext (by simp), scanFrom,
    List.append_nil]
  rfl

/-- A sign is a token by itself, whatever follows. -/
theorem Scans.sign {c : Char} {rest : List Char} {tokens : List Token} (hc : isSign c = true)
    (h : Scans rest tokens) : Scans (c :: rest) (.other (String.singleton c) :: tokens) := by
  intro position
  obtain ⟨located, hscan, htokens⟩ := h (position.advance c)
  refine ⟨⟨.other (String.ofList [c]), position⟩ :: located, ?_, ?_⟩
  · rw [scanFrom_sign hc, hscan]
    rfl
  · rw [List.filter_cons_of_pos rfl, List.map_cons, htokens]
    rfl

/-- A word is one token, if what follows cannot go on with it. -/
theorem Scans.word {word rest : List Char} {tokens : List Token} (hne : word ≠ [])
    (hword : ∀ c ∈ word, isWordChar c = true) (hrest : EndsWord rest) (h : Scans rest tokens) :
    Scans (word ++ rest) (.ofWord (String.ofList word) :: tokens) := by
  intro position
  obtain ⟨located, hscan, htokens⟩ := h (position.advanceAll word)
  refine ⟨⟨.ofWord (String.ofList word), position⟩ :: located, ?_, ?_⟩
  · rw [scanFrom_word hne hword hrest, hscan]
    rfl
  · rw [List.filter_cons_of_pos (by simp [Token.isLayout_ofWord]), List.map_cons, htokens]
    rfl

/-- Any number of spaces is passed over. -/
theorem Scans.indent {rest : List Char} {tokens : List Token} (h : Scans rest tokens)
    (n : Nat) : Scans (List.replicate n ' ' ++ rest) tokens := by
  induction n with
  | zero => exact h
  | succ n ih => exact ih.gap (by decide)

/-! ### Layouts -/

/-- The word is scanned as the token. -/
structure Spells (word : String) (token : Token) : Prop where
  ne_nil : word.toList ≠ []
  chars : ∀ c ∈ word.toList, isWordChar c = true
  token_eq : Token.ofWord word = token

/-- A keyword is written as it is spelled. -/
theorem spells_keyword (k : Keyword) : Spells k.spelling (.keyword k) := by
  cases k <;> exact ⟨by decide, List.all_eq_true.mp rfl, rfl⟩

/-- A condition is written as it is spelled. -/
theorem spells_condition (c : Condition) : Spells c.spelling (.condition c) := by
  rcases c with ⟨sight, negative⟩ | _ | _
  · cases sight <;> cases negative <;> exact ⟨by decide, List.all_eq_true.mp rfl, rfl⟩
  · exact ⟨by decide, List.all_eq_true.mp rfl, rfl⟩
  · exact ⟨by decide, List.all_eq_true.mp rfl, rfl⟩

/-- An identifier is written as it is. -/
theorem spells_identifier {name : String} (h : isIdentifier name = true) :
    Spells name (.ident name) := by
  have hshape : isNameShaped name.toList = true := by
    simp only [isIdentifier, Bool.and_eq_true] at h
    exact h.1.1
  refine ⟨?_, ?_, Token.ofWord_of_isIdentifier h⟩
  · intro hnil
    rw [hnil] at hshape
    cases hshape
  · intro c hc
    cases hchars : name.toList with
    | nil =>
        rw [hchars] at hc
        cases hc
    | cons first more =>
        rw [hchars] at hshape hc
        simp only [isNameShaped, Bool.and_eq_true, List.all_eq_true] at hshape
        rcases List.mem_cons.mp hc with rfl | hmore
        · simp [isWordChar, Char.isAlphanum, hshape.1]
        · have hrest := hshape.2 c hmore
          simp only [Bool.or_eq_true] at hrest
          simp only [isWordChar, Bool.or_eq_true]
          exact .inl hrest

/-- The words of the lines, in order, are scanned as the tokens. -/
inductive Line.Show : List Line → List Token → Prop
  | nil : Show [] []
  | cons (indent : Nat) {words : List String} {tokens rest : List Token} {lines : List Line} :
      List.Forall₂ Spells words tokens → Show lines rest →
      Show (⟨indent, words⟩ :: lines) (tokens ++ rest)

/-- Lines after lines show tokens after tokens. -/
theorem Line.Show.append {lines more : List Line} {tokens rest : List Token}
    (h : Show lines tokens) (hmore : Show more rest) : Show (lines ++ more) (tokens ++ rest) := by
  induction h with
  | nil => exact hmore
  | cons indent hwords _ ih =>
      rw [List.append_assoc]
      exact .cons indent hwords ih

/-- Words with a space between two of them, up to the end of the line. -/
theorem Scans.words {words : List String} {rest : List Char} {shown tokens : List Token}
    (h : Scans rest tokens) (hwords : List.Forall₂ Spells words shown) :
    Scans ([' '].intercalate (words.map String.toList) ++ '\n' :: rest) (shown ++ tokens) := by
  induction hwords with
  | nil => exact h.lineEnd
  | @cons w token words shown hw hmore ih =>
      obtain ⟨hne, hchars, rfl⟩ := hw
      cases words with
      | nil => simpa using Scans.word hne hchars (.of_cons (by decide) rest) ih
      | cons w' words =>
          have hgap := ih.gap (c := ' ') (by decide)
          simpa [List.intercalate_cons_cons] using
            Scans.word hne hchars (.of_cons (by decide) _) hgap

/-- **The text of lines has the tokens that the lines show**, whatever their indentation. -/
theorem Line.Show.scans {lines : List Line} {tokens : List Token} (h : Line.Show lines tokens) :
    Scans (Line.textAll lines).toList tokens := by
  rw [Line.textAll, String.toList_join]
  induction h with
  | nil => exact .nil
  | cons indent hwords _ ih =>
      have hline := (ih.words hwords).indent indent
      simpa [Line.text, String.toList_intercalate] using hline

end RobotScript
