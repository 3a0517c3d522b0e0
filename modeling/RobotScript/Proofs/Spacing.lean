import Mathlib.Tactic
import RobotScript.Proofs.RoundTrip

/-!
# Layout between tokens

Spaces, tabs, carriage returns, line ends and comments stand between the tokens of a source for its
readers. Here a source is described from its tokens: it writes each of them as it is spelled, with
some layout between two of them, and with layout before the first and after the last or without.
Such a source is scanned as these tokens, so that all sources of the same tokens are read as the
same program, or are at fault for the same reason. Conversely, a source whose tokens are words is
scanned as tokens that it writes in this sense.

## Main definitions

* `Token.Lexable` — the tokens that a source can write.
* `Layout`, `Trailing` — what may stand between two tokens, and after the last.
* `Spaced` — the text of tokens, from the first character of the first to the last of the last.
* `Writes` — the tokens of a source, with the layout around them.

## Main results

* `Writes.scans`: **a source is scanned as the tokens that it writes**.
* `writes_of_scanFrom`: **a source writes the words that it is scanned as**.
* `Program.parse_independent_of_layout`: **what is read does not depend on the layout**.
-/

namespace RobotScript

/-! ### Texts of tokens -/

/-- A source can contain the token: it is a word, or a sign by itself. -/
inductive Token.Lexable : Token → Prop
  | word (word : String) : word ≠ "" → (∀ c ∈ word.toList, isWordChar c = true) →
      Lexable (.ofWord word)
  | sign (c : Char) : isSign c = true → Lexable (.other (String.singleton c))

/-- Blank characters and comments, each comment with the line end after it. -/
inductive Layout : List Char → Prop
  | nil : Layout []
  | blank {c : Char} {rest : List Char} : c ∈ [' ', '\t', '\r', '\n'] → Layout rest →
      Layout (c :: rest)
  | comment {text rest : List Char} : '\n' ∉ text → Layout rest →
      Layout ('#' :: text ++ '\n' :: rest)

/-- Layout that may end with a comment without a line end. -/
inductive Trailing : List Char → Prop
  | closed {text : List Char} : Layout text → Trailing text
  | comment {before text : List Char} : Layout before → '\n' ∉ text →
      Trailing (before ++ '#' :: text)

/-- The tokens as they are spelled, with layout between any two of them. -/
inductive Spaced : List Token → List Char → Prop
  | nil : Spaced [] []
  | single {token : Token} : token.Lexable → Spaced [token] token.spelling.toList
  | cons {token next : Token} {tokens : List Token} {gap rest : List Char} :
      token.Lexable → Layout gap → gap ≠ [] → Spaced (next :: tokens) rest →
      Spaced (token :: next :: tokens) (token.spelling.toList ++ gap ++ rest)

/-- The source is the text of the tokens, with layout around it. -/
def Writes (tokens : List Token) (source : List Char) : Prop :=
  ∃ before body after, Layout before ∧ Spaced tokens body ∧ Trailing after ∧
    source = before ++ body ++ after

/-- The first character of a token is part of a word, or the token is a sign. -/
theorem Token.Lexable.exists_spelling_eq_cons {token : Token} (h : token.Lexable) :
    ∃ c more, token.spelling.toList = c :: more ∧
      (isWordChar c = true ∨ isSign c = true ∧ token = .other (String.singleton c)) := by
  cases h with
  | word word hne hchars =>
      rw [spelling_ofWord]
      obtain ⟨c, more, hword⟩ := List.exists_cons_of_ne_nil (mt String.toList_eq_nil_iff.mp hne)
      exact ⟨c, more, hword, .inl (hchars c (by rw [hword]; exact List.mem_cons_self))⟩
  | sign c hc => exact ⟨c, [], String.toList_singleton c, .inr ⟨hc, rfl⟩⟩

/-- A text of tokens starts with the first of them. -/
theorem Spaced.exists_eq_append {token : Token} {tokens : List Token} {text : List Char}
    (h : Spaced (token :: tokens) text) :
    token.Lexable ∧ ∃ rest, text = token.spelling.toList ++ rest := by
  cases h with
  | single hlexable => exact ⟨hlexable, [], (List.append_nil _).symm⟩
  | cons hlexable _ _ _ => exact ⟨hlexable, _, List.append_assoc _ _ _⟩

/-- A word that is scanned as a token can be written. -/
theorem Spells.lexable {word : String} {token : Token} (h : Spells word token) :
    token.Lexable := by
  obtain ⟨hne, hchars, rfl⟩ := h
  exact .word word (mt String.toList_eq_nil_iff.mpr hne) hchars

/-! ### From layout to tokens -/

/-- A word ends where there is some layout. -/
theorem Layout.endsWord {gap : List Char} (h : Layout gap) (hne : gap ≠ []) (rest : List Char) :
    EndsWord (gap ++ rest) := by
  cases h with
  | nil => exact absurd rfl hne
  | blank hc _ =>
      refine .of_cons ?_ _
      fin_cases hc <;> rfl
  | comment _ _ => exact .of_cons rfl _

/-- A word ends at the end of a source. -/
theorem Trailing.endsWord {text : List Char} (h : Trailing text) : EndsWord text := by
  cases h with
  | closed hlayout =>
      by_cases hne : text = []
      · rw [hne]
        rintro c ⟨⟩
      · simpa using hlayout.endsWord hne []
  | @comment before text hlayout _ =>
      by_cases hne : before = []
      · rw [hne]
        exact .of_cons rfl _
      · exact hlayout.endsWord hne _

/-- Layout is passed over. -/
theorem Layout.scans {gap rest : List Char} {tokens : List Token} (h : Layout gap)
    (hrest : Scans rest tokens) : Scans (gap ++ rest) tokens := by
  induction h with
  | nil => exact hrest
  | @blank c _ hc _ ih =>
      by_cases hline : c = '\n'
      · subst hline
        exact ih.lineEnd
      · refine ih.gap ?_
        simpa [isGap, hline, or_assoc] using hc
  | comment htext _ ih =>
      rw [List.append_assoc, List.cons_append]
      exact ih.comment htext

/-- There are no tokens at the end of a source. -/
theorem Trailing.scans {text : List Char} (h : Trailing text) : Scans text [] := by
  cases h with
  | closed hlayout => simpa using hlayout.scans .nil
  | comment hlayout htext => exact hlayout.scans (.lastComment htext)

/-- A token is scanned before what does not go on with a word. -/
theorem Token.Lexable.scans {token : Token} (h : token.Lexable) {rest : List Char}
    {tokens : List Token} (hends : EndsWord rest) (hrest : Scans rest tokens) :
    Scans (token.spelling.toList ++ rest) (token :: tokens) := by
  cases h with
  | word word hne hchars =>
      have hscans := Scans.word (mt String.toList_eq_nil_iff.mp hne) hchars hends hrest
      rw [String.ofList_toList] at hscans
      rwa [spelling_ofWord]
  | sign c hc =>
      have hscans := hrest.sign hc
      rwa [spelling, String.toList_singleton]

/-- A text of tokens is scanned before what does not go on with a word. -/
theorem Spaced.scans {tokens more : List Token} {text rest : List Char} (h : Spaced tokens text)
    (hends : EndsWord rest) (hrest : Scans rest more) : Scans (text ++ rest) (tokens ++ more) := by
  induction h with
  | nil => exact hrest
  | single hlexable => exact hlexable.scans hends hrest
  | cons hlexable hgap hne _ ih =>
      rw [List.append_assoc, List.append_assoc]
      exact hlexable.scans (hgap.endsWord hne _) (hgap.scans ih)

/-- **A source is scanned as the tokens that it writes.** -/
theorem Writes.scans {tokens : List Token} {source : List Char} (h : Writes tokens source) :
    Scans source tokens := by
  obtain ⟨before, body, after, hbefore, hbody, hafter, rfl⟩ := h
  rw [List.append_assoc]
  have hscans := hbody.scans hafter.endsWord hafter.scans
  rw [List.append_nil] at hscans
  exact hbefore.scans hscans

/-! ### From tokens to layout -/

theorem Layout.append {text rest : List Char} (h : Layout text) (hrest : Layout rest) :
    Layout (text ++ rest) := by
  induction h with
  | nil => exact hrest
  | blank hc _ ih => exact .blank hc ih
  | comment htext _ ih =>
      rw [List.append_assoc, List.cons_append]
      exact .comment htext ih

theorem Trailing.prepend {text rest : List Char} (h : Layout text) (hrest : Trailing rest) :
    Trailing (text ++ rest) := by
  cases hrest with
  | closed hlayout => exact .closed (h.append hlayout)
  | comment hlayout htext =>
      rw [← List.append_assoc]
      exact .comment (h.append hlayout) htext

/-- More layout may stand before the first token. -/
theorem Writes.prepend {tokens : List Token} {text source : List Char}
    (h : Writes tokens source) (htext : Layout text) : Writes tokens (text ++ source) := by
  obtain ⟨before, body, after, hbefore, hbody, hafter, rfl⟩ := h
  exact ⟨text ++ before, body, after, htext.append hbefore, hbody, hafter, by simp⟩

/-- A blank character may stand before the first token. -/
theorem Writes.blank {tokens : List Token} {c : Char} {source : List Char}
    (hc : c ∈ [' ', '\t', '\r', '\n']) (h : Writes tokens source) : Writes tokens (c :: source) :=
  h.prepend (.blank hc .nil)

/-- A comment may stand before the first token. -/
theorem Writes.comment {tokens : List Token} {text source : List Char} (htext : '\n' ∉ text)
    (h : Writes tokens source) : Writes tokens ('#' :: (text ++ '\n' :: source)) := by
  have hlayout : Layout ('#' :: text ++ '\n' :: []) := .comment htext .nil
  simpa using h.prepend hlayout

/-- Where there are no tokens, a source is layout. -/
theorem Writes.of_trailing {text : List Char} (h : Trailing text) : Writes [] text :=
  ⟨[], [], text, .nil, .nil, h, rfl⟩

/-- The layout after a line end. -/
theorem Layout.of_lineEnd {rest : List Char} (h : Layout ('\n' :: rest)) : Layout rest := by
  generalize htext : '\n' :: rest = text at h
  cases h with
  | nil => cases htext
  | blank _ hrest =>
      obtain ⟨-, rfl⟩ := List.cons.inj htext
      exact hrest
  | comment _ _ => cases htext

theorem Trailing.of_lineEnd {rest : List Char} (h : Trailing ('\n' :: rest)) : Trailing rest := by
  generalize htext : '\n' :: rest = text at h
  cases h with
  | closed hlayout =>
      subst htext
      exact .closed hlayout.of_lineEnd
  | @comment before text hlayout hcomment =>
      cases before with
      | nil => cases htext
      | cons c before =>
          obtain ⟨rfl, rfl⟩ := List.cons.inj htext
          exact .comment hlayout.of_lineEnd hcomment

/-- A line end before the first token belongs to the layout there. -/
theorem Writes.of_lineEnd {tokens : List Token} {rest : List Char}
    (h : Writes tokens ('\n' :: rest)) : Writes tokens rest := by
  obtain ⟨before, body, after, hbefore, hbody, hafter, hsource⟩ := h
  cases before with
  | cons c before =>
      obtain ⟨rfl, rfl⟩ := List.cons.inj hsource
      exact ⟨before, body, after, hbefore.of_lineEnd, hbody, hafter, rfl⟩
  | nil =>
      cases tokens with
      | nil =>
          cases hbody
          obtain rfl : '\n' :: rest = after := hsource
          exact .of_trailing hafter.of_lineEnd
      | cons token tokens =>
          obtain ⟨hlexable, more, rfl⟩ := hbody.exists_eq_append
          obtain ⟨c, spelled, hspelling, hc⟩ := hlexable.exists_spelling_eq_cons
          rw [hspelling] at hsource
          obtain rfl : '\n' = c := (List.cons.inj hsource).1
          rcases hc with hword | ⟨hsign, -⟩
          · exact absurd hword (by decide)
          · exact absurd hsign (by decide)

/-- There is no sign among the tokens. -/
def NoSigns (tokens : List Token) : Prop :=
  ∀ c, isSign c = true → Token.other (String.singleton c) ∉ tokens

/-- One more word may stand before tokens that are words, if it does not go on into the layout
between them. -/
theorem Writes.word {word rest : List Char} {tokens : List Token} (hne : word ≠ [])
    (hword : ∀ c ∈ word, isWordChar c = true) (hends : EndsWord rest) (hsigns : NoSigns tokens)
    (h : Writes tokens rest) : Writes (.ofWord (String.ofList word) :: tokens) (word ++ rest) := by
  have hlexable : (Token.ofWord (String.ofList word)).Lexable :=
    .word _ (by simpa using hne) (by simpa using hword)
  have hspelling : (Token.ofWord (String.ofList word)).spelling.toList = word := by
    rw [Token.spelling_ofWord, String.toList_ofList]
  obtain ⟨before, body, after, hbefore, hbody, hafter, rfl⟩ := h
  cases tokens with
  | nil =>
      cases hbody
      have hsingle := Spaced.single hlexable
      rw [hspelling] at hsingle
      exact ⟨[], word, before ++ after, .nil, hsingle, .prepend hbefore hafter, by simp⟩
  | cons next tokens =>
      -- without layout the first character of the next token would go on with the word
      have hgap : before ≠ [] := by
        rintro rfl
        obtain ⟨hnext, more, rfl⟩ := hbody.exists_eq_append
        obtain ⟨c, spelled, hspelled, hc⟩ := hnext.exists_spelling_eq_cons
        have hnot : isWordChar c = false := hends c (by simp [hspelled])
        rcases hc with hc | ⟨hsign, rfl⟩
        · rw [hnot] at hc
          cases hc
        · exact hsigns c hsign List.mem_cons_self
      have hcons := Spaced.cons hlexable hbefore hgap hbody
      rw [hspelling] at hcons
      exact ⟨[], _, after, .nil, hcons, hafter, by simp⟩

/-- There are no tokens before an end of input that comes first. -/
theorem eq_nil_of_map_append_eof {stop : Position} {tokens : List Token}
    (h : (([⟨.eof, stop⟩] : List Located).filter fun t => !t.token.isLayout).map Located.token =
      tokens ++ [.eof]) : tokens = [] := by
  have hlength := congrArg List.length h
  rw [List.length_append] at hlength
  exact List.length_eq_zero_iff.mp (Nat.succ_injective hlength.symm)

/-- The tokens after one that is kept. -/
theorem eq_cons_of_map_append_eof {t : Located} {later : List Located} {tokens : List Token}
    (hkept : t.token.isLayout = false) (hproper : t.token ≠ .eof)
    (h : ((t :: later).filter fun t => !t.token.isLayout).map Located.token = tokens ++ [.eof]) :
    ∃ tokens', tokens = t.token :: tokens' ∧
      (later.filter fun t => !t.token.isLayout).map Located.token = tokens' ++ [.eof] := by
  rw [List.filter_cons_of_pos (by simp [hkept]), List.map_cons] at h
  cases tokens with
  | nil => exact absurd (List.cons.inj h).1 hproper
  | cons token tokens =>
      obtain ⟨rfl, hlater⟩ := List.cons.inj h
      exact ⟨tokens, rfl, hlater⟩

/-- **A source writes the words that it is scanned as.** -/
theorem writes_of_scanFrom {position : Position} {source : List Char} {located : List Located}
    {tokens : List Token} (h : scanFrom position source = .ok located)
    (htokens : (located.filter fun t => !t.token.isLayout).map Located.token = tokens ++ [.eof])
    (hsigns : NoSigns tokens) : Writes tokens source := by
  fun_induction scanFrom position source generalizing located tokens with
  | case1 position =>
      obtain rfl := Except.ok.inj h
      obtain rfl := eq_nil_of_map_append_eof htokens
      exact .of_trailing (.closed .nil)
  | case2 position c rest hgap ih =>
      have hblank : (c = ' ' ∨ c = '\t') ∨ c = '\r' := by simpa [isGap] using hgap
      refine .blank ?_ (ih h htokens hsigns)
      simp only [List.mem_cons]
      tauto
  | case3 position rest hgap ih =>
      obtain ⟨later, hlater, rfl⟩ := eq_cons_of_scan h
      exact .blank (by simp) (ih hlater htokens hsigns)
  | case4 position rest text hgap hline =>
      rename_i ih
      obtain ⟨later, hlater, rfl⟩ := eq_cons_of_scan h
      have htext : '\n' ∉ text := fun hmem => by
        simpa [isInLine] using List.mem_takeWhile_imp hmem
      have hhead := List.head?_dropWhile_not isInLine rest
      have hrest : text ++ rest.dropWhile isInLine = rest := List.takeWhile_append_dropWhile
      rw [← hrest]
      cases hafter : rest.dropWhile isInLine with
      | nil =>
          rw [hafter, scanFrom] at hlater
          obtain rfl := Except.ok.inj hlater
          obtain rfl := eq_nil_of_map_append_eof htokens
          rw [List.append_nil]
          exact .of_trailing (.comment .nil htext)
      | cons d after =>
          rw [hafter] at hhead
          obtain rfl : d = '\n' := by simpa [isInLine] using hhead
          have hwrites := ih hlater htokens hsigns
          rw [hafter] at hwrites
          exact .comment htext hwrites.of_lineEnd
  | case5 position c rest hgap hline hcomment hword word =>
      rename_i ih
      obtain ⟨later, hlater, rfl⟩ := eq_cons_of_scan h
      obtain ⟨tokens', rfl, htokens'⟩ :=
        eq_cons_of_map_append_eof (Token.isLayout_ofWord _) (Token.ofWord_isProper _).1 htokens
      have hsigns' : NoSigns tokens' := fun c hc hmem => hsigns c hc (List.mem_cons_of_mem _ hmem)
      have hchars : ∀ d ∈ word, isWordChar d = true :=
        List.forall_mem_cons.mpr ⟨hword, fun d hd => List.mem_takeWhile_imp hd⟩
      have hends : EndsWord (rest.dropWhile isWordChar) := fun d hd => by
        have hhead := List.head?_dropWhile_not isWordChar rest
        rw [Option.mem_def.mp hd] at hhead
        exact hhead
      have hwrites := Writes.word (List.cons_ne_nil c _) hchars hends hsigns'
        (ih hlater htokens' hsigns')
      rwa [List.cons_append, List.takeWhile_append_dropWhile] at hwrites
  | case6 => cases h
  | case7 position c rest hgap hline hcomment hword hcontrol ih =>
      obtain ⟨later, hlater, rfl⟩ := eq_cons_of_scan h
      obtain ⟨tokens', rfl, -⟩ := eq_cons_of_map_append_eof rfl (by simp) htokens
      have hspace : c ≠ ' ' := by
        rintro rfl
        exact hgap rfl
      have hsign : isSign c = true := by simp [isSign, hword, hspace, hcomment, hcontrol]
      exact absurd List.mem_cons_self (hsigns c hsign)

/-! ### Reading -/

/-- A source that is scanned as tokens is, without comments and line ends, these tokens and the end
of the input. -/
theorem Scans.exists_scanProgram {source : String} {tokens : List Token}
    (h : Scans source.toList tokens) :
    ∃ located, scanProgram source = .ok located ∧
      located.map Located.token = tokens ++ [.eof] := by
  obtain ⟨located, hscan, htokens⟩ := h .start
  refine ⟨_, ?_, htokens⟩
  rw [scanProgram, scan, hscan]
  rfl

/-- The tokens of a feed are those before the first end of input. -/
theorem Feed.map_token_ofTokens (tokens : List Located) :
    (Feed.ofTokens tokens).tokens.map Located.token =
      (tokens.map Located.token).takeWhile (· != .eof) := by
  rw [List.takeWhile_map]
  rfl

/-- **What is read does not depend on the layout.** A source that writes some tokens is scanned as
exactly these and the end of the input. Two sources that write the same tokens are read as the same
program, or both have the same fault, perhaps at different places. -/
theorem Program.parse_independent_of_layout {tokens : List Token} {source source' : String}
    (h : Writes tokens source.toList) (h' : Writes tokens source'.toList) :
    (∃ located, scanProgram source = .ok located ∧
      located.map Located.token = tokens ++ [.eof]) ∧
    ((∃ p, Program.parse source = .ok p ∧ Program.parse source' = .ok p) ∨
      ∃ fault place place', Program.parse source = .error (.fault place fault) ∧
        Program.parse source' = .error (.fault place' fault)) := by
  obtain ⟨located, hscan, htokens⟩ := h.scans.exists_scanProgram
  obtain ⟨located', hscan', htokens'⟩ := h'.scans.exists_scanProgram
  refine ⟨⟨located, hscan, htokens⟩, ?_⟩
  have hsame : (Feed.ofTokens located).tokens.map Located.token =
      (Feed.ofTokens located').tokens.map Located.token := by
    rw [Feed.map_token_ofTokens, Feed.map_token_ofTokens, htokens, htokens']
  rw [Program.parse, Program.parse, hscan, hscan']
  exact Reader.runFrom_of_map_token_eq hsame

/-- The tokens of a program with a sign that has no place in it. -/
def spyTokens : List Token :=
  [.keyword .programKw, .ident "Spy", .keyword .isKw, .keyword .beginKw, .ident "hop", .other ";",
    .keyword .endKw, .ident "Spy"]

/-- These tokens on one line, and spread out with comments in between, one of which holds a control
character and one of which nothing ends, are at fault for the same reason. -/
theorem Program.parse_independent_of_layout_spy :
    Program.parse "PROGRAM Spy IS BEGIN hop ; END Spy" =
      .error (.fault ⟨1, 26⟩ (.unexpected (.keyword .endKw) (.other ";"))) ∧
    ∃ place, Program.parse "#\x07 spy\r\nPROGRAM\tSpy#;\n IS BEGIN\r\thop\n;\tEND Spy#END" =
      .error (.fault place (.unexpected (.keyword .endKw) (.other ";"))) := by
  have hkeyword := fun k => (spells_keyword k).lexable
  have hspy : (Token.ident "Spy").Lexable := (spells_identifier rfl).lexable
  have hhop : (Token.ident "hop").Lexable := (spells_identifier rfl).lexable
  have hsign : (Token.other ";").Lexable := .sign ';' rfl
  have hspace : Layout [' '] := .blank (by simp) .nil
  have htab : Layout ['\t'] := .blank (by simp) .nil
  have hreturn : Layout ['\r', '\t'] := .blank (by simp) htab
  have hnewline : Layout ['\n'] := .blank (by simp) .nil
  have hcomment : Layout ('#' :: [';'] ++ '\n' :: [' ']) := .comment (by simp) hspace
  have hfirst : Layout ('#' :: ['\x07', ' ', 's', 'p', 'y', '\r'] ++ '\n' :: []) :=
    .comment (by simp) .nil
  have hlast : Trailing ([] ++ '#' :: ['E', 'N', 'D']) := .comment .nil (by simp)
  have hline : Spaced spyTokens _ :=
    .cons (hkeyword .programKw) hspace (by simp) <| .cons hspy hspace (by simp) <|
    .cons (hkeyword .isKw) hspace (by simp) <| .cons (hkeyword .beginKw) hspace (by simp) <|
    .cons hhop hspace (by simp) <| .cons hsign hspace (by simp) <|
    .cons (hkeyword .endKw) hspace (by simp) <| .single hspy
  have hspread : Spaced spyTokens _ :=
    .cons (hkeyword .programKw) htab (by simp) <| .cons hspy hcomment (by simp) <|
    .cons (hkeyword .isKw) hspace (by simp) <| .cons (hkeyword .beginKw) hreturn (by simp) <|
    .cons hhop hnewline (by simp) <| .cons hsign htab (by simp) <|
    .cons (hkeyword .endKw) hspace (by simp) <| .single hspy
  have hwrites : Writes spyTokens "PROGRAM Spy IS BEGIN hop ; END Spy".toList :=
    ⟨[], _, [], .nil, hline, .closed .nil, rfl⟩
  have hwrites' : Writes spyTokens
      "#\x07 spy\r\nPROGRAM\tSpy#;\n IS BEGIN\r\thop\n;\tEND Spy#END".toList :=
    ⟨_, _, _, hfirst, hspread, hlast, rfl⟩
  have hparse : Program.parse "PROGRAM Spy IS BEGIN hop ; END Spy" =
      .error (.fault ⟨1, 26⟩ (.unexpected (.keyword .endKw) (.other ";"))) := by decide +kernel
  refine ⟨hparse, ?_⟩
  rcases (parse_independent_of_layout hwrites hwrites').2 with ⟨p, hp, -⟩ | ⟨f, at₁, at₂, hf, hf'⟩
  · rw [hparse] at hp
    cases hp
  · rw [hparse] at hf
    cases hf
    exact ⟨at₂, hf'⟩

end RobotScript
