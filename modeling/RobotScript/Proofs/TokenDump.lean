import Mathlib.Tactic
import RobotScript.Token.Dump
import RobotScript.Proofs.DelimitedText
import RobotScript.Proofs.Lexemes
import RobotScript.Proofs.TextFormat

/-!
# Dumps are faithful

A dump has a line for each token. With the tokens described, nothing is lost in it: the token list
can be read off the dump, whatever texts the tokens have. The line ends are the first thing to see,
since a described token has none of its own. On a line the place comes first, up to its brackets;
the column for the kind has a fixed width, and the colour before it ends with a letter. What is left
is the description. Its class is a run of letters that no other class has, and its text is quoted.

Without descriptions a token is shown as it is written, so a line end in its text would break its
line. The tokens of a source have none.

## Main definitions

* `Token.className`, `Token.argument` — the two parts of a description.
* `DumpStyle.field`, `DumpStyle.content` — a line of a dump without the place, and without its end.

## Main results

* `Token.describe_injective`: **a token is determined by its description**.
* `DumpStyle.content_injective`: a token and its place are determined by their line.
* `lineEnd_not_mem_plainText_of_mem_scan`: a token of a source is written on one line.
* `DumpStyle.render_faithful`: **a dump has a line for each token, and with descriptions it loses
  nothing**.
-/

namespace RobotScript

open Text

/-! ### Descriptions -/

namespace Token

/-- The token without its text or condition. -/
def bare : Token → Token
  | keyword k => keyword k
  | condition _ => condition .always
  | ident _ => ident ""
  | other _ => other ""
  | comment _ => comment ""
  | newline => newline
  | eof => eof

/-- All tokens without text or condition. -/
def allBare : List Token :=
  Keyword.all.map keyword ++ [condition .always, ident "", other "", comment "", newline, eof]

/-- The name of the token's class. -/
def className : Token → String
  | keyword k => k.title
  | condition _ => "Condition"
  | ident _ => "Ident"
  | other _ => "Other"
  | comment _ => "Comment"
  | newline => "Newline"
  | eof => "Eof"

/-- What a description has after the name of the class. -/
def argument : Token → List Char
  | condition c => '(' :: c.title.toList ++ [')']
  | ident text => '(' :: (quoted text).toList ++ [')']
  | other text => '(' :: (quoted text).toList ++ [')']
  | comment text => '(' :: (quoted text).toList ++ [')']
  | _ => []

theorem bare_mem_allBare (t : Token) : t.bare ∈ allBare := by
  cases t with
  | keyword k => exact List.mem_append_left _ (List.mem_map_of_mem k.mem_all)
  | condition | ident | other | comment | newline | eof => simp [bare, allBare]

/-- What depends on the class only, and is so of all tokens without text or condition, is so of all
tokens. -/
theorem of_allBare {p : Token → Bool} (hall : allBare.all p = true)
    (hbare : ∀ t : Token, p t.bare = p t) (t : Token) : p t = true := by
  rw [← hbare]
  exact List.all_eq_true.mp hall t.bare t.bare_mem_allBare

theorem className_bare (t : Token) : t.bare.className = t.className := by
  cases t <;> rfl

theorem kind_bare (t : Token) : t.bare.kind = t.kind := by
  cases t <;> rfl

theorem colour_bare (t : Token) : t.bare.colour = t.colour := by
  cases t <;> rfl

theorem describe_toList (t : Token) : t.describe.toList = t.className.toList ++ t.argument := by
  cases t <;> simp [describe, className, argument]

/-- The name of a class is made of letters, so a description shows where it ends. -/
theorem isAlpha_of_mem_className (t : Token) : ∀ c ∈ t.className.toList, c.isAlpha = true := by
  refine List.all_eq_true.mp
    (of_allBare (p := fun t => t.className.toList.all Char.isAlpha) ?_ ?_ t)
  · decide
  · intro t
    rw [className_bare]

/-- No two classes have the same name. -/
theorem bare_eq_of_className {t t' : Token} (h : t.className = t'.className) :
    t.bare = t'.bare := by
  have hnodup : (allBare.map className).Nodup := by decide
  rw [← className_bare t, ← className_bare t'] at h
  exact List.inj_on_of_nodup_map hnodup t.bare_mem_allBare t'.bare_mem_allBare h

/-- Within its class a token is determined by what follows the name of the class. -/
theorem eq_of_bare_of_argument {t t' : Token} (hbare : t.bare = t'.bare)
    (hargument : t.argument = t'.argument) : t = t' := by
  have htitle : ∀ {c c' : Condition}, c.title.toList = c'.title.toList → c = c' := by
    intro c c' heq
    have hnodup : (Condition.all.map Condition.title).Nodup := by decide
    exact List.inj_on_of_nodup_map hnodup c.mem_all c'.mem_all (String.toList_inj.mp heq)
  have hquoted : ∀ {text text' : String}, (quoted text).toList = (quoted text').toList →
      text = text' :=
    fun heq => (quoted_append_inj (congrArg (· ++ []) heq)).1
  cases t with
  | keyword k => cases t' <;> simp_all [bare]
  | condition c =>
      cases t' with
      | condition c' => exact congrArg condition (htitle (by simpa [argument] using hargument))
      | _ => cases hbare
  | ident name =>
      cases t' with
      | ident name' => exact congrArg ident (hquoted (by simpa [argument] using hargument))
      | _ => cases hbare
  | other text =>
      cases t' with
      | other text' => exact congrArg other (hquoted (by simpa [argument] using hargument))
      | _ => cases hbare
  | comment text =>
      cases t' with
      | comment text' => exact congrArg comment (hquoted (by simpa [argument] using hargument))
      | _ => cases hbare
  | newline => cases t' <;> simp_all [bare]
  | eof => cases t' <;> simp_all [bare]

/-- **A token is determined by its description.** -/
theorem describe_injective : Function.Injective describe := by
  intro t t' h
  have hstop : ∀ (t : Token), ∀ c ∈ t.argument.head?, c.isAlpha = false := by
    intro t
    cases t <;> simp [argument]
  have hlist := congrArg String.toList h
  rw [describe_toList, describe_toList] at hlist
  obtain ⟨hclass, hargument⟩ := append_inj_of_stop t.isAlpha_of_mem_className
    t'.isAlpha_of_mem_className (hstop t) (hstop t') hlist
  exact eq_of_bare_of_argument (bare_eq_of_className (String.toList_inj.mp hclass)) hargument

/-- A description stays on its line, whatever the token's text is. -/
theorem lineEnd_not_mem_describe (t : Token) : '\n' ∉ t.describe.toList := by
  have hclass : '\n' ∉ t.className.toList := fun h =>
    absurd (t.isAlpha_of_mem_className _ h) (by decide)
  have htitle : ∀ c : Condition, '\n' ∉ c.title.toList := by
    have hall : Condition.all.all (fun c => !c.title.toList.contains '\n') = true := rfl
    intro c
    simpa using List.all_eq_true.mp hall c c.mem_all
  rw [describe_toList]
  cases t with
  | keyword | newline | eof => simpa [argument] using hclass
  | condition c => simpa [argument, htitle] using hclass
  | ident text | other text | comment text =>
      simpa [argument, lineEnd_not_mem_quoted] using hclass

/-- The sequence for a colour ends with its only `m`, and has no line end. -/
theorem exists_colour_eq (t : Token) :
    ∃ front, t.colour.toList = front ++ ['m'] ∧ ∀ c ∈ front, c ≠ 'm' ∧ c ≠ '\n' := by
  have hcolour := of_allBare (p := fun t => t.colour.toList.getLast? == some 'm' &&
    t.colour.toList.dropLast.all fun c => c ≠ 'm' ∧ c ≠ '\n') (by decide)
    (fun t => by rw [colour_bare]) t
  simp only [Bool.and_eq_true, beq_iff_eq, List.all_eq_true, decide_eq_true_eq] at hcolour
  exact ⟨_, (List.dropLast_append_getLast? _ hcolour.1).symm, hcolour.2⟩

/-- The column for the kind has the same width for all kinds, and no line end. -/
theorem padRight_kind (t : Token) :
    (padRight 8 t.kind).toList.length = 8 ∧ '\n' ∉ (padRight 8 t.kind).toList := by
  have hkind := of_allBare (p := fun t => (padRight 8 t.kind).toList.length = 8 ∧
    '\n' ∉ (padRight 8 t.kind).toList) (by decide) (fun t => by rw [kind_bare]) t
  simpa using hkind

end Token

/-! ### Lines -/

namespace DumpStyle

variable {style : DumpStyle}

/-- A line of a dump from the colour on. -/
def field (style : DumpStyle) (token : Token) : List Char :=
  (if style.coloured then token.colour else "").toList ++ ((padRight 8 token.kind).toList ++
    ' ' :: (style.text token).toList ++ (if style.coloured then resetColour else "").toList)

/-- A line of a dump without its end. -/
def content (style : DumpStyle) (t : Located) : List Char :=
  '[' :: ((padded 2 t.position.line).toList ++
    ':' :: ((padded 2 t.position.column).toList ++ ']' :: ' ' :: style.field t.token))

theorem line_toList (t : Located) : (style.line t).toList = style.content t ++ ['\n'] := by
  have hopen : "[".toList = ['['] := rfl
  have hcolon : ":".toList = [':'] := rfl
  have hclose : "] ".toList = [']', ' '] := rfl
  have hspace : " ".toList = [' '] := rfl
  have hline : "\n".toList = ['\n'] := rfl
  simp only [line, content, field, String.toList_append, hopen, hcolon, hclose, hspace, hline,
    List.append_assoc, List.cons_append, List.nil_append]

theorem render_toList (tokens : List Located) :
    (style.render tokens).toList = ended (tokens.map style.content) := by
  rw [render, String.toList_join, List.flatMap_map, ended, List.flatMap_map]
  simp only [line_toList]

/-- A line of a dump has no line end inside, if the text of its token has none. -/
theorem lineEnd_not_mem_content {t : Located} (h : '\n' ∉ (style.text t.token).toList) :
    '\n' ∉ style.content t := by
  have hpadded : ∀ n, '\n' ∉ (padded 2 n).toList := fun n hn =>
    absurd (isDigit_of_mem_padded hn) (by decide)
  have hcolour : '\n' ∉ (if style.coloured then t.token.colour else "").toList := by
    split
    · obtain ⟨front, hfront, hline⟩ := t.token.exists_colour_eq
      intro hmem
      rw [hfront, List.mem_append] at hmem
      rcases hmem with hmem | hmem
      · exact (hline _ hmem).2 rfl
      · simp at hmem
    · simp
  have hreset : '\n' ∉ (if style.coloured then resetColour else "").toList := by
    split
    · decide
    · simp
  simp [content, field, hpadded, hcolour, hreset, t.token.padRight_kind.2, h]

/-- A dump has as many line ends as tokens, if the tokens have none in their texts. -/
theorem count_lineEnd_render {tokens : List Located}
    (h : ∀ t ∈ tokens, '\n' ∉ (style.text t.token).toList) :
    (style.render tokens).toList.count '\n' = tokens.length := by
  rw [render_toList, count_ended, List.length_map]
  intro line hline
  obtain ⟨t, ht, rfl⟩ := List.mem_map.mp hline
  exact lineEnd_not_mem_content (h t ht)

/-- With descriptions, a token is determined by its line from the colour on. -/
theorem field_injective (hstyle : style.described = true) : Function.Injective style.field := by
  intro t t' h
  have hkind : ∀ {rest rest' : List Char},
      (padRight 8 t.kind).toList ++ rest = (padRight 8 t'.kind).toList ++ rest' → rest = rest' :=
    fun heq => (List.append_inj heq (by rw [t.padRight_kind.1, t'.padRight_kind.1])).2
  have hafter : ∀ {reset : List Char},
      (padRight 8 t.kind).toList ++ ' ' :: (style.text t).toList ++ reset =
        (padRight 8 t'.kind).toList ++ ' ' :: (style.text t').toList ++ reset → t = t' := by
    intro reset heq
    have htext : (style.text t).toList = (style.text t').toList :=
      (List.cons.inj (hkind (List.append_cancel_right heq))).2
    simp only [text, hstyle, if_true] at htext
    exact Token.describe_injective (String.toList_inj.mp htext)
  cases hcoloured : style.coloured with
  | false =>
      simp only [field, hcoloured, Bool.false_eq_true, if_false, String.toList_empty,
        List.nil_append] at h
      exact hafter h
  | true =>
      obtain ⟨front, hfront, hm⟩ := t.exists_colour_eq
      obtain ⟨front', hfront', hm'⟩ := t'.exists_colour_eq
      simp only [field, hcoloured, if_true, hfront, hfront'] at h
      rw [List.append_assoc front, List.append_assoc front'] at h
      obtain ⟨-, hrest⟩ := append_inj_of_stop (p := (· != 'm')) (fun c hc => by simp [hm c hc])
        (fun c hc => by simp [hm' c hc]) (by simp) (by simp) h
      exact hafter (List.append_cancel_left hrest)

/-- **With descriptions, a token and its place are determined by their line.** -/
theorem content_injective (hstyle : style.described = true) :
    Function.Injective style.content := by
  rintro ⟨t, line, column⟩ ⟨t', line', column'⟩ h
  obtain ⟨rfl, hcolumn⟩ := padded_append_inj (List.cons.inj h).2 (by simp) (by simp)
  obtain ⟨rfl, hfield⟩ := padded_append_inj (List.cons.inj hcolumn).2 (by simp) (by simp)
  obtain rfl := field_injective hstyle (List.cons.inj (List.cons.inj hfield).2).2
  rfl

/-- With descriptions, a token list is determined by its dump. -/
theorem render_injective (hstyle : style.described = true) : Function.Injective style.render := by
  intro tokens tokens' h
  have hline : ∀ tokens : List Located, ∀ line ∈ tokens.map style.content, '\n' ∉ line := by
    intro tokens line hline
    obtain ⟨t, -, rfl⟩ := List.mem_map.mp hline
    refine lineEnd_not_mem_content ?_
    rw [text, if_pos hstyle]
    exact t.token.lineEnd_not_mem_describe
  have hended := congrArg String.toList h
  rw [render_toList, render_toList] at hended
  exact (content_injective hstyle).list_map (ended_inj (hline tokens) (hline tokens') hended)

end DumpStyle

/-! ### Sources -/

/-- A token of a source is written on one line. -/
theorem lineEnd_not_mem_plainText_of_mem_scan {source : String} {tokens : List Located}
    (h : scan source = .ok tokens) {t : Located} (ht : t ∈ tokens) :
    '\n' ∉ t.token.plainText.toList := by
  obtain ⟨before, after, lexeme, hlexeme⟩ := exists_lexeme_of_mem_scan h ht
  generalize t.token = token at hlexeme ⊢
  have hproper : ∀ token : Token, token.isLayout = false → token ≠ .eof →
      token.plainText = token.spelling := by
    intro token hlayout heof
    cases token with
    | comment | newline => cases hlayout
    | eof => exact absurd rfl heof
    | keyword | condition | ident | other => rfl
  cases hlexeme with
  | newline | eof => decide
  | @comment text htext =>
      intro hline
      have htrim : '\n' ∈ trim (trim text) := by simpa [Token.plainText] using hline
      exact htext (mem_of_mem_trim (mem_of_mem_trim htrim))
  | word hne hword =>
      rw [hproper _ (Token.isLayout_ofWord _) (Token.ofWord_isProper _).1, Token.spelling_ofWord,
        String.toList_ofList]
      exact fun hline => (isWordChar_excludes (hword _ hline)).2.1 rfl
  | sign hc =>
      rw [hproper _ rfl (by simp), Token.spelling, String.toList_ofList, List.mem_singleton]
      exact fun heq => (isSign_excludes hc).2.1 heq.symm

namespace DumpStyle

/-- **A dump has a line for each token, and with descriptions it loses nothing.** Coloured or not, a
dump with descriptions has exactly as many line ends as tokens, and two token lists with the same
dump are the same, places included; the tokens may have any texts. A dump without descriptions has
as many line ends as tokens if the tokens are those of a source, with or without its comments and
line ends. -/
theorem render_faithful (coloured : Bool) :
    (∀ tokens, ((DumpStyle.mk coloured true).render tokens).toList.count '\n' = tokens.length) ∧
    (∀ tokens tokens', (DumpStyle.mk coloured true).render tokens =
      (DumpStyle.mk coloured true).render tokens' → tokens = tokens') ∧
    ∀ source tokens, scan source = .ok tokens ∨ scanProgram source = .ok tokens →
      ((DumpStyle.mk coloured false).render tokens).toList.count '\n' = tokens.length := by
  refine ⟨fun tokens => ?_, fun tokens tokens' h => render_injective rfl h,
    fun source tokens h => ?_⟩
  · exact count_lineEnd_render fun t _ => t.token.lineEnd_not_mem_describe
  · refine count_lineEnd_render fun t ht => ?_
    rcases h with h | h
    · exact lineEnd_not_mem_plainText_of_mem_scan h ht
    · cases hscan : scan source with
      | error e =>
          rw [scanProgram, hscan] at h
          cases h
      | ok all =>
          rw [scanProgram, hscan] at h
          obtain rfl := Except.ok.inj h
          exact lineEnd_not_mem_plainText_of_mem_scan hscan (List.mem_of_mem_filter ht)

/-- Tokens whose texts look like the end of a description. -/
def riddle : List Located :=
  [⟨.other "a\")\n", ⟨1, 100⟩⟩, ⟨.comment "\\", ⟨2, 1⟩⟩]

/-- The same tokens with a backslash more in the first text. -/
def riddleEscaped : List Located :=
  [⟨.other "a\\\")\n", ⟨1, 100⟩⟩, ⟨.comment "\\", ⟨2, 1⟩⟩]

/-- A quote, a bracket, a line end and a backslash inside the texts do not lead to a further line,
nor to the dump of other tokens. Without descriptions the comment of a source stays on its line. -/
theorem render_faithful_riddle :
    ((DumpStyle.mk true true).render riddle).toList.count '\n' = 2 ∧
    (DumpStyle.mk true true).render riddle ≠ (DumpStyle.mk true true).render riddleEscaped ∧
    scan "a#\"\n" = .ok [⟨.ident "a", ⟨1, 1⟩⟩, ⟨.comment "\"", ⟨1, 2⟩⟩, ⟨.newline, ⟨1, 4⟩⟩,
      ⟨.eof, ⟨2, 1⟩⟩] ∧
    ((DumpStyle.mk true false).render [⟨.ident "a", ⟨1, 1⟩⟩, ⟨.comment "\"", ⟨1, 2⟩⟩,
      ⟨.newline, ⟨1, 4⟩⟩, ⟨.eof, ⟨2, 1⟩⟩]).toList.count '\n' = 4 := by
  have hscan : scan "a#\"\n" = .ok [⟨.ident "a", ⟨1, 1⟩⟩, ⟨.comment "\"", ⟨1, 2⟩⟩,
      ⟨.newline, ⟨1, 4⟩⟩, ⟨.eof, ⟨2, 1⟩⟩] := by decide +kernel
  refine ⟨(render_faithful true).1 riddle, fun h => ?_, hscan,
    (render_faithful true).2.2 _ _ (.inl hscan)⟩
  exact absurd ((render_faithful true).2.1 _ _ h) (by decide)

end DumpStyle

end RobotScript
