import Mathlib.Data.List.Forall2
import Mathlib.Data.List.Nodup
import Mathlib.Tactic.Common
import RobotScript.Opcode
import RobotScript.Proofs.Scanning

/-!
# The classes of words

Every word belongs to one class, and what reads words agrees with what writes them, though each has
a table of its own: the keywords are written out where they are read, where they are told from names
and where they are written, and the conditions where they are written and, in capitals, where they
are read. A word is a keyword or a condition exactly if it stands in the table, so near misses
(another letter case, an underscore for a hyphen, a letter that is not ASCII) are identifiers or
have no meaning of their own.

Where a condition is due, more is read: any word that is the condition letter for letter, each of
them small or capital, with a hyphen or an underscore where the condition has a hyphen. No two
conditions have such a word in common, and no keyword and no name of an action is one.

## Main definitions

* `Condition.words`, `Condition.capitalWords` — the conditions written out.
* `Text.underscored` — a word with underscores for hyphens.
* `Text.Renders` — a character and another way to write it.

## Main results

* `Condition.ofCapitals?_eq_some_iff`: what is read as a condition in capitals is what it is in
  capitals.
* `Condition.ofSpelling?_eq_some_iff`, `Condition.ofWord?_eq_some_iff`: which words are read as a
  condition, exactly and up to letter case and hyphens.
* `Condition.ofWord?_eq_some_iff_forall₂`: the latter letter for letter.
* `Condition.ofWord?_of_mem_reserved`: no keyword and no name of an action is read as a condition.
* `Token.ofWord_classification`: **the class of every word**.
-/

namespace RobotScript

/-! ### Letter case and hyphens -/

namespace Text

/-- A word with underscores for hyphens. -/
def underscored (word : String) : String :=
  word.map fun c => if c = '-' then '_' else c

/-- The second character is a way to write the first: the same, its capital, or an underscore for a
hyphen. -/
def Renders (c d : Char) : Prop :=
  d = c ∨ d = c.toUpper ∨ (c = '-' ∧ d = '_')

instance (c d : Char) : Decidable (Renders c d) :=
  inferInstanceAs (Decidable (d = c ∨ d = c.toUpper ∨ (c = '-' ∧ d = '_')))

/-- The character can stand in the spelling of a condition. -/
def isSmall (c : Char) : Bool :=
  c.isLower || c == '-'

theorem toList_capitals (word : String) : (capitals word).toList = word.toList.map capital :=
  String.toList_map

/-- Two words have the same capitals exactly if they have them character by character. -/
theorem capitals_eq_iff {word word' : String} :
    capitals word = capitals word' ↔ word.toList.map capital = word'.toList.map capital := by
  rw [← String.toList_inj, toList_capitals, toList_capitals]

/-- The capitals of a word are found in two steps: first the hyphens, then the letters. -/
theorem toUpper_underscored (word : String) : (underscored word).toUpper = capitals word := by
  have hcapital : ∀ c : Char, (if c = '-' then '_' else c).toUpper = capital c := by
    intro c
    unfold capital
    split
    · rfl
    · rfl
  rw [← String.toList_inj, toList_capitals, String.toUpper, String.toList_map, underscored,
    String.toList_map, List.map_map]
  exact List.map_congr_left fun c _ => hcapital c

/-- A capital letter stands 32 places before its small letter. -/
theorem toNat_toUpper (c : Char) :
    c.toUpper.toNat = if 97 ≤ c.toNat ∧ c.toNat ≤ 122 then c.toNat - 32 else c.toNat := by
  have hsmall : ('a'.val ≤ c.val ∧ c.val ≤ 'z'.val) ↔ 97 ≤ c.toNat ∧ c.toNat ≤ 122 := Iff.rfl
  unfold Char.toUpper
  split_ifs with h h' h'
  · -- The distance is added as a number of 32 bits, where it wraps around.
    change (c.val + 4294967264).toNat = c.toNat - 32
    rw [UInt32.toNat_add]
    change (c.val.toNat + 4294967264) % 4294967296 = c.val.toNat - 32
    have hnat : c.val.toNat = c.toNat := rfl
    omega
  · exact absurd (hsmall.mp h) h'
  · exact absurd (hsmall.mpr h') h
  · rfl

theorem isLower_iff {c : Char} : c.isLower = true ↔ 97 ≤ c.toNat ∧ c.toNat ≤ 122 :=
  (Bool.and_eq_true_iff).trans (and_congr decide_eq_true_iff decide_eq_true_iff)

/-- The capital of a small letter is that of this letter and of the capital itself, and of no other
character. -/
theorem toUpper_eq_toUpper_iff {c d : Char} (hc : c.isLower = true) :
    d.toUpper = c.toUpper ↔ d = c ∨ d = c.toUpper := by
  rw [isLower_iff] at hc
  rw [← Char.toNat_inj, ← Char.toNat_inj, ← Char.toNat_inj, toNat_toUpper c, toNat_toUpper d,
    if_pos hc]
  split_ifs <;> omega

/-- No letter has an underscore as its capital. -/
theorem toUpper_eq_underscore_iff {d : Char} : d.toUpper = '_' ↔ d = '_' := by
  have hunderscore : '_'.toNat = 95 := rfl
  rw [← Char.toNat_inj, ← Char.toNat_inj, toNat_toUpper, hunderscore]
  split_ifs <;> omega

/-- The capital of a small letter is a letter. -/
theorem toNat_toUpper_of_isLower {c : Char} (hc : c.isLower = true) :
    65 ≤ c.toUpper.toNat ∧ c.toUpper.toNat ≤ 90 := by
  rw [isLower_iff] at hc
  rw [toNat_toUpper, if_pos hc]
  omega

/-- What has the capital of a small letter or a hyphen is a way to write it. -/
theorem capital_eq_iff_renders {c d : Char} (hc : isSmall c = true) :
    capital d = capital c ↔ Renders c d := by
  rw [isSmall, Bool.or_eq_true, beq_iff_eq] at hc
  rcases hc with hlower | rfl
  · have hhyphen : c ≠ '-' := by
      rintro rfl
      exact absurd hlower (by decide)
    have hletter := toNat_toUpper_of_isLower hlower
    simp only [Renders, hhyphen, false_and, or_false, ← toUpper_eq_toUpper_iff hlower]
    rw [capital, capital, if_neg hhyphen]
    split_ifs with hd
    · -- A hyphen is a way to write no letter, and its underscore is no capital letter.
      have hne : ∀ e : Char, ¬ (65 ≤ e.toNat ∧ e.toNat ≤ 90) → e ≠ c.toUpper := by
        rintro e he rfl
        exact he hletter
      subst hd
      exact iff_of_false (hne '_' (by decide)) (hne '-'.toUpper (by decide))
    · rfl
  · have hcapital : capital '-' = '_' := rfl
    have hupper : '-'.toUpper = '-' := rfl
    rw [hcapital, Renders, hupper, capital]
    split_ifs with hd
    · simp [hd]
    · simp [hd, toUpper_eq_underscore_iff]

/-- A word has the capitals of one in small letters and hyphens exactly if it is this one letter for
letter, each in some way to write it. -/
theorem capitals_eq_iff_forall₂ {spelled word : String}
    (h : ∀ c ∈ spelled.toList, isSmall c = true) :
    capitals word = capitals spelled ↔ List.Forall₂ Renders spelled.toList word.toList := by
  rw [capitals_eq_iff]
  generalize spelled.toList = cs at h
  generalize word.toList = ds
  induction cs generalizing ds with
  | nil => simp
  | cons c cs ih =>
      obtain ⟨hc, hcs⟩ := List.forall_mem_cons.mp h
      cases ds with
      | nil => simp
      | cons d ds =>
          rw [List.map_cons, List.map_cons, List.cons.injEq, List.forall₂_cons, ih hcs ds,
            capital_eq_iff_renders hc]

end Text

open Text

/-! ### The tables -/

/-- A member with a given word as its key is found exactly if the word is the key of a member. -/
theorem isSome_find?_iff_mem_map {α : Type} {members : List α} {key : α → String}
    {word : String} :
    (members.find? fun x => key x == word).isSome = true ↔ word ∈ members.map key := by
  simp only [List.find?_isSome, List.mem_map, beq_iff_eq]

/-- A word is a keyword exactly if it stands in the table. -/
theorem isKeyword_iff_mem_words {word : String} :
    isKeyword word = true ↔ word ∈ Keyword.words := by
  rw [isKeyword, List.contains_iff_mem]

namespace Condition

/-- The conditions written out as a program has them, in their order. -/
def words : List String :=
  ["next-is-empty", "next-is-not-empty", "next-is-enemy", "next-is-not-enemy", "next-is-friend",
    "next-is-not-friend", "next-is-wall", "next-is-not-wall", "random", "true"]

/-- The conditions written out in capitals, in their order. -/
def capitalWords : List String :=
  ["NEXT_IS_EMPTY", "NEXT_IS_NOT_EMPTY", "NEXT_IS_ENEMY", "NEXT_IS_NOT_ENEMY", "NEXT_IS_FRIEND",
    "NEXT_IS_NOT_FRIEND", "NEXT_IS_WALL", "NEXT_IS_NOT_WALL", "RANDOM", "TRUE"]

/-- What is so of all conditions of the list is so of all conditions. -/
theorem of_all {p : Condition → Bool} (h : all.all p = true) (c : Condition) : p c = true :=
  List.all_eq_true.mp h c c.mem_all

/-- Each condition has its spelling at its place in the table. -/
theorem getElem?_words (c : Condition) : words[c.index]? = some c.spelling := by
  rcases c with ⟨sight, negative⟩ | _ | _
  · cases sight <;> cases negative <;> rfl
  · rfl
  · rfl

/-- Each condition has its capitals at its place in the table of capitals. -/
theorem getElem?_capitalWords (c : Condition) :
    capitalWords[c.index]? = some (capitals c.spelling) := by
  -- Compared as lists of characters, since these can be evaluated.
  have hletters : capitalWords[c.index]?.map String.toList =
      some (c.spelling.toList.map capital) := by
    rcases c with ⟨sight, negative⟩ | _ | _
    · cases sight <;> cases negative <;> rfl
    · rfl
    · rfl
  obtain ⟨word, hword, hlist⟩ := Option.map_eq_some_iff.mp hletters
  rw [hword, ← String.toList_inj.mp (hlist.trans (toList_capitals c.spelling).symm)]

theorem spelling_injective : Function.Injective spelling := by
  intro c c' h
  have hnodup : (all.map spelling).Nodup := by decide
  exact List.inj_on_of_nodup_map hnodup c.mem_all c'.mem_all h

/-- The conditions are spelled in small letters and hyphens. -/
theorem isSmall_of_mem_spelling (c : Condition) : ∀ d ∈ c.spelling.toList, isSmall d = true :=
  List.all_eq_true.mp (of_all (p := fun c => c.spelling.toList.all isSmall) rfl c)

/-! ### Reading a condition -/

/-- Exactly the spelling of a condition is read as it, since it is the first in the list with its
spelling. -/
theorem ofSpelling?_eq_some_iff {word : String} {c : Condition} :
    ofSpelling? word = some c ↔ word = c.spelling := by
  have hfound : ∀ {word : String} {c : Condition}, ofSpelling? word = some c → c.spelling = word :=
    fun h => by simpa using List.find?_some h
  constructor
  · intro h
    exact (hfound h).symm
  · rintro rfl
    have hsome : (ofSpelling? c.spelling).isSome = true :=
      List.find?_isSome.mpr ⟨c, c.mem_all, beq_self_eq_true _⟩
    obtain ⟨c', hc'⟩ := Option.isSome_iff_exists.mp hsome
    rw [hc', spelling_injective (hfound hc')]

/-- A text in capitals is read as the condition that has it in the table. -/
theorem ofCapitals?_eq_some_iff {text : String} {c : Condition} :
    ofCapitals? text = some c ↔ capitalWords[c.index]? = some text := by
  constructor
  · unfold ofCapitals?
    split <;> rintro ⟨⟩ <;> rfl
  · intro h
    rcases c with ⟨sight, negative⟩ | _ | _
    · cases sight <;> cases negative <;> obtain rfl := Option.some.inj h <;> rfl
    · obtain rfl := Option.some.inj h
      rfl
    · obtain rfl := Option.some.inj h
      rfl

/-- Where a condition is due, a word is read as the one with its capitals. -/
theorem ofWord?_eq_some_iff {word : String} {c : Condition} :
    ofWord? word = some c ↔ capitals word = capitals c.spelling := by
  rw [ofWord?, ofCapitals?_eq_some_iff, getElem?_capitalWords, Option.some.injEq, eq_comm]

/-- **Where a condition is due, a word is read as the one that it is letter for letter**, each in
some way to write it. -/
theorem ofWord?_eq_some_iff_forall₂ {word : String} {c : Condition} :
    ofWord? word = some c ↔ List.Forall₂ Renders c.spelling.toList word.toList := by
  rw [ofWord?_eq_some_iff, capitals_eq_iff_forall₂ c.isSmall_of_mem_spelling]

/-- A word is the spelling of a condition exactly if it stands in the table. -/
theorem isSome_ofSpelling?_iff_mem_words {word : String} :
    (ofSpelling? word).isSome = true ↔ word ∈ words := by
  have hwords : words = all.map spelling := rfl
  rw [hwords]
  exact isSome_find?_iff_mem_map

/-- The words that are no condition wherever they stand: the keywords and the names of actions. -/
def reserved : List String :=
  Keyword.words ++ Action.all.map Action.name

/-- No keyword and no name of an action is read as a condition. -/
theorem ofWord?_of_mem_reserved {word : String} (h : word ∈ reserved) : ofWord? word = none := by
  have hdistinct : reserved.all (fun word => all.all fun c =>
      word.toList.map capital != c.spelling.toList.map capital) = true := by decide +kernel
  rw [Option.eq_none_iff_forall_ne_some]
  intro c hc
  have hne := of_all (List.all_eq_true.mp hdistinct word h) c
  rw [bne_iff_ne] at hne
  exact hne (capitals_eq_iff.mp (ofWord?_eq_some_iff.mp hc))

end Condition

/-! ### The class of a word -/

namespace Token

variable {word : String}

theorem eq_spelling_of_ofWord {token : Token} (h : ofWord word = token) :
    word = token.spelling := by
  rw [← h, spelling_ofWord]

theorem ofWord_eq_keyword_iff {k : Keyword} : ofWord word = keyword k ↔ word = k.spelling := by
  refine ⟨eq_spelling_of_ofWord, ?_⟩
  rintro rfl
  exact (spells_keyword k).token_eq

theorem ofWord_eq_condition_iff {c : Condition} :
    ofWord word = condition c ↔ word = c.spelling := by
  refine ⟨eq_spelling_of_ofWord, ?_⟩
  rintro rfl
  exact (spells_condition c).token_eq

theorem ofWord_eq_ident_iff {name : String} :
    ofWord word = ident name ↔ name = word ∧ isIdentifier word = true := by
  constructor
  · intro h
    obtain rfl : word = name := eq_spelling_of_ofWord h
    exact ⟨rfl, isIdentifier_of_ofWord_eq h⟩
  · rintro ⟨rfl, h⟩
    exact ofWord_of_isIdentifier h

/-- A word is a keyword exactly if its token is one. -/
theorem isKeyword_iff_ofWord : isKeyword word = true ↔ ∃ k, ofWord word = keyword k := by
  simp only [isKeyword_iff, Keyword.ofWord?_eq_some_iff, ofWord_eq_keyword_iff]

/-- A word has no meaning of its own exactly if it belongs to none of the other classes. -/
theorem ofWord_eq_other_iff {text : String} :
    ofWord word = other text ↔ text = word ∧ isKeyword word = false ∧
      Condition.ofSpelling? word = none ∧ isIdentifier word = false := by
  constructor
  · intro h
    refine ⟨(eq_spelling_of_ofWord h).symm, ?_, ?_, ?_⟩
    · rw [Bool.eq_false_iff]
      intro hkeyword
      obtain ⟨k, hk⟩ := isKeyword_iff_ofWord.mp hkeyword
      rw [h] at hk
      cases hk
    · rw [Option.eq_none_iff_forall_ne_some]
      intro c hc
      rw [Condition.ofSpelling?_eq_some_iff, ← ofWord_eq_condition_iff, h] at hc
      cases hc
    · rw [Bool.eq_false_iff]
      intro hidentifier
      rw [ofWord_of_isIdentifier hidentifier] at h
      cases h
  · rintro ⟨rfl, hkeyword, hcondition, hidentifier⟩
    simp [ofWord, Keyword.ofWord?_eq_none hkeyword, hcondition, hidentifier]

end Token

/-- An identifier is a letter followed by letters, digits and hyphens that stands in no table. -/
theorem isIdentifier_iff {word : String} :
    isIdentifier word = true ↔
      (∃ first more, word.toList = first :: more ∧ first.isAlpha = true ∧
        ∀ d ∈ more, d.isAlphanum = true ∨ d = '-') ∧
      word ∉ Keyword.words ∧ word ∉ Condition.words := by
  have hshape : isNameShaped word.toList = true ↔ ∃ first more, word.toList = first :: more ∧
      first.isAlpha = true ∧ ∀ d ∈ more, d.isAlphanum = true ∨ d = '-' := by
    cases word.toList with
    | nil => simp [isNameShaped]
    | cons first more => simp [isNameShaped]
  rw [isIdentifier, Bool.and_eq_true, Bool.and_eq_true, hshape, Bool.not_eq_true',
    Bool.eq_false_iff, Ne, isKeyword_iff_mem_words, ← Option.not_isSome, Bool.not_eq_true',
    Bool.eq_false_iff, Ne, Condition.isSome_ofSpelling?_iff_mem_words, and_assoc]

namespace Token

/-- **The class of every word.** A token is written as the word that it was read from. A word is a
keyword, or a condition, exactly if it stands in the table, where every condition has its spelling;
it is an identifier exactly if it is a letter followed by letters, digits and hyphens and stands in
no table; and it has no meaning of its own in all other cases. Where a condition is due, a word is
read as the one that it equals after hyphens are replaced and letters made capitals in both, which
is the one with these capitals in the table of capitals and the one that it is letter for letter; a
word that is the spelling of a condition is read as this one, and a keyword or a name of an action
as none. -/
theorem ofWord_classification (word : String) :
    (ofWord word).spelling = word ∧
    ((∃ k, ofWord word = keyword k) ↔ isKeyword word = true) ∧
    (isKeyword word = true ↔ word ∈ Keyword.words) ∧
    (∀ c, (ofWord word = condition c ↔ Condition.ofSpelling? word = some c) ∧
      (Condition.ofSpelling? word = some c ↔ word = c.spelling) ∧
      (word = c.spelling ↔ Condition.words[c.index]? = some word)) ∧
    (∀ name, ofWord word = ident name ↔ name = word ∧ isIdentifier word = true) ∧
    (isIdentifier word = true ↔
      (∃ first more, word.toList = first :: more ∧ first.isAlpha = true ∧
        ∀ d ∈ more, d.isAlphanum = true ∨ d = '-') ∧
      word ∉ Keyword.words ∧ word ∉ Condition.words) ∧
    (∀ text, ofWord word = other text ↔ text = word ∧ isKeyword word = false ∧
      Condition.ofSpelling? word = none ∧ isIdentifier word = false) ∧
    (∀ c, (Condition.ofWord? word = some c ↔
        (underscored word).toUpper = (underscored c.spelling).toUpper) ∧
      (Condition.ofWord? word = some c ↔
        Condition.capitalWords[c.index]? = some (underscored word).toUpper) ∧
      (Condition.ofWord? word = some c ↔
        List.Forall₂ Renders c.spelling.toList word.toList) ∧
      (Condition.ofSpelling? word = some c → Condition.ofWord? word = some c)) ∧
    (isKeyword word = true ∨ Action.isName word = true → Condition.ofWord? word = none) := by
  refine ⟨spelling_ofWord word, isKeyword_iff_ofWord.symm, isKeyword_iff_mem_words,
    fun c => ⟨?_, Condition.ofSpelling?_eq_some_iff, ?_⟩, fun _ => ofWord_eq_ident_iff,
    isIdentifier_iff, fun _ => ofWord_eq_other_iff,
    fun c => ⟨?_, ?_, Condition.ofWord?_eq_some_iff_forall₂, fun h => ?_⟩, fun h => ?_⟩
  · rw [ofWord_eq_condition_iff, Condition.ofSpelling?_eq_some_iff]
  · rw [c.getElem?_words, Option.some.injEq, eq_comm]
  · rw [toUpper_underscored, toUpper_underscored, Condition.ofWord?_eq_some_iff]
  · rw [toUpper_underscored, c.getElem?_capitalWords, Option.some.injEq,
      Condition.ofWord?_eq_some_iff, eq_comm]
  · rw [Condition.ofWord?_eq_some_iff, Condition.ofSpelling?_eq_some_iff.mp h]
  · refine Condition.ofWord?_of_mem_reserved (List.mem_append.mpr ?_)
    exact h.imp isKeyword_iff_mem_words.mp isSome_find?_iff_mem_map.mp

/-- The spelling of a condition is read as it wherever it stands; a keyword and a name of an action
that begin like it are no condition. In other letters and with an underscore a condition is read
only where one is due, and with a dotless `ı`, which is no ASCII letter, not even there. -/
theorem ofWord_classification_nearMisses :
    (Condition.ofSpelling? "true" = some .always ∧ Condition.ofWord? "true" = some .always) ∧
    (isKeyword "THEN" = true ∧ Condition.ofWord? "THEN" = none) ∧
    (Action.isName "turnleft" = true ∧ Condition.ofWord? "turnleft" = none) ∧
    (ofWord "NEXT_is-wall" = other "NEXT_is-wall" ∧
      Condition.ofWord? "NEXT_is-wall" = some (.ahead .wall false)) ∧
    (ofWord "next-ıs-wall" = other "next-ıs-wall" ∧
      Condition.ofWord? "next-ıs-wall" ≠ some (.ahead .wall false)) := by
  obtain ⟨-, -, -, -, -, -, -, htrue, -⟩ := ofWord_classification "true"
  obtain ⟨-, -, -, -, -, -, -, -, hthen⟩ := ofWord_classification "THEN"
  obtain ⟨-, -, -, -, -, -, -, -, hturn⟩ := ofWord_classification "turnleft"
  obtain ⟨-, -, -, -, -, -, hcased, hcasedDue, -⟩ := ofWord_classification "NEXT_is-wall"
  obtain ⟨-, -, -, -, -, -, hdotless, hdotlessDue, -⟩ := ofWord_classification "next-ıs-wall"
  have hspelled : Condition.ofSpelling? "true" = some .always := rfl
  refine ⟨⟨hspelled, (htrue _).2.2.2 hspelled⟩, ⟨rfl, hthen (.inl rfl)⟩, ⟨rfl, hturn (.inr rfl)⟩,
    ⟨(hcased _).mpr ⟨rfl, rfl, rfl, rfl⟩, (hcasedDue _).2.2.1.mpr (by decide)⟩,
    (hdotless _).mpr ⟨rfl, rfl, rfl, rfl⟩, fun h => ?_⟩
  exact absurd ((hdotlessDue _).2.2.1.mp h) (by decide)

end Token

end RobotScript
