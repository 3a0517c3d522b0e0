import Mathlib.Tactic
import RobotScript.Text.Decimal
import RobotScript.Text.Quoted

/-!
# Text that shows where it ends

Listings and dumps put numbers, words and quoted texts one after another on a line. That nothing is
lost comes down to one property of each part: where it ends can be seen from what is written, so the
part and what follows it are both determined. A number ends before the first character that is no
digit, also if it has zeros in front or is longer than its column; an escaped character ends after
its letter or its closing brace; and a quoted text ends at the first quote that no backslash hides.

## Main definitions

* `ended` — lines, each with its end.
* `digitValue` — the value of a digit up to base sixteen.
* `letterEscapes` — the characters that are escaped by a letter or a sign.

## Main results

* `splitOn_ended`, `ended_inj`: **lines can be told apart**, if none of them has a line end inside.
* `append_inj_of_stop`: a run of characters with a property ends before the first one without it.
* `padded_append_inj`: **a number and what follows it** can be told apart.
* `escape_append_inj`, `quoted_append_inj`: **an escaped character and a quoted text** as well.
* `lineEnd_not_mem_quoted`: a quoted text stays on its line.
-/

namespace RobotScript.Text

variable {rest rest' : List Char}

/-- A run of characters with a property is determined, with what follows it, if it stops there. -/
theorem append_inj_of_stop {p : Char → Bool} {text text' : List Char}
    (htext : ∀ c ∈ text, p c = true) (htext' : ∀ c ∈ text', p c = true)
    (hrest : ∀ c ∈ rest.head?, p c = false) (hrest' : ∀ c ∈ rest'.head?, p c = false)
    (h : text ++ rest = text' ++ rest') : text = text' ∧ rest = rest' := by
  have hstop : ∀ {more : List Char}, (∀ c ∈ more.head?, p c = false) → more.takeWhile p = [] := by
    intro more hmore
    cases more with
    | nil => rfl
    | cons c more => exact List.takeWhile_cons_of_neg (by simp [hmore c rfl])
  have htake := congrArg (List.takeWhile p) h
  rw [List.takeWhile_append_of_pos htext, List.takeWhile_append_of_pos htext', hstop hrest,
    hstop hrest', List.append_nil, List.append_nil] at htake
  subst htake
  exact ⟨rfl, List.append_cancel_left h⟩

/-! ### Lines -/

/-- The lines one after another, each with its end. -/
def ended (lines : List (List Char)) : List Char :=
  lines.flatMap (· ++ ['\n'])

section

variable {lines lines' : List (List Char)}

/-- There are as many line ends as lines. -/
theorem count_ended (h : ∀ line ∈ lines, '\n' ∉ line) :
    (ended lines).count '\n' = lines.length := by
  induction lines with
  | nil => rfl
  | cons line lines ih =>
      obtain ⟨hline, hlines⟩ := List.forall_mem_cons.mp h
      rw [ended, List.flatMap_cons, List.count_append, List.count_append,
        List.count_eq_zero.mpr hline, ← ended, ih hlines, List.length_cons,
        List.count_singleton_self]
      omega

/-- Cutting at the line ends gives the lines back, and nothing after the last line end. -/
theorem splitOn_ended (h : ∀ line ∈ lines, '\n' ∉ line) :
    (ended lines).splitOn '\n' = lines ++ [[]] := by
  induction lines with
  | nil => rfl
  | cons line lines ih =>
      obtain ⟨hline, hlines⟩ := List.forall_mem_cons.mp h
      have hcons : ended (line :: lines) = line ++ '\n' :: ended lines := by simp [ended]
      rw [hcons, List.splitOn_append_cons_self_of_not_mem hline, ih hlines, List.cons_append]

/-- **Lines can be told apart**, if none of them has a line end inside. -/
theorem ended_inj (h : ∀ line ∈ lines, '\n' ∉ line) (h' : ∀ line ∈ lines', '\n' ∉ line)
    (heq : ended lines = ended lines') : lines = lines' := by
  have hsplit := congrArg (List.splitOn '\n') heq
  rw [splitOn_ended h, splitOn_ended h'] at hsplit
  exact List.append_cancel_right hsplit

end

/-! ### Digits -/

/-- The value of a digit, with the letters from `a` on for the digits from ten on. -/
def digitValue (c : Char) : Nat :=
  if c.isDigit then c.toNat - '0'.toNat else c.toNat - 'a'.toNat + 10

theorem digitValue_digitChar {d : Nat} (hd : d < 16) : digitValue d.digitChar = d := by
  have hall : ∀ d : Fin 16, digitValue d.val.digitChar = d.val := by decide
  exact hall ⟨d, hd⟩

/-- A numeral is made of the digits of its base. -/
theorem exists_digitChar_of_mem_toDigits {base n : Nat} (hbase : 1 < base) {c : Char}
    (hc : c ∈ Nat.toDigits base n) : ∃ d < base, c = d.digitChar := by
  induction n using Nat.strong_induction_on with
  | _ n ih =>
      rw [Nat.toDigits_eq_if hbase] at hc
      split at hc
      · exact ⟨n, ‹_›, List.mem_singleton.mp hc⟩
      · rcases List.mem_append.mp hc with hc | hc
        · exact ih (n / base) (Nat.div_lt_self (by omega) hbase) hc
        · exact ⟨n % base, Nat.mod_lt _ (by omega), List.mem_singleton.mp hc⟩

/-- The value of a numeral in any base up to sixteen is the number. -/
theorem foldl_digitValue_toDigits {base : Nat} (hbase : 1 < base) (hsixteen : base ≤ 16) (n : Nat) :
    (Nat.toDigits base n).foldl (fun value c => base * value + digitValue c) 0 = n := by
  induction n using Nat.strong_induction_on with
  | _ n ih =>
      rw [Nat.toDigits_eq_if hbase]
      split
      · simp [digitValue_digitChar (by omega : n < 16)]
      · have hlast : n % base < 16 := (Nat.mod_lt n (by omega)).trans_le hsixteen
        rw [List.foldl_append, ih _ (Nat.div_lt_self (by omega) hbase)]
        simp [digitValue_digitChar hlast, Nat.div_add_mod]

/-- A number is determined by its numeral. -/
theorem toDigits_injective {base : Nat} (hbase : 1 < base) (hsixteen : base ≤ 16) :
    Function.Injective (Nat.toDigits base) :=
  Function.LeftInverse.injective (foldl_digitValue_toDigits hbase hsixteen)

/-! ### Numbers -/

theorem isDigit_of_mem_padded {width n : Nat} {c : Char} (hc : c ∈ (padded width n).toList) :
    c.isDigit = true := by
  rw [padded, String.toList_ofList, List.leftpad, List.mem_append] at hc
  rcases hc with hc | hc
  · rw [(List.mem_replicate.mp hc).2]
    rfl
  · exact Nat.isDigit_of_mem_toDigits (by decide) (by decide) hc

/-- Zeros in front do not change which number it is. -/
theorem padded_injective (width : Nat) : Function.Injective (padded width) := by
  refine Function.LeftInverse.injective (g := fun text => Nat.ofDigitChars 10 text.toList 0) ?_
  intro n
  simp [padded, List.leftpad, Nat.ofDigitChars_append, Nat.ofDigitChars_replicate_zero,
    Nat.ofDigitChars_ten_toDigits]

/-- **A number and what follows it can be told apart**, if what follows starts with no digit. -/
theorem padded_append_inj {width n n' : Nat}
    (h : (padded width n).toList ++ rest = (padded width n').toList ++ rest')
    (hrest : ∀ c ∈ rest.head?, c.isDigit = false) (hrest' : ∀ c ∈ rest'.head?, c.isDigit = false) :
    n = n' ∧ rest = rest' := by
  obtain ⟨hdigits, rfl⟩ := append_inj_of_stop (fun _ => isDigit_of_mem_padded)
    (fun _ => isDigit_of_mem_padded) hrest hrest' h
  exact ⟨padded_injective width (String.toList_inj.mp hdigits), rfl⟩

/-- A number without a least width is its decimal numeral. -/
theorem padded_zero (n : Nat) : padded 0 n = toString n := by
  rw [padded, Nat.toString_eq_ofList_toDigits, List.leftpad, Nat.zero_sub, List.replicate_zero,
    List.nil_append]

/-! ### Quoted text -/

/-- The characters that are written as a backslash and one more character, with that character. -/
def letterEscapes : List (Char × Char) :=
  [('\x00', '0'), ('\t', 't'), ('\n', 'n'), ('\r', 'r'), ('\\', '\\'), ('"', '"')]

/-- A character in a quoted text stands for itself, or has an escape of its own, or is written by
its code point. -/
theorem escape_cases (c : Char) :
    (escape '"' c = [c] ∧ c ≠ '\\' ∧ c ≠ '"' ∧ c ≠ '\n') ∨
    (∃ letter, escape '"' c = ['\\', letter] ∧ (c, letter) ∈ letterEscapes) ∨
    escape '"' c = hexEscape c := by
  unfold escape letterEscapes
  split
  · simp_all
  split
  · simp_all
  split
  · simp_all
  split
  · simp_all
  split
  · simp_all
  split
  · simp_all
  · simp

/-- The letter of an escape says which character it stands for. -/
theorem eq_of_mem_letterEscapes {c c' letter : Char} (h : (c, letter) ∈ letterEscapes)
    (h' : (c', letter) ∈ letterEscapes) : c = c' := by
  simp only [letterEscapes, List.mem_cons, Prod.mk.injEq, List.not_mem_nil, or_false] at h h'
  rcases h with ⟨rfl, rfl⟩ | ⟨rfl, rfl⟩ | ⟨rfl, rfl⟩ | ⟨rfl, rfl⟩ | ⟨rfl, rfl⟩ | ⟨rfl, rfl⟩ <;>
    exact (by simpa using h' : c' = _).symm

/-- A character that is written by its code point, and what follows it. -/
theorem hexEscape_append_inj {c c' : Char} (h : hexEscape c ++ rest = hexEscape c' ++ rest') :
    c = c' ∧ rest = rest' := by
  have hdigits : ∀ (c d : Char), d ∈ Nat.toDigits 16 c.toNat → (d != '\x7d') = true := by
    intro c d hd
    obtain ⟨n, hn, rfl⟩ := exists_digitChar_of_mem_toDigits (by decide) hd
    have hall : ∀ n : Fin 16, (n.val.digitChar != '\x7d') = true := by decide
    exact hall ⟨n, hn⟩
  simp only [hexEscape, List.cons_append, List.append_assoc, List.cons.injEq, true_and,
    List.nil_append] at h
  obtain ⟨hcode, hrest⟩ := append_inj_of_stop (hdigits c) (hdigits c') (by simp) (by simp) h
  have hnat : c.toNat = c'.toNat := toDigits_injective (by decide) (by decide) hcode
  exact ⟨Char.toNat_inj.mp hnat, (List.cons.inj hrest).2⟩

/-- **An escaped character and what follows it can be told apart.** -/
theorem escape_append_inj {c c' : Char} (h : escape '"' c ++ rest = escape '"' c' ++ rest') :
    c = c' ∧ rest = rest' := by
  have hletter : ∀ c letter, (c, letter) ∈ letterEscapes → letter ≠ 'u' := by
    intro c letter hmem
    rintro rfl
    simp [letterEscapes] at hmem
  rcases escape_cases c with ⟨hc, hself, -⟩ | ⟨letter, hc, hmem⟩ | hc
  · rcases escape_cases c' with ⟨hc', -⟩ | ⟨letter', hc', -⟩ | hc'
    · rw [hc, hc'] at h
      simpa using h
    · rw [hc, hc'] at h
      exact absurd (List.cons.inj h).1 hself
    · rw [hc, hc'] at h
      exact absurd (List.cons.inj h).1 hself
  · rcases escape_cases c' with ⟨hc', hself', -⟩ | ⟨letter', hc', hmem'⟩ | hc'
    · rw [hc, hc'] at h
      exact absurd (List.cons.inj h).1.symm hself'
    · rw [hc, hc'] at h
      obtain ⟨rfl, hrest⟩ : letter = letter' ∧ rest = rest' := by simpa using h
      exact ⟨eq_of_mem_letterEscapes hmem hmem', hrest⟩
    · rw [hc, hc'] at h
      exact absurd (List.cons.inj (List.cons.inj h).2).1 (hletter c letter hmem)
  · rcases escape_cases c' with ⟨hc', hself', -⟩ | ⟨letter', hc', hmem'⟩ | hc'
    · rw [hc, hc'] at h
      exact absurd (List.cons.inj h).1.symm hself'
    · rw [hc, hc'] at h
      exact absurd (List.cons.inj (List.cons.inj h).2).1.symm (hletter c' letter' hmem')
    · rw [hc, hc'] at h
      exact hexEscape_append_inj h

/-- No escape starts with a quote. -/
theorem exists_escape_eq_cons (c : Char) :
    ∃ first more, escape '"' c = first :: more ∧ first ≠ '"' := by
  rcases escape_cases c with ⟨hc, -, hquote, -⟩ | ⟨letter, hc, -⟩ | hc
  · exact ⟨c, [], hc, hquote⟩
  · exact ⟨'\\', [letter], hc, by decide⟩
  · exact ⟨'\\', _, hc, by decide⟩

/-- Escaped characters end at the first quote, so they and what follows are determined. -/
theorem flatMap_escape_append_inj {text text' : List Char}
    (h : text.flatMap (escape '"') ++ '"' :: rest = text'.flatMap (escape '"') ++ '"' :: rest') :
    text = text' ∧ rest = rest' := by
  induction text generalizing text' with
  | nil =>
      cases text' with
      | nil => simpa using h
      | cons c' text' =>
          obtain ⟨first, more, hc', hfirst⟩ := exists_escape_eq_cons c'
          rw [List.flatMap_cons, hc'] at h
          exact absurd (List.cons.inj h).1.symm hfirst
  | cons c text ih =>
      cases text' with
      | nil =>
          obtain ⟨first, more, hc, hfirst⟩ := exists_escape_eq_cons c
          rw [List.flatMap_cons, hc] at h
          exact absurd (List.cons.inj h).1 hfirst
      | cons c' text' =>
          rw [List.flatMap_cons, List.flatMap_cons, List.append_assoc, List.append_assoc] at h
          obtain ⟨rfl, hlater⟩ := escape_append_inj h
          obtain ⟨rfl, hrest⟩ := ih hlater
          exact ⟨rfl, hrest⟩

/-- **A quoted text and what follows it can be told apart.** -/
theorem quoted_append_inj {text text' : String}
    (h : (quoted text).toList ++ rest = (quoted text').toList ++ rest') :
    text = text' ∧ rest = rest' := by
  simp only [quoted, quotedChars, String.toList_ofList, List.cons_append, List.append_assoc,
    List.nil_append, List.cons.injEq, true_and] at h
  obtain ⟨htext, hrest⟩ := flatMap_escape_append_inj h
  exact ⟨String.toList_inj.mp htext, hrest⟩

/-- A quoted text stays on its line, whatever the text is. -/
theorem lineEnd_not_mem_quoted (text : String) : '\n' ∉ (quoted text).toList := by
  have hescape : ∀ c, '\n' ∉ escape '"' c := by
    intro c
    rcases escape_cases c with ⟨hc, -, -, hline⟩ | ⟨letter, hc, hmem⟩ | hc
    · rw [hc, List.mem_singleton]
      exact hline.symm
    · rw [hc]
      intro hline
      obtain rfl : '\n' = letter := by simpa using hline
      simp [letterEscapes] at hmem
    · rw [hc, hexEscape]
      intro hline
      have hdigit : '\n' ∈ Nat.toDigits 16 c.toNat := by simpa using hline
      obtain ⟨n, hn, heq⟩ := exists_digitChar_of_mem_toDigits (by decide) hdigit
      have hall : ∀ n : Fin 16, '\n' ≠ n.val.digitChar := by decide
      exact hall ⟨n, hn⟩ heq
  simp [quoted, quotedChars, hescape]

end RobotScript.Text
