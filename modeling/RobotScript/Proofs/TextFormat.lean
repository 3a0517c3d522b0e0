import Mathlib.Data.List.DropRight
import Mathlib.Data.List.Forall2
import Mathlib.Tactic
import RobotScript.Bytecode.Text

/-!
# The text format is read back, and nothing malformed gets in

Reading code from text goes over the lines once and stops at the first one that is not a number; it
compares the count with the numbers only when all lines are numbers. Here the same is said of the
text alone. `contentLines` are the lines that count, made with the library's functions on lists, and
`Text.Numeral` says what the characters of a number are and what its value is. Which of the four
outcomes a text has follows from them.

## Main definitions

* `Text.Numeral` — the characters are a numeral with this value.
* `Bytecode.contentLines` — the lines of a text that are not blank, trimmed and with their numbers.
* `Bytecode.Fits` — the numbers of the code, and their count, have 64 bits.

## Main results

* `Text.readNumeral?_eq_some_iff`: exactly the numerals below the bound are read, with their values.
* `Bytecode.numberedLines_pieces`: the lines that are read are the content lines.
* `Bytecode.readLines_eq_ok_iff`, `Bytecode.readLines_eq_error_iff`: what reading the lines gives.
* `Bytecode.ofText_classification`: **what becomes of any text**, and the text of code is read back.
-/

namespace RobotScript

/-! ### Numerals -/

namespace Text

/-- The characters are a numeral: an optional plus sign and one or more digits, which have this
value in decimal. -/
def Numeral (text : List Char) (value : Nat) : Prop :=
  ∃ digits, (text = digits ∨ text = '+' :: digits) ∧ digits ≠ [] ∧
    (∀ c ∈ digits, c.isDigit = true) ∧ Nat.ofDigitChars 10 digits 0 = value

/-- A list of characters is read as digits exactly if they all are, with the value they have after
the number read before. -/
theorem readDigits?_eq_some_iff {start value : Nat} {digits : List Char} :
    readDigits? start digits = some value ↔
      (∀ c ∈ digits, c.isDigit = true) ∧ Nat.ofDigitChars 10 digits start = value := by
  induction digits generalizing start with
  | nil => simp [readDigits?]
  | cons c rest ih =>
      by_cases hc : c.isDigit = true
      · simp [readDigits?, digit?, hc, ih, Nat.ofDigitChars_cons]
      · simp [readDigits?, digit?, hc]

/-- A numeral with a plus sign is a plus sign before digits. -/
theorem numeral_plus_iff {rest : List Char} {value : Nat} :
    Numeral ('+' :: rest) value ↔ rest ≠ [] ∧ (∀ c ∈ rest, c.isDigit = true) ∧
      Nat.ofDigitChars 10 rest 0 = value := by
  constructor
  · rintro ⟨digits, rfl | h, hne, hdigits, hvalue⟩
    · -- a plus sign is not a digit
      exact absurd (hdigits '+' List.mem_cons_self) (by decide)
    · obtain rfl := (List.cons.inj h).2
      exact ⟨hne, hdigits, hvalue⟩
  · rintro ⟨hne, hdigits, hvalue⟩
    exact ⟨rest, .inr rfl, hne, hdigits, hvalue⟩

/-- Any other numeral is its digits. -/
theorem numeral_iff_of_ne_plus {text : List Char} {value : Nat}
    (hplus : ∀ rest, text = '+' :: rest → False) :
    Numeral text value ↔ text ≠ [] ∧ (∀ c ∈ text, c.isDigit = true) ∧
      Nat.ofDigitChars 10 text 0 = value := by
  constructor
  · rintro ⟨digits, rfl | h, hrest⟩
    · exact hrest
    · exact (hplus digits h).elim
  · intro h
    exact ⟨text, .inl rfl, h⟩

/-- **Exactly the numerals below the bound are read**, with their values. -/
theorem readNumeral?_eq_some_iff {bound value : Nat} {text : List Char} :
    readNumeral? bound text = some value ↔ Numeral text value ∧ value < bound := by
  have hread : ∀ digits : List Char,
      (if digits.isEmpty then none else (readDigits? 0 digits).filter (· < bound)) = some value ↔
        (digits ≠ [] ∧ (∀ c ∈ digits, c.isDigit = true) ∧ Nat.ofDigitChars 10 digits 0 = value) ∧
          value < bound := by
    intro digits
    cases digits with
    | nil => simp
    | cons c rest =>
        rw [List.isEmpty_cons, if_neg (by simp), Option.filter_eq_some_iff, readDigits?_eq_some_iff]
        simp
  unfold readNumeral?
  split
  · rw [numeral_plus_iff]
    exact hread _
  · rename_i hplus
    rw [numeral_iff_of_ne_plus hplus]
    exact hread _

instance (text : List Char) (value : Nat) : Decidable (Numeral text value) :=
  decidable_of_iff (readNumeral? (value + 1) text = some value) <| by
    simp [readNumeral?_eq_some_iff]

/-- The decimal digits of a number are a numeral for it. -/
theorem numeral_toDigits (n : Nat) : Numeral (Nat.toDigits 10 n) n :=
  ⟨Nat.toDigits 10 n, .inl rfl, Nat.toDigits_ne_nil,
    fun _ => Nat.isDigit_of_mem_toDigits (by decide) (by decide), Nat.ofDigitChars_ten_toDigits⟩

/-! ### Lines -/

/-- The pieces of a text are those of the library's function. -/
theorem pieces_eq_splitOn (separator : Char) (text : List Char) :
    pieces separator text = text.splitOn separator := by
  induction text with
  | nil => rfl
  | cons c rest ih =>
      rw [pieces, ih, List.splitOn_cons_eq_if_modifyHead]
      by_cases hc : c = separator
      · simp [hc]
      · obtain ⟨piece, later, hpieces⟩ := List.exists_cons_of_ne_nil (rest.splitOn_ne_nil separator)
        simp [hc, hpieces]

/-- Trimming at the end drops blanks from the right. -/
theorem trimEnd_eq_rdropWhile (text : List Char) : trimEnd text = text.rdropWhile isBlank := by
  induction text with
  | nil => rfl
  | cons c rest ih =>
      have hrest : rest.reverse.dropWhile isBlank = (rest.rdropWhile isBlank).reverse := by
        rw [List.rdropWhile, List.reverse_reverse]
      have hall : (c :: rest).rdropWhile isBlank =
          ((rest.reverse ++ [c]).dropWhile isBlank).reverse := by
        rw [List.rdropWhile, List.reverse_cons]
      rw [trimEnd, ih, hall, List.dropWhile_append, hrest]
      cases rest.rdropWhile isBlank with
      | nil =>
          by_cases hc : isBlank c = true
          · simp [hc]
          · simp [hc]
      | cons d more => simp

/-- The text without the blanks on the left and on the right. -/
def stripped (text : List Char) : List Char :=
  (text.dropWhile isBlank).rdropWhile isBlank

theorem trim_eq_stripped (text : List Char) : trim text = stripped text :=
  trimEnd_eq_rdropWhile _

/-- Trimming adds no characters. -/
theorem mem_of_mem_trim {text : List Char} {c : Char} (h : c ∈ trim text) : c ∈ text := by
  rw [trim_eq_stripped] at h
  exact (List.dropWhile_suffix isBlank).mem ((List.rdropWhile_prefix isBlank _).mem h)

/-- Digits are not blank, so trimming leaves them as they are. -/
theorem trim_of_digits {digits : List Char} (h : ∀ c ∈ digits, c.isDigit = true) :
    trim digits = digits := by
  have hblank : ∀ c ∈ digits, isBlank c = false := by
    intro c hc
    have hrange : 48 ≤ c.toNat ∧ c.toNat ≤ 57 := Char.isDigit_iff_toNat.mp (h c hc)
    simp only [isBlank, Bool.or_eq_false_iff, Bool.and_eq_false_imp, decide_eq_true_eq,
      decide_eq_false_iff_not, beq_eq_false_iff_ne]
    omega
  have hstart : digits.dropWhile isBlank = digits := by
    cases digits with
    | nil => rfl
    | cons c rest => exact List.dropWhile_cons_of_neg (by simp [hblank c])
  rw [trim_eq_stripped, stripped, hstart, List.rdropWhile_eq_self_iff]
  intro hne
  simp [hblank _ (List.getLast_mem hne)]

end Text

namespace Bytecode

/-- The lines of a text without the blanks around them, each with its number among all lines, less
those in which nothing is left. -/
def contentLines (text : String) : List (Nat × List Char) :=
  (((text.toList.splitOn '\n').zipIdx 1).map fun l => (l.2, Text.stripped l.1)).filter
    fun l => !l.2.isEmpty

theorem numberedLines_eq_filter (first : Nat) (lines : List (List Char)) :
    numberedLines first lines =
      ((lines.zipIdx first).map fun l => (l.2, Text.stripped l.1)).filter
        fun l => !l.2.isEmpty := by
  induction lines generalizing first with
  | nil => rfl
  | cons line later ih =>
      rw [numberedLines, Text.trim_eq_stripped, List.zipIdx_cons, List.map_cons, List.filter_cons,
        ← ih]
      cases Text.stripped line with
      | nil => rfl
      | cons c rest => rfl

/-- The lines that are read are the content lines. -/
theorem numberedLines_pieces (text : String) :
    numberedLines 1 (Text.pieces '\n' text.toList) = contentLines text := by
  rw [Text.pieces_eq_splitOn, numberedLines_eq_filter, contentLines]

/-- A line is a number of at most 64 bits. -/
def IsNumber (line : List Char) : Prop :=
  ∃ value, Text.Numeral line value ∧ value < wordBound

/-- The lines are numbers of at most 64 bits, with these values. -/
def Reads (lines : List (Nat × List Char)) (values : List Nat) : Prop :=
  List.Forall₂ (fun line value => Text.Numeral line.2 value ∧ value < wordBound) lines values

theorem isNumber_iff_isSome {line : List Char} :
    IsNumber line ↔ (Text.readNumeral? wordBound line).isSome = true := by
  simp only [IsNumber, ← Text.readNumeral?_eq_some_iff, Option.isSome_iff_exists]

instance (line : List Char) : Decidable (IsNumber line) :=
  decidable_of_iff _ isNumber_iff_isSome.symm

theorem readLine_eq_ok_iff {line : Nat × List Char} {value : Nat} :
    readLine line = .ok value ↔ Text.Numeral line.2 value ∧ value < wordBound := by
  rw [← Text.readNumeral?_eq_some_iff, readLine]
  cases Text.readNumeral? wordBound line.2 with
  | none => simp
  | some n => simp

theorem readLine_eq_error_iff {line : Nat × List Char} {e : TextError} :
    readLine line = .error e ↔
      ¬ IsNumber line.2 ∧ e = .invalidNumber line.1 (String.ofList line.2) := by
  rw [isNumber_iff_isSome, readLine]
  cases Text.readNumeral? wordBound line.2 with
  | none => simp [eq_comm]
  | some n => simp

/-- Reading the lines succeeds exactly if all of them are numbers. -/
theorem readLines_eq_ok_iff {lines : List (Nat × List Char)} {values : List Nat} :
    lines.mapM readLine = .ok values ↔ Reads lines values := by
  unfold Reads
  simp only [← readLine_eq_ok_iff]
  induction lines generalizing values with
  | nil => simp [pure, Except.pure, eq_comm]
  | cons line later ih =>
      rw [List.mapM_cons, List.forall₂_cons_left_iff]
      simp only [← ih]
      cases readLine line with
      | error e => simp [bind, Except.bind]
      | ok value =>
          cases later.mapM readLine with
          | error e => simp [bind, Except.bind]
          | ok rest => simp [bind, Except.bind, pure, Except.pure, eq_comm]

/-- Reading the lines fails at the first that is not a number. -/
theorem readLines_eq_error_iff {lines : List (Nat × List Char)} {e : TextError} :
    lines.mapM readLine = .error e ↔
      ∃ before line after, lines = before ++ line :: after ∧ (∀ l ∈ before, IsNumber l.2) ∧
        ¬ IsNumber line.2 ∧ e = .invalidNumber line.1 (String.ofList line.2) := by
  induction lines with
  | nil => simp [pure, Except.pure]
  | cons line later ih =>
      rw [List.mapM_cons]
      cases hline : readLine line with
      | error e' =>
          obtain ⟨hnot, rfl⟩ := readLine_eq_error_iff.mp hline
          simp only [bind, Except.bind, Except.error.injEq]
          constructor
          · rintro rfl
            exact ⟨[], line, later, rfl, by simp, hnot, rfl⟩
          · rintro ⟨before, line', after, hlines, hbefore, -, rfl⟩
            cases before with
            | nil => rw [(List.cons.inj hlines).1]
            | cons l before =>
                -- the first line would be among the numbers before the one that fails
                rw [List.cons_append] at hlines
                obtain rfl := (List.cons.inj hlines).1
                exact absurd (hbefore line List.mem_cons_self) hnot
      | ok value =>
          have hnumber : IsNumber line.2 := ⟨value, readLine_eq_ok_iff.mp hline⟩
          have hbind : (Except.ok value >>= fun n => later.mapM readLine >>= fun rest =>
              pure (n :: rest)) = Except.error e ↔ later.mapM readLine = .error e := by
            cases later.mapM readLine <;> simp [bind, Except.bind, pure, Except.pure]
          rw [hbind, ih]
          constructor
          · rintro ⟨before, line', after, rfl, hbefore, hnot, rfl⟩
            exact ⟨line :: before, line', after, rfl,
              List.forall_mem_cons.mpr ⟨hnumber, hbefore⟩, hnot, rfl⟩
          · rintro ⟨before, line', after, hlines, hbefore, hnot, rfl⟩
            cases before with
            | nil =>
                obtain rfl := (List.cons.inj hlines).1
                exact absurd hnumber hnot
            | cons l before =>
                obtain ⟨rfl, rfl⟩ := List.cons.inj hlines
                exact ⟨before, line', after, rfl, (List.forall_mem_cons.mp hbefore).2, hnot, rfl⟩

/-! ### Whole texts -/

/-- The numbers of the code, and their count, have 64 bits, as in the memory of the machine. -/
structure Fits (bc : Bytecode) : Prop where
  size : bc.size < wordBound
  values : ∀ n ∈ bc.values, n < wordBound

/-- Numbers that are read from lines have 64 bits. -/
theorem lt_wordBound_of_reads {lines : List (Nat × List Char)} {values : List Nat}
    (h : Reads lines values) : ∀ n ∈ values, n < wordBound := by
  induction h with
  | nil => simp
  | cons hline _ ih => exact List.forall_mem_cons.mpr ⟨hline.2, ih⟩

/-- The lines that are written for numbers are read as these numbers. -/
theorem reads_numberedLines {numbers : List Nat} (h : ∀ n ∈ numbers, n < wordBound) (first : Nat) :
    Reads (numberedLines first
      (Text.pieces '\n' (numbers.flatMap fun n => Nat.toDigits 10 n ++ ['\n']))) numbers := by
  induction numbers generalizing first with
  | nil => exact .nil
  | cons n rest ih =>
      obtain ⟨hn, hrest⟩ := List.forall_mem_cons.mp h
      have hdigits : ∀ c ∈ Nat.toDigits 10 n, c.isDigit = true := fun _ =>
        Nat.isDigit_of_mem_toDigits (by decide) (by decide)
      have hnewline : '\n' ∉ Nat.toDigits 10 n := fun hmem => absurd (hdigits _ hmem) (by decide)
      rw [List.flatMap_cons, List.append_assoc, List.singleton_append, Text.pieces_eq_splitOn,
        List.splitOn_append_cons_self_of_not_mem hnewline, ← Text.pieces_eq_splitOn, numberedLines,
        Text.trim_of_digits hdigits, if_neg (by simp [Nat.toDigits_ne_nil])]
      exact .cons ⟨Text.numeral_toDigits n, hn⟩ (ih hrest (first + 1))

theorem toList_toText (bc : Bytecode) :
    bc.toText.toList = (bc.size :: bc.values).flatMap fun n => Nat.toDigits 10 n ++ ['\n'] := by
  simp [toText, String.toList_join, List.flatMap_map]

section

variable {text : String}

/-- If some line is not a number, that is the outcome. -/
theorem ofText_of_error {e : TextError} (h : (contentLines text).mapM readLine = .error e) :
    ofText text = .error e := by
  rw [ofText, numberedLines_pieces, h]
  rfl

/-- If no line has a number, the count is missing. -/
theorem ofText_of_nil (h : (contentLines text).mapM readLine = .ok []) :
    ofText text = .error .missingLength := by
  rw [ofText, numberedLines_pieces, h]
  rfl

/-- If all lines are numbers, the first is compared with how many follow. -/
theorem ofText_of_cons {declared : Nat} {values : List Nat}
    (h : (contentLines text).mapM readLine = .ok (declared :: values)) :
    ofText text = if declared = values.length then .ok ⟨values⟩
      else .error (.lengthMismatch declared values.length) := by
  rw [ofText, numberedLines_pieces, h]
  rfl

/-- The numbers on the lines are determined. -/
theorem reads_iff_of_readLines {lines : List (Nat × List Char)} {numbers : List Nat}
    (h : lines.mapM readLine = .ok numbers) (values : List Nat) :
    Reads lines values ↔ values = numbers := by
  rw [← readLines_eq_ok_iff, h, Except.ok.injEq, eq_comm]

/-- Lines that are not all numbers have no values. -/
theorem not_reads_of_readLines {lines : List (Nat × List Char)} {e : TextError}
    (h : lines.mapM readLine = .error e) (values : List Nat) : ¬ Reads lines values := by
  rw [← readLines_eq_ok_iff, h]
  simp

/-- The count is missing exactly if every line is blank. -/
theorem ofText_eq_missingLength_iff :
    ofText text = .error .missingLength ↔ contentLines text = [] := by
  cases hread : (contentLines text).mapM readLine with
  | error e =>
      obtain ⟨before, line, after, hlines, -, -, rfl⟩ := readLines_eq_error_iff.mp hread
      simp [ofText_of_error hread, hlines]
  | ok numbers =>
      have hreads := readLines_eq_ok_iff.mp hread
      cases numbers with
      | nil => simp [ofText_of_nil hread, List.forall₂_nil_right_iff.mp hreads]
      | cons declared values =>
          have hne : contentLines text ≠ [] := by
            intro hnil
            rw [hnil] at hreads
            cases hreads
          rw [ofText_of_cons hread]
          split_ifs
          · simp [hne]
          · simp [hne]

/-- A line is reported exactly if it is the first that is not a number. -/
theorem ofText_eq_invalidNumber_iff {line : Nat} {found : String} :
    ofText text = .error (.invalidNumber line found) ↔
      ∃ before after, contentLines text = before ++ (line, found.toList) :: after ∧
        (∀ l ∈ before, IsNumber l.2) ∧ ¬ IsNumber found.toList := by
  have hread : ofText text = .error (.invalidNumber line found) ↔
      (contentLines text).mapM readLine = .error (.invalidNumber line found) := by
    cases hlines : (contentLines text).mapM readLine with
    | error e => rw [ofText_of_error hlines, Except.error.injEq, Except.error.injEq]
    | ok numbers =>
        cases numbers with
        | nil => simp [ofText_of_nil hlines]
        | cons declared values =>
            rw [ofText_of_cons hlines]
            split_ifs
            · simp
            · simp
  rw [hread, readLines_eq_error_iff]
  constructor
  · rintro ⟨before, l, after, hlines, hbefore, hnot, he⟩
    obtain ⟨rfl, rfl⟩ := TextError.invalidNumber.inj he
    exact ⟨before, after, by simpa using hlines, hbefore, by simpa using hnot⟩
  · rintro ⟨before, after, hlines, hbefore, hnot⟩
    exact ⟨before, _, after, hlines, hbefore, hnot, by simp⟩

/-- Two counts are reported exactly if all lines are numbers and the first is not how many
follow. -/
theorem ofText_eq_lengthMismatch_iff {declared actual : Nat} :
    ofText text = .error (.lengthMismatch declared actual) ↔
      ∃ values, Reads (contentLines text) (declared :: values) ∧ values.length = actual ∧
        declared ≠ actual := by
  cases hread : (contentLines text).mapM readLine with
  | error e =>
      obtain ⟨_, _, _, -, -, -, rfl⟩ := readLines_eq_error_iff.mp hread
      simp [ofText_of_error hread, not_reads_of_readLines hread]
  | ok numbers =>
      simp only [reads_iff_of_readLines hread]
      cases numbers with
      | nil => simp [ofText_of_nil hread]
      | cons first values =>
          rw [ofText_of_cons hread]
          split_ifs with h
          · constructor
            · intro heq
              cases heq
            · rintro ⟨values', heq, rfl, hne⟩
              obtain ⟨rfl, rfl⟩ := List.cons.inj heq
              exact absurd h hne
          · constructor
            · intro heq
              obtain ⟨rfl, rfl⟩ := TextError.lengthMismatch.inj (Except.error.inj heq)
              exact ⟨values, rfl, rfl, h⟩
            · rintro ⟨values', heq, rfl, -⟩
              obtain ⟨rfl, rfl⟩ := List.cons.inj heq
              rfl

/-- Code is read exactly if all lines are numbers, first how many follow and then those of the
code. -/
theorem ofText_eq_ok_iff {bc : Bytecode} :
    ofText text = .ok bc ↔ Reads (contentLines text) (bc.size :: bc.values) := by
  obtain ⟨values'⟩ := bc
  cases hread : (contentLines text).mapM readLine with
  | error e => simp [ofText_of_error hread, not_reads_of_readLines hread]
  | ok numbers =>
      rw [reads_iff_of_readLines hread]
      cases numbers with
      | nil => simp [ofText_of_nil hread]
      | cons first values =>
          rw [ofText_of_cons hread, List.cons.injEq, size]
          split_ifs with h
          · constructor
            · intro heq
              obtain rfl := Bytecode.mk.inj (Except.ok.inj heq)
              exact ⟨h.symm, rfl⟩
            · rintro ⟨-, rfl⟩
              rfl
          · constructor
            · intro heq
              cases heq
            · rintro ⟨hsize, rfl⟩
              exact absurd hsize.symm h

end

/-- The text of code is read back. -/
theorem ofText_toText {bc : Bytecode} (h : bc.Fits) : ofText bc.toText = .ok bc := by
  rw [ofText_eq_ok_iff, ← numberedLines_pieces, toList_toText]
  exact reads_numberedLines (List.forall_mem_cons.mpr ⟨h.size, h.values⟩) 1

/-- **What becomes of a text.** The text of code is read back. For any text, let the lines that
count be those with something in them besides blanks. If there are none, the count is missing. Else
the first of them that is not a number is reported, with its number and what it holds. Else, if the
first value differs from how many follow, the two are reported. Else the values that follow are the
code. -/
theorem ofText_classification :
    (∀ bc : Bytecode, bc.Fits → ofText bc.toText = .ok bc) ∧
    ∀ text,
      (ofText text = .error .missingLength ↔ contentLines text = []) ∧
      (∀ line found, ofText text = .error (.invalidNumber line found) ↔
        ∃ before after, contentLines text = before ++ (line, found.toList) :: after ∧
          (∀ l ∈ before, IsNumber l.2) ∧ ¬ IsNumber found.toList) ∧
      (∀ declared actual, ofText text = .error (.lengthMismatch declared actual) ↔
        ∃ values, Reads (contentLines text) (declared :: values) ∧ values.length = actual ∧
          declared ≠ actual) ∧
      ∀ bc, ofText text = .ok bc ↔ Reads (contentLines text) (bc.size :: bc.values) :=
  ⟨fun _ => ofText_toText, fun _ => ⟨ofText_eq_missingLength_iff,
    fun _ _ => ofText_eq_invalidNumber_iff, fun _ _ => ofText_eq_lengthMismatch_iff,
    fun _ => ofText_eq_ok_iff⟩⟩

/-- The largest number is read back, and a text with a sign, zeros in front, carriage returns and
blank lines is read; of two lines that are no numbers, the first is reported. -/
theorem ofText_classification_blanks :
    ofText (toText ⟨[18446744073709551615, 0]⟩) = .ok ⟨[18446744073709551615, 0]⟩ ∧
    ofText "2\r\n\r\n +07\r\n5\r\n" = .ok ⟨[7, 5]⟩ ∧
    ofText "4\n0\n\n-1\nx\n" = .error (.invalidNumber 4 "-1") := by
  have hfits : Fits ⟨[18446744073709551615, 0]⟩ := ⟨by decide, by decide⟩
  have hsigned : contentLines "2\r\n\r\n +07\r\n5\r\n" =
      [(1, ['2']), (3, ['+', '0', '7']), (4, ['5'])] := by decide
  have hwrong : contentLines "4\n0\n\n-1\nx\n" =
      [(1, ['4']), (2, ['0'])] ++ (4, ['-', '1']) :: [(5, ['x'])] := by decide
  refine ⟨ofText_classification.1 _ hfits, ((ofText_classification.2 _).2.2.2 _).mpr ?_,
    ((ofText_classification.2 _).2.1 _ _).mpr ⟨_, _, hwrong, ?_, ?_⟩⟩
  · rw [hsigned]
    exact .cons (by decide) (.cons (by decide) (.cons (by decide) .nil))
  · decide
  · decide

end Bytecode

end RobotScript
