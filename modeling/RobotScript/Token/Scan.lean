import RobotScript.Text.Blank
import RobotScript.Token

/-!
# Splitting a source into tokens

Spaces, tabs and carriage returns separate tokens. A word is a run of ASCII letters, digits,
hyphens and underscores, as long as possible; a number sign opens a comment that runs up to the
end of its line; any other character is a token by itself, except that a control character is
refused. The last token is the end of the input.

## Main definitions

* `ScanError` — the first character that no token can contain.
* `scan` — the tokens of a source.
* `scanProgram` — the tokens that matter to a program: those of `scan` without comments and line
  ends.
-/

namespace RobotScript

/-- A character that no token can contain, with its place. -/
structure ScanError where
  position : Position
  char : Char
  deriving DecidableEq, Repr

/-- The message of a scan error. -/
def ScanError.message (e : ScanError) : String :=
  e.position.label ++ ": unexpected character " ++ Text.quotedChar e.char

/-- The character separates tokens and belongs to none. -/
def isGap (c : Char) : Bool :=
  c == ' ' || c == '\t' || c == '\r'

/-- The character can be part of a word. -/
def isWordChar (c : Char) : Bool :=
  c.isAlphanum || c == '-' || c == '_'

/-- The character is a control character: one of the first 32, or from `0x7F` to `0x9F`. -/
def isControl (c : Char) : Bool :=
  c.toNat < 0x20 || (0x7F ≤ c.toNat && c.toNat ≤ 0x9F)

/-- The character does not end a line. -/
def isInLine (c : Char) : Bool :=
  c != '\n'

theorem length_dropWhile_le (p : Char → Bool) (text : List Char) :
    (text.dropWhile p).length ≤ text.length :=
  (List.dropWhile_suffix p).length_le

/-- The tokens of the rest of a source, of which the first character is at `position`. -/
def scanFrom (position : Position) (source : List Char) : Except ScanError (List Located) :=
  match source with
  | [] => .ok [⟨.eof, position⟩]
  | c :: rest =>
    if isGap c then
      scanFrom (position.advance c) rest
    else if c = '\n' then do
      let later ← scanFrom (position.advance c) rest
      return ⟨.newline, position⟩ :: later
    else if c = '#' then do
      let text := rest.takeWhile isInLine
      let later ← scanFrom (position.advanceAll (c :: text)) (rest.dropWhile isInLine)
      return ⟨.comment (String.ofList (Text.trim text)), position⟩ :: later
    else if isWordChar c then do
      let word := c :: rest.takeWhile isWordChar
      let later ← scanFrom (position.advanceAll word) (rest.dropWhile isWordChar)
      return ⟨.ofWord (String.ofList word), position⟩ :: later
    else if isControl c then
      .error ⟨position, c⟩
    else do
      let later ← scanFrom (position.advance c) rest
      return ⟨.other (String.ofList [c]), position⟩ :: later
termination_by source.length
decreasing_by
  all_goals
    have := length_dropWhile_le isInLine rest
    have := length_dropWhile_le isWordChar rest
    simp only [List.length_cons]
    omega

/-- The tokens of a source, the end of the input included. -/
def scan (source : String) : Except ScanError (List Located) :=
  scanFrom .start source.toList

/-- The tokens of a source without comments and line ends. -/
def scanProgram (source : String) : Except ScanError (List Located) := do
  let tokens ← scan source
  return tokens.filter fun t => !t.token.isLayout

end RobotScript
