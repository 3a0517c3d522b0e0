/-!
# Blank characters

The blank characters are those with the property `White_Space`: the controls from the tab to the
carriage return, the space, the next-line control, the no-break space and the spaces and
separators of the general punctuation and ideographic blocks. Text is trimmed of them at both
ends.

## Main definitions

* `isBlank` — the character is blank.
* `trim` — the text without the blanks at its two ends.
-/

namespace RobotScript.Text

/-- The character has the property `White_Space`. -/
def isBlank (c : Char) : Bool :=
  let n := c.toNat
  (0x9 ≤ n && n ≤ 0xD) || n == 0x20 || n == 0x85 || n == 0xA0 || n == 0x1680 ||
    (0x2000 ≤ n && n ≤ 0x200A) || n == 0x2028 || n == 0x2029 || n == 0x202F || n == 0x205F ||
    n == 0x3000

/-- The text without the blank characters at its end. -/
def trimEnd : List Char → List Char
  | [] => []
  | c :: rest =>
    match trimEnd rest with
    | [] => if isBlank c then [] else [c]
    | kept => c :: kept

/-- The text without the blank characters at its two ends. -/
def trim (text : List Char) : List Char :=
  trimEnd (text.dropWhile isBlank)

end RobotScript.Text
