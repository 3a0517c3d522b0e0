import RobotScript.Text.Quoted

/-!
# Text that leaves a terminal alone

Some control characters steer the terminal that shows them: the bell, the backspace, the form feed,
the escape character, the delete character and the controls from `0x80` to `0x9F`. A text that may
hold them is made safe by writing each by its number: two hexadecimal digits after `\x` below
`0x80`, and the digits between braces from there on. All other characters stand for themselves, the
backslash included.

## Main definitions

* `steersTerminal` — the character can steer a terminal.
* `terminalSafe` — the text without such characters.
-/

namespace RobotScript.Text

/-- The character can steer the terminal that shows it. -/
def steersTerminal (c : Char) : Bool :=
  let n := c.toNat
  n == 0x7 || n == 0x8 || n == 0xC || n == 0x1B || (0x7F ≤ n && n ≤ 0x9F)

/-- A character below `0x100` by two lower-case hexadecimal digits. -/
def byteEscape (c : Char) : List Char :=
  ['\\', 'x', Nat.digitChar (c.toNat / 16), Nat.digitChar (c.toNat % 16)]

/-- How a character is written where nothing may steer a terminal. -/
def disarm (c : Char) : List Char :=
  if !steersTerminal c then [c]
  else if c.toNat < 0x80 then byteEscape c
  else hexEscape c

/-- The text with every character that steers a terminal written by its number. -/
def terminalSafe (text : String) : String :=
  String.ofList (text.toList.flatMap disarm)

end RobotScript.Text
