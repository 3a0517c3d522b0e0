import RobotScript.Text.Plain

/-!
# Quoted text

A string is shown between double quotes and a character between single quotes. The tab, the
line feed, the carriage return and the null character have a letter escape, the backslash and
the delimiter are written after a backslash, every other plain character stands for itself, and
what is left is written by its code point in hexadecimal.

## Main definitions

* `escape` — how one character is written between two delimiters.
* `quoted`, `quotedChar` — a string and a character between their delimiters.
-/

namespace RobotScript.Text

/-- A character by its code point: lower-case hexadecimal digits between braces, without leading
zeros. -/
def hexEscape (c : Char) : List Char :=
  '\\' :: 'u' :: '\x7b' :: Nat.toDigits 16 c.toNat ++ ['\x7d']

/-- How `c` is written between two `delimiter`s. -/
def escape (delimiter c : Char) : List Char :=
  if c = '\x00' then ['\\', '0']
  else if c = '\t' then ['\\', 't']
  else if c = '\n' then ['\\', 'n']
  else if c = '\r' then ['\\', 'r']
  else if c = '\\' ∨ c = delimiter then ['\\', c]
  else if isPlain c then [c]
  else hexEscape c

/-- The characters `text` between double quotes. -/
def quotedChars (text : List Char) : List Char :=
  '"' :: text.flatMap (escape '"') ++ ['"']

/-- A string between double quotes. -/
def quoted (text : String) : String :=
  String.ofList (quotedChars text.toList)

/-- A character between single quotes. -/
def quotedChar (c : Char) : String :=
  String.ofList ('\'' :: escape '\'' c ++ ['\''])

end RobotScript.Text
