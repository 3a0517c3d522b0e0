/-!
# Words in capitals

Mnemonics are words in capitals with underscores for hyphens, and two words that agree in this form
differ at most in the case of their letters and in hyphens and underscores.

## Main definitions

* `capitals` — a word in capitals with underscores for hyphens.
-/

namespace RobotScript.Text

/-- An ASCII letter as a capital, and an underscore for a hyphen. -/
def capital (c : Char) : Char :=
  if c = '-' then '_' else c.toUpper

/-- A word in capitals with underscores for hyphens. -/
def capitals (word : String) : String :=
  word.map capital

end RobotScript.Text
