/-!
# Splitting text at a character

Text splits at each occurrence of a character into the pieces between them, which may be empty:
there is one piece more than there are occurrences.

## Main definitions

* `pieces` — the pieces of a text.
-/

namespace RobotScript.Text

/-- The pieces of a text between the occurrences of `separator`. -/
def pieces (separator : Char) : List Char → List (List Char)
  | [] => [[]]
  | c :: rest =>
    if c = separator then [] :: pieces separator rest
    else
      match pieces separator rest with
      | piece :: later => (c :: piece) :: later
      | [] => [[c]]

end RobotScript.Text
