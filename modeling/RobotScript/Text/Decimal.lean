/-!
# Decimal numerals

Numbers are written in decimal, in some places with zeros in front up to a least width. A numeral
that is read may start with a plus sign and must stay below a bound.

## Main definitions

* `padded` — a number with zeros in front up to a width.
* `padRight` — text with spaces after it up to a width.
* `readNumeral?` — the value of a numeral below a bound.
-/

namespace RobotScript.Text

/-- The number in decimal, with zeros in front if it has fewer than `width` digits. -/
def padded (width n : Nat) : String :=
  String.ofList ((Nat.toDigits 10 n).leftpad width '0')

/-- The text with spaces after it if it is shorter than `width`. -/
def padRight (width : Nat) (text : String) : String :=
  String.ofList (text.toList.rightpad width ' ')

/-- The value of a decimal digit. -/
def digit? (c : Char) : Option Nat :=
  if c.isDigit then some (c.toNat - '0'.toNat) else none

/-- The value of a list of digits read after a number `value`; `none` if some character is not a
digit. -/
def readDigits? (value : Nat) : List Char → Option Nat
  | [] => some value
  | c :: rest => do
    let d ← digit? c
    readDigits? (10 * value + d) rest

/-- The value of an optional plus sign followed by at least one digit, if it is below `bound`. -/
def readNumeral? (bound : Nat) (text : List Char) : Option Nat :=
  let digits := match text with
    | '+' :: rest => rest
    | _ => text
  if digits.isEmpty then none
  else (readDigits? 0 digits).filter (· < bound)

end RobotScript.Text
