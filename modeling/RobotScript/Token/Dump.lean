import RobotScript.Text.Blank
import RobotScript.Text.Decimal
import RobotScript.Token

/-!
# Token dumps

A dump shows a token list with one token a line: its place, its kind in capitals, and the token
itself, either described with its class or as it is written. The kinds can be told apart by
colour as well.

## Main definitions

* `DumpStyle` — whether a dump is coloured and whether it describes the tokens.
* `DumpStyle.render` — the dump of a token list.
-/

namespace RobotScript

/-- How a token list is shown. -/
structure DumpStyle where
  /-- Colour each line by the kind of its token. -/
  coloured : Bool := true
  /-- Show tokens with their class, instead of as they are written. -/
  described : Bool := true
  deriving DecidableEq, Repr

namespace Token

/-- The token's kind, as a dump names it. -/
def kind : Token → String
  | newline => "NEWLINE"
  | comment _ => "COMMENT"
  | eof => "EOF"
  | condition _ => "COND"
  | ident _ => "IDENT"
  | other _ => "OTHER"
  | keyword _ => "KEYWORD"

/-- The terminal sequence that switches to the colour of the token's kind. -/
def colour : Token → String
  | newline => "\x1b[2m"
  | comment _ => "\x1b[2m"
  | eof => "\x1b[2m"
  | condition _ => "\x1b[36m"
  | ident _ => "\x1b[33m"
  | other _ => "\x1b[31m"
  | keyword _ => "\x1b[35m"

/-- The token as it is written, on one line of a dump. -/
def plainText : Token → String
  | comment text => "COMMENT: " ++ String.ofList (Text.trim text.toList)
  | newline => "NEWLINE"
  | eof => "EOF"
  | token => token.spelling

end Token

namespace DumpStyle

/-- The terminal sequence that switches colours off. -/
def resetColour : String := "\x1b[0m"

/-- The token as it stands on its line. -/
def text (style : DumpStyle) (token : Token) : String :=
  if style.described then token.describe else token.plainText

/-- The line of one token, with its line end. -/
def line (style : DumpStyle) (t : Located) : String :=
  "[" ++ Text.padded 2 t.position.line ++ ":" ++ Text.padded 2 t.position.column ++ "] " ++
    (if style.coloured then t.token.colour else "") ++ Text.padRight 8 t.token.kind ++ " " ++
    style.text t.token ++ (if style.coloured then resetColour else "") ++ "\n"

/-- The dump of a token list: the lines of its tokens in order. -/
def render (style : DumpStyle) (tokens : List Located) : String :=
  String.join (tokens.map style.line)

end DumpStyle

end RobotScript
