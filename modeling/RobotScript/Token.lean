import RobotScript.Condition
import RobotScript.Text.Quoted

/-!
# Tokens

The words and signs of a program's source, with their places in it. A word is a keyword, the exact
spelling of a condition, or an identifier: a letter followed by letters, digits and hyphens.
Whatever is none of these is kept as it stands. Comments, line ends and the end of the input are
tokens as well, so that a token list describes its source.

## Main definitions

* `Position`, `Keyword`, `Token`, `Located`.
* `Token.ofWord` — the token of a word.
* `Token.spelling` — how a token is written, also where a message quotes it.
* `Token.describe` — the token with the class it belongs to.
-/

namespace RobotScript

/-- A place in the source. Lines and columns count from one, and columns count characters. -/
structure Position where
  line : Nat
  column : Nat
  deriving DecidableEq, Repr

/-- The words that shape a program. They are written in capitals. -/
inductive Keyword where
  | programKw
  | isKw
  | beginKw
  | endKw
  | instructionKw
  | ifKw
  | thenKw
  | elseKw
  | whileKw
  | doKw
  deriving DecidableEq, Repr

/-- A word or sign of the source. -/
inductive Token where
  | keyword (keyword : Keyword)
  | condition (condition : Condition)
  /-- A word that can name a program or an instruction. -/
  | ident (name : String)
  /-- A word or a character with no meaning of its own. -/
  | other (text : String)
  /-- The text after a number sign, up to the end of the line. -/
  | comment (text : String)
  | newline
  | eof
  deriving DecidableEq, Repr

/-- A token with the place of its first character. -/
structure Located where
  token : Token
  position : Position
  deriving DecidableEq, Repr

namespace Position

/-- Where a source begins. -/
def start : Position := ⟨1, 1⟩

/-- The place after a character: the next line after a line feed, else the next column. -/
def advance (p : Position) (c : Char) : Position :=
  if c = '\n' then ⟨p.line + 1, 1⟩ else ⟨p.line, p.column + 1⟩

/-- The place after a run of characters. -/
def advanceAll (p : Position) (text : List Char) : Position :=
  text.foldl advance p

/-- The place as a message starts with it. -/
def label (p : Position) : String :=
  s!"{p.line}:{p.column}"

end Position

namespace Keyword

/-- All keywords. -/
def all : List Keyword :=
  [programKw, isKw, beginKw, endKw, instructionKw, ifKw, thenKw, elseKw, whileKw, doKw]

/-- How the keyword is written. -/
def spelling : Keyword → String
  | programKw => "PROGRAM"
  | isKw => "IS"
  | beginKw => "BEGIN"
  | endKw => "END"
  | instructionKw => "INSTRUCTION"
  | ifKw => "IF"
  | thenKw => "THEN"
  | elseKw => "ELSE"
  | whileKw => "WHILE"
  | doKw => "DO"

/-- The keyword's name among the token classes. -/
def title : Keyword → String
  | programKw => "Program"
  | isKw => "Is"
  | beginKw => "Begin"
  | endKw => "End"
  | instructionKw => "Instruction"
  | ifKw => "If"
  | thenKw => "Then"
  | elseKw => "Else"
  | whileKw => "While"
  | doKw => "Do"

/-- The keyword that a word is. -/
def ofWord? : String → Option Keyword
  | "PROGRAM" => some programKw
  | "IS" => some isKw
  | "BEGIN" => some beginKw
  | "END" => some endKw
  | "INSTRUCTION" => some instructionKw
  | "IF" => some ifKw
  | "THEN" => some thenKw
  | "ELSE" => some elseKw
  | "WHILE" => some whileKw
  | "DO" => some doKw
  | _ => none

/-- The words that are keywords. -/
def words : List String :=
  ["PROGRAM", "IS", "BEGIN", "END", "INSTRUCTION", "IF", "THEN", "ELSE", "WHILE", "DO"]

theorem mem_all (k : Keyword) : k ∈ all := by
  cases k <;> decide

end Keyword

/-- The word is a keyword. -/
def isKeyword (word : String) : Bool :=
  Keyword.words.contains word

/-- The characters make up a name: an ASCII letter, then ASCII letters, digits and hyphens. -/
def isNameShaped : List Char → Bool
  | [] => false
  | c :: rest => c.isAlpha && rest.all fun d => d.isAlphanum || d == '-'

/-- The word can name a program or an instruction. -/
def isIdentifier (word : String) : Bool :=
  isNameShaped word.toList && !isKeyword word && (Condition.ofSpelling? word).isNone

namespace Token

/-- The token of a word: a keyword, else the exact spelling of a condition, else an identifier,
else a word without a meaning of its own. -/
def ofWord (word : String) : Token :=
  match Keyword.ofWord? word with
  | some k => keyword k
  | none =>
    match Condition.ofSpelling? word with
    | some c => condition c
    | none => if isIdentifier word then ident word else other word

/-- How the token is written. A line end and the end of the input, which have no visible
spelling, are named instead. -/
def spelling : Token → String
  | keyword k => k.spelling
  | condition c => c.spelling
  | ident name => name
  | other text => text
  | comment text => "# " ++ text
  | newline => "\\n"
  | eof => "end of input"

/-- The token's class, with the text or condition that the class does not determine. -/
def describe : Token → String
  | keyword k => k.title
  | condition c => "Condition(" ++ c.title ++ ")"
  | ident name => "Ident(" ++ Text.quoted name ++ ")"
  | other text => "Other(" ++ Text.quoted text ++ ")"
  | comment text => "Comment(" ++ Text.quoted text ++ ")"
  | newline => "Newline"
  | eof => "Eof"

/-- A statement can begin with this token. -/
def startsStatement : Token → Bool
  | keyword .ifKw => true
  | keyword .whileKw => true
  | ident _ => true
  | _ => false

/-- The token is there for the reader only: a comment or a line end. -/
def isLayout : Token → Bool
  | comment _ => true
  | newline => true
  | _ => false

/-- The condition that the token stands for where a condition is due. -/
def condition? : Token → Option Condition
  | condition c => some c
  | ident word => Condition.ofWord? word
  | other word => Condition.ofWord? word
  | _ => none

end Token

end RobotScript
