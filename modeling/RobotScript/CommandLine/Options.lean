/-!
# Command lines

The compiler is called with one source file and options. Options start with a hyphen and may stand
before or after the file; after two hyphens by themselves everything is a file. An option is given
at most once. A one-letter option may share its hyphen with others, and its value may follow it
directly or after an equals sign; the value of a long option may follow after an equals sign. A
value that is an argument of its own does not start with a hyphen, unless it is just that.

## Main definitions

* `Options` — a call of the compiler.
* `Request` — what a command line asks for.
* `Request.ofArguments` — the request of a list of arguments.
-/

namespace RobotScript

/-- How code is written. -/
inductive Format where
  | text
  | binary
  deriving DecidableEq, Repr

/-- An option without a value. -/
inductive Flag where
  /-- Show the tokens of the source. -/
  | tokens
  /-- Show tokens without colours. -/
  | noColour
  /-- Show tokens as they are written. -/
  | pretty
  /-- Show the structure of the program. -/
  | ast
  /-- Show the program in its layout. -/
  | prettyPrint
  /-- Show a listing of the code. -/
  | disasm
  /-- Show the number of calls of actions in the main body. -/
  | count
  /-- Report more of the compiler's work. -/
  | verbose
  deriving DecidableEq, Repr

/-- A call of the compiler. -/
structure Options where
  file : String
  /-- The file to write the code to, instead of showing it. -/
  output : Option String
  format : Format
  flags : List Flag
  deriving DecidableEq, Repr

/-- What a command line asks for. -/
inductive Request where
  | run (options : Options)
  | version
  | help
  /-- The command line is not valid. -/
  | misuse
  deriving DecidableEq, Repr

namespace Format

/-- The format with this name. -/
def ofName? : String → Option Format
  | "text" => some text
  | "postcard" => some binary
  | _ => none

end Format

namespace Options

/-- The flag is given. -/
def has (o : Options) (flag : Flag) : Bool :=
  o.flags.contains flag

end Options

/-- What the arguments so far have given. -/
structure Draft where
  file : Option String
  output : Option String
  format : Option Format
  flags : List Flag

namespace Draft

/-- Nothing has been given. -/
def empty : Draft := ⟨none, none, none, []⟩

/-- The draft with the source file; there is one, and its name is not empty. -/
def setFile? (d : Draft) (value : String) : Option Draft :=
  if d.file.isSome || value.isEmpty then none else some { d with file := some value }

/-- The draft with the output file; there is at most one, and its name is not empty. -/
def setOutput? (d : Draft) (value : String) : Option Draft :=
  if d.output.isSome || value.isEmpty then none else some { d with output := some value }

/-- The draft with the format of the given name; there is at most one. -/
def setFormat? (d : Draft) (value : String) : Option Draft :=
  if d.format.isSome then none
  else (Format.ofName? value).map fun format => { d with format := some format }

/-- The draft with a flag; each is given at most once. -/
def addFlag? (d : Draft) (flag : Flag) : Option Draft :=
  if d.flags.contains flag then none else some { d with flags := d.flags ++ [flag] }

/-- The request when no arguments are left. Two flags make sense for tokens only. -/
def finish (d : Draft) : Request :=
  match d.file with
  | none => .misuse
  | some file =>
    if (d.flags.contains .noColour || d.flags.contains .pretty) && !d.flags.contains .tokens then
      .misuse
    else .run ⟨file, d.output, d.format.getD .text, d.flags⟩

end Draft

/-- An option by its meaning. -/
inductive OptionKey where
  | flag (flag : Flag)
  | output
  | format
  | version
  | help

namespace OptionKey

/-- The option with this name after two hyphens. -/
def ofLongName? : String → Option OptionKey
  | "tokens" => some (flag .tokens)
  | "no-color" => some (flag .noColour)
  | "pretty" => some (flag .pretty)
  | "ast" => some (flag .ast)
  | "pretty-print" => some (flag .prettyPrint)
  | "disasm" => some (flag .disasm)
  | "count" => some (flag .count)
  | "verbose" => some (flag .verbose)
  | "output" => some output
  | "format" => some format
  | "version" => some version
  | "help" => some help
  | _ => none

/-- The option with this letter after one hyphen. -/
def ofLetter? : Char → Option OptionKey
  | 'v' => some (flag .verbose)
  | 'o' => some output
  | 'V' => some version
  | 'h' => some help
  | _ => none

end OptionKey

/-- What one argument leads to. -/
inductive Progress where
  /-- The arguments after it are read with this draft. -/
  | proceed (draft : Draft)
  /-- The next argument is the value that completes the draft. -/
  | needsValue (complete : String → Option Draft)
  /-- The request is settled. -/
  | settled (request : Request)

namespace Progress

/-- Goes on with the draft, if there is one. -/
def ofDraft? : Option Draft → Progress
  | some d => proceed d
  | none => settled .misuse

end Progress

namespace Draft

/-- An option given by its long name, with the value after an equals sign if there is one. -/
def readLong (d : Draft) (name : String) (value : Option String) : Progress :=
  match OptionKey.ofLongName? name, value with
  | some (.flag flag), none => .ofDraft? (d.addFlag? flag)
  | some .output, none => .needsValue d.setOutput?
  | some .output, some value => .ofDraft? (d.setOutput? value)
  | some .format, none => .needsValue d.setFormat?
  | some .format, some value => .ofDraft? (d.setFormat? value)
  | some .version, none => .settled .version
  | some .help, none => .settled .help
  | _, _ => .settled .misuse

/-- Options given by their letters after one hyphen. -/
def readLetters (d : Draft) : List Char → Progress
  | [] => .proceed d
  | letter :: rest =>
    match OptionKey.ofLetter? letter with
    | some (.flag flag) =>
      match d.addFlag? flag with
      | some d' => d'.readLetters rest
      | none => .settled .misuse
    | some .output =>
      match rest with
      | [] => .needsValue d.setOutput?
      | '=' :: value => .ofDraft? (d.setOutput? (String.ofList value))
      | value => .ofDraft? (d.setOutput? (String.ofList value))
    | some .version => .settled .version
    | some .help => .settled .help
    | _ => .settled .misuse

/-- The value after the first equals sign, if there is one. -/
def attachedValue? (text : List Char) : Option String :=
  match text.dropWhile (· ≠ '=') with
  | [] => none
  | _ :: value => some (String.ofList value)

/-- One argument, before two hyphens by themselves. -/
def readArgument (d : Draft) (argument : String) : Progress :=
  match argument.toList with
  | '-' :: '-' :: text =>
    d.readLong (String.ofList (text.takeWhile (· ≠ '='))) (attachedValue? text)
  | '-' :: letter :: letters => d.readLetters (letter :: letters)
  | _ => .ofDraft? (d.setFile? argument)

/-- The arguments after two hyphens by themselves: all of them are files. -/
def readFiles (d : Draft) : List String → Request
  | [] => d.finish
  | argument :: rest =>
    match d.setFile? argument with
    | some d' => d'.readFiles rest
    | none => .misuse

/-- The argument is read as an option, and not as a file or a value. -/
def isOption (argument : String) : Bool :=
  match argument.toList with
  | '-' :: _ :: _ => true
  | _ => false

/-- The request of the arguments that are left. -/
def readArguments (d : Draft) : List String → Request
  | [] => d.finish
  | argument :: rest =>
    if argument = "--" then d.readFiles rest
    else
      match d.readArgument argument with
      | .proceed d' => d'.readArguments rest
      | .settled request => request
      | .needsValue complete =>
        match rest with
        | [] => .misuse
        | value :: rest =>
          if isOption value then .misuse
          else
            match complete value with
            | some d' => d'.readArguments rest
            | none => .misuse

end Draft

/-- The request of a list of arguments. -/
def Request.ofArguments (arguments : List String) : Request :=
  Draft.empty.readArguments arguments

end RobotScript
