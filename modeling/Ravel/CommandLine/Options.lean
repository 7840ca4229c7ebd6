import Ravel.Text.Number
import Ravel.Text.Quoted

/-!
# Options

The options of the command line come before the names of scripts. Each takes a value, after an
equals sign or as the next argument, and the last of several counts. Two hyphens are as good as
one, and alone they end the options.

Source: the flags of `main`; `usage`.
-/

namespace Ravel

/-- The options. -/
inductive Switch where
  | config
  | debug
  | expression
  | maxDepth
  | maxElements
  | prompt
  deriving DecidableEq, Repr

namespace Switch

/-- All options in the order of their names. -/
def all : List Switch := [.config, .debug, .expression, .maxDepth, .maxElements, .prompt]

/-- The name of an option. -/
def name : Switch → Text
  | .config => Text.ofString "config"
  | .debug => Text.ofString "debug"
  | .expression => Text.ofString "e"
  | .maxDepth => Text.ofString "maxdepth"
  | .maxElements => Text.ofString "maxelements"
  | .prompt => Text.ofString "prompt"

/-- The option of a name. -/
def ofName? (name : Text) : Option Switch := all.find? fun s => s.name = name

/-- What the value of an option is called, and what the option does. -/
def describe : Switch → String × String
  | .config => ("file", "configuration file (.toml, .yaml or .yml)")
  | .debug => ("names", "comma-separated names of debug settings to enable")
  | .expression => ("expression", "evaluate the expression and exit")
  | .maxDepth => ("depth", "maximum nesting depth of an expression (default 1000)")
  | .maxElements => ("elements", "maximum number of elements in an array (default 4194304)")
  | .prompt => ("prompt", "interactive command prompt")

/-- The two lines that explain an option. -/
def explain (s : Switch) : Text :=
  (Text.ofString "  -" ++ s.name ++ 32 :: Text.ofString s.describe.1).line
    ++ Text.line (Text.ofString "    \t" ++ Text.ofString s.describe.2)

end Switch

/-- The explanation of the command line (`usage`). -/
def usage : Text :=
  (Text.ofString "usage: jot [options] [file ...]").line ++ (Text.ofString "Flags:").line
    ++ Switch.all.flatMap Switch.explain

/-- Why a command line is refused. -/
inductive UsageError where
  /-- It asks for the explanation. -/
  | help
  | badSyntax (argument : Text)
  | unknown (name : Text)
  | missingValue (name : Text)
  | invalidValue (name value : Text) (e : Text.LiteralError)
  deriving DecidableEq, Repr

/-- The message for a literal that is refused. -/
def Text.LiteralError.message : Text.LiteralError → Text
  | .malformed => Text.ofString "parse error"
  | .outOfRange => Text.ofString "value out of range"

/-- What a refused command line is told: the reason, if there is one, and the explanation. -/
def UsageError.message : UsageError → Text
  | .help => usage
  | .badSyntax argument => (Text.ofString "bad flag syntax: " ++ argument).line ++ usage
  | .unknown name => (Text.ofString "flag provided but not defined: -" ++ name).line ++ usage
  | .missingValue name => (Text.ofString "flag needs an argument: -" ++ name).line ++ usage
  | .invalidValue name value e =>
    (Text.ofString "invalid value " ++ value.quote ++ Text.ofString " for flag -" ++ name
      ++ Text.ofString ": " ++ e.message).line ++ usage

/-- What the command line gives. -/
structure Options where
  config : Text := []
  debug : Option Text := none
  expression : Text := []
  maxDepth : Option Int64 := none
  maxElements : Option Int64 := none
  prompt : Option Text := none
  scripts : List Text := []
  deriving DecidableEq, Repr

/-- What an argument is where an option may stand. -/
inductive Argument where
  | script
  /-- The end of the options. -/
  | divider
  | malformed
  | switch (name : Text) (value : Option Text)
  deriving DecidableEq, Repr

/-- The name of an option and its value after an equals sign; the name has at least one byte. -/
def Argument.ofSwitch : Text → Argument
  | [] => .malformed
  | b :: rest =>
    if b = 45 || b = 61 then .malformed
    else
      let name := b :: rest.takeWhile (· != 61)
      match rest.dropWhile (· != 61) with
      | [] => .switch name none
      | _ :: value => .switch name (some value)

/-- What an argument is. -/
def Argument.read : Text → Argument
  | 45 :: 45 :: [] => .divider
  | 45 :: 45 :: rest => .ofSwitch rest
  | 45 :: b :: rest => .ofSwitch (b :: rest)
  | _ => .script

namespace Options

/-- The integer that an option is given. -/
def integer (s : Switch) (value : Text) : Except UsageError Int64 :=
  match Text.readLiteral value with
  | .ok n => .ok n
  | .error e => .error (.invalidValue s.name value e)

/-- Gives an option a value. -/
def set (o : Options) (s : Switch) (value : Text) : Except UsageError Options :=
  match s with
  | .config => .ok { o with config := value }
  | .debug => .ok { o with debug := some value }
  | .expression => .ok { o with expression := value }
  | .maxDepth => do return { o with maxDepth := some (← integer s value) }
  | .maxElements => do return { o with maxElements := some (← integer s value) }
  | .prompt => .ok { o with prompt := some value }

/-- The option of a name on the command line. -/
def switch (name : Text) : Except UsageError Switch :=
  match Switch.ofName? name with
  | some s => .ok s
  | none =>
    if name = Text.ofString "help" || name = Text.ofString "h" then .error .help
    else .error (.unknown name)

/-- Reads arguments after the options already read. -/
def readLoop (o : Options) : List Text → Except UsageError Options
  | [] => .ok o
  | argument :: rest =>
    match Argument.read argument with
    | .script => .ok { o with scripts := argument :: rest }
    | .divider => .ok { o with scripts := rest }
    | .malformed => .error (.badSyntax argument)
    | .switch name (some value) => do
      let s ← switch name
      readLoop (← o.set s value) rest
    | .switch name none => do
      let s ← switch name
      match rest with
      | [] => throw (.missingValue name)
      | value :: rest => readLoop (← o.set s value) rest

/-- Reads a command line. -/
def read (arguments : List Text) : Except UsageError Options := readLoop {} arguments

end Options

end Ravel
