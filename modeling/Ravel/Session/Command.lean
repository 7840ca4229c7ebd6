import Ravel.Help
import Ravel.Settings.Basic
import Ravel.Text.Blank
import Ravel.Text.Quoted

/-!
# Special commands

A line that starts with a right parenthesis is a command to the session. Reading a command checks
all that can be checked of it, so that a command that is read is one to carry out.

Source: `special`, `intSetting`.
-/

namespace Ravel

/-- The limits that a command can show or set. -/
inductive LimitName where
  | depth
  | elements
  deriving DecidableEq, Repr

/-- The name of the command for a limit. -/
def LimitName.command : LimitName → Text
  | .depth => Text.ofString "maxdepth"
  | .elements => Text.ofString "maxelements"

/-- A command to the session. -/
inductive Command where
  | help
  | helpVerb (text : Text)
  | showFlags
  | toggleFlag (flag : DebugFlag)
  | setFlag (flag : DebugFlag) (on : Bool)
  | demo
  | showLimit (limit : LimitName)
  | setLimit (limit : LimitName) (n : Int64)
  | showPrompt
  | setPrompt (prompt : Text)
  | quit
  deriving DecidableEq, Repr

/-- Why a command is refused. -/
inductive CommandError where
  | missing
  | unknown (name : Text)
  | noVerb (name : Text)
  | noFlag (name : Text)
  | illegalSwitch (value flag : Text)
  | illegalLimit (limit : LimitName) (value : Text)
  | debugUsage
  | demoUsage
  | limitUsage (limit : LimitName)
  | promptUsage
  /-- A demonstration ended early. -/
  | demo (message : Text)
  deriving DecidableEq, Repr

open Text in
/-- The message of an error. -/
def CommandError.message : CommandError → Text
  | .missing => ofString "): missing command"
  | .unknown name => ofString ")" ++ name ++ ofString ": not recognized"
  | .noVerb name => ofString ")help: no verb " ++ quote name
  | .noFlag name => ofString "no such debug flag: " ++ name
  | .illegalSwitch value flag =>
    ofString "illegal value " ++ quote value ++ ofString " for debug flag " ++ flag
  | .illegalLimit limit value => ofString "illegal " ++ limit.command ++ [32] ++ quote value
  | .debugUsage => ofString "usage: )debug [name [0|1]]"
  | .demoUsage => ofString "usage: )demo"
  | .limitUsage limit => ofString "usage: )" ++ limit.command ++ ofString " [n]"
  | .promptUsage => ofString "usage: )prompt \"text\""
  | .demo message => ofString ")demo: " ++ message

namespace Command

/-- The flag of a name that a command mentions. -/
def flag (name : Text) : Except CommandError DebugFlag :=
  match DebugFlag.ofName? name with
  | some flag => .ok flag
  | none => .error (.noFlag name)

/-- The state that a command asks a flag to be in: the integer 0 or 1. -/
def switch (name value : Text) : Except CommandError Bool :=
  match Text.readInt64? value with
  | some n =>
    if n = 0 then .ok false else if n = 1 then .ok true else .error (.illegalSwitch value name)
  | none => .error (.illegalSwitch value name)

/-- Reads the arguments of a command about a limit (`intSetting`). -/
def readLimit (limit : LimitName) : List Text → Except CommandError Command
  | [] => .ok (.showLimit limit)
  | [value] =>
    match Text.readInt64? value with
    | some n => if 0 < n then .ok (.setLimit limit n) else .error (.illegalLimit limit value)
    | none => .error (.illegalLimit limit value)
  | _ => .error (.limitUsage limit)

/-- Reads the arguments of `)help`. -/
def readHelp : List Text → Except CommandError Command
  | [] => .ok .help
  | name :: _ =>
    match Help.verb? name with
    | some text => .ok (.helpVerb text)
    | none => .error (.noVerb name)

/-- Reads the arguments of `)debug`. -/
def readDebug : List Text → Except CommandError Command
  | [] => .ok .showFlags
  | [name] => do return .toggleFlag (← flag name)
  | [name, value] => do
    let on ← switch name value
    return .setFlag (← flag name) on
  | _ => .error .debugUsage

/-- Reads `)prompt`: what follows its name is one quoted text. -/
def readPrompt (command name : Text) : List Text → Except CommandError Command
  | [] => .ok .showPrompt
  | _ =>
    match Text.unquote? (Text.trim (command.trim.drop name.length)) with
    | some prompt => .ok (.setPrompt prompt)
    | none => .error .promptUsage

/-- Reads a command, the text of a line after its right parenthesis (`special`). -/
def read (command : Text) : Except CommandError Command :=
  match command.words with
  | [] => .error .missing
  | name :: args =>
    if name = Text.ofString "help" then readHelp args
    else if name = Text.ofString "debug" then readDebug args
    else if name = Text.ofString "demo" then
      if args.isEmpty then .ok .demo else .error .demoUsage
    else if name = Text.ofString "maxdepth" then readLimit .depth args
    else if name = Text.ofString "maxelements" then readLimit .elements args
    else if name = Text.ofString "prompt" then readPrompt command name args
    else if name = Text.ofString "quit" then .ok .quit
    else .error (.unknown name)

/-- What a command does to the settings. -/
def settings (s : Settings) : Command → Settings
  | .toggleFlag flag => s.setFlag flag (!s.debug flag)
  | .setFlag flag on => s.setFlag flag on
  | .setLimit .depth n => { s with depthLimit := n }
  | .setLimit .elements n => { s with elementLimit := n }
  | .setPrompt prompt => { s with prompt := prompt }
  | _ => s

/-- What a command shows; a demonstration is shown elsewhere. -/
def shown (s : Settings) : Command → Text
  | .help => Help.text
  | .helpVerb text => text
  | .showFlags => s.listFlags.flatMap Text.line
  | .toggleFlag flag => (Settings.switch (!s.debug flag)).line
  | .showLimit .depth => (Text.ofInt64 s.maxDepth).line
  | .showLimit .elements => (Text.ofInt64 s.maxElements).line
  | .showPrompt => s.prompt.quote.line
  | _ => []

end Command

end Ravel
