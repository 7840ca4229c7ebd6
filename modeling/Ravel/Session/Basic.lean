import Ravel.Demo
import Ravel.Evaluation
import Ravel.Session.Command

/-!
# Sessions

A session runs lines: commands, comments and expressions. Only a command that is accepted changes
the settings. A script is a session whose lines come from a text.

Source: `runLine`, `runReader`, `evaluate`.
-/

namespace Ravel

/-- What a line of a session asks for. -/
inductive Line where
  /-- Nothing: the line is empty or a comment. -/
  | nothing
  | command (c : Except CommandError Command)
  | expression (source : Text)

/-- What a line asks for. The word `help` alone is a command too. -/
def Line.read (line : Text) : Line :=
  let line := line.trim
  if line.isEmpty || line.isComment then .nothing
  else if line = Text.ofString "help" then .command (Command.read line)
  else
    match line with
    | 41 :: rest => .command (Command.read rest)
    | source => .expression source

/-- How a line went: whether it succeeded, and whether the session is to end. -/
structure LineStatus where
  ok : Bool
  quit : Bool
  deriving DecidableEq, Repr

/-- The effect of a line: the settings after it, what was shown, and how it went, unless a fault
escaped. -/
structure LineEffect where
  settings : Settings
  emissions : List Emission
  status : Except Fault LineStatus

namespace Settings

/-- Answers an expression: a result goes to the output, an error to the error output
(`evaluate`). -/
def runExpression (s : Settings) (source : Text) : LineEffect :=
  match s.answer source with
  | (.error f, emissions) => ⟨s, emissions, .error f⟩
  | (.ok answer, emissions) =>
    if answer.ok then ⟨s, emissions ++ [.out answer.text.line], .ok ⟨true, false⟩⟩
    else ⟨s, emissions ++ [.err answer.text.line], .ok ⟨false, false⟩⟩

/-- The effect of a command that is refused. -/
def refuse (s : Settings) (shown : List Emission) (e : CommandError) : LineEffect :=
  ⟨s, shown ++ [.err (renderError e.message).line], .ok ⟨false, false⟩⟩

/-- The effect of a demonstration that has ended. -/
def endDemo (s : Settings) (outcome : Demo.Outcome) : LineEffect :=
  let shown := Emission.out outcome.written.text
  match outcome.error with
  | some e => s.refuse [shown] (.demo e.message)
  | none => ⟨s, [shown, .out (Text.ofString "Demo finished").line], .ok ⟨true, false⟩⟩

/-- How a demonstration answers an expression: under the default settings. -/
def demoAnswer (source : Text) : Text := (evaluate source).text

/-- Runs the demonstration, with the input of the user or without a user. -/
def runDemo (s : Settings) (input : Option Demo.Input) : LineEffect :=
  s.endDemo (Demo.run Demo.script demoAnswer Writer.reliable input)

/-- Carries out a command. -/
def runCommand (s : Settings) (input : Option Demo.Input) (command : Command) : LineEffect :=
  match command with
  | .demo => s.runDemo input
  | command => ⟨command.settings s, [.out (command.shown s)], .ok ⟨true, command = .quit⟩⟩

/-- Runs one line (`runLine`). `input` is what the user has typed ahead for a demonstration; without
it (`none`) a demonstration runs by itself. -/
def runLine (s : Settings) (line : Text) (input : Option Demo.Input) : LineEffect :=
  match Line.read line with
  | .nothing => ⟨s, [], .ok ⟨true, false⟩⟩
  | .command (.error e) => s.refuse [] e
  | .command (.ok command) => s.runCommand input command
  | .expression source => s.runExpression source

end Settings

/-- The effect of a script: the settings after it, what was shown, and whether all of it
succeeded, unless a fault escaped. -/
structure ScriptEffect where
  settings : Settings
  emissions : List Emission
  status : Except Fault Bool

namespace Settings

/-- A line of the log that the program keeps on its error output. -/
def logLine (message : Text) : Text := (Text.ofString "jot: " ++ message).line

/-- Runs lines after some that went well or not (`ok`) and emitted `shown`, the latest first, up
to one that ends the session. `tooLong` says that a line which does not fit the buffer comes after
them. -/
def runLines (s : Settings) (tooLong ok : Bool) (shown : List Emission) :
    List Text → ScriptEffect
  | [] =>
    if tooLong then
      ⟨s, (.err (logLine Demo.lineTooLongMessage) :: shown).reverse, .ok false⟩
    else ⟨s, shown.reverse, .ok ok⟩
  | line :: lines =>
    let effect := s.runLine line none
    let shown := effect.emissions.reverse ++ shown
    match effect.status with
    | .error f => ⟨effect.settings, shown.reverse, .error f⟩
    | .ok status =>
      if status.quit then ⟨effect.settings, shown.reverse, .ok (ok && status.ok)⟩
      else effect.settings.runLines tooLong (ok && status.ok) shown lines

/-- Runs the lines of a script (`runReader`). -/
def runScript (s : Settings) (script : Text) : ScriptEffect :=
  let lines := script.lines
  s.runLines lines.tooLong true [] lines.lines

end Settings

end Ravel
