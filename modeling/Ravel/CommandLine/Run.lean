import Ravel.CommandLine.Start
import Ravel.Session.Dialogue

/-!
# Running the program

The program evaluates one expression, runs scripts, or holds a dialogue. `Program.run` is the
whole of it on a tree of files: what it shows, the code it exits with, and the files after it.

Source: `main`.
-/

namespace Ravel

/-- What the program is to do. -/
inductive Task where
  | evaluate (source : Text)
  | runScripts (names : List Text)
  | converse
  /-- Run the standard input as a script. -/
  | runInput
  deriving DecidableEq, Repr

/-- What the options ask for. Without an expression and scripts it hangs on whether the standard
input is a terminal. -/
def Options.task (o : Options) (terminal : Bool) : Task :=
  if !o.expression.isEmpty then .evaluate o.expression
  else if !o.scripts.isEmpty then .runScripts o.scripts
  else if terminal then .converse
  else .runInput

/-- The end of the program: what it showed and the code that it exits with. -/
structure Ending where
  emissions : List Emission
  exit : UInt32
  deriving DecidableEq, Repr

namespace Ending

/-- The code of a program that succeeded or not. -/
def exitOf (ok : Bool) : UInt32 := if ok then 0 else 1

/-- The end by a fault that escaped. -/
def ofFault (emissions : List Emission) (f : Fault) : Ending :=
  ⟨emissions ++ [.err (Text.ofString "panic: " ++ f.message).line], 2⟩

/-- The end of a program whose status is known. -/
def ofStatus (emissions : List Emission) : Except Fault Bool → Ending
  | .ok ok => ⟨emissions, exitOf ok⟩
  | .error f => ofFault emissions f

/-- The end by an error of the program itself. -/
def fatal (emissions : List Emission) (message : Text) : Ending :=
  ⟨emissions ++ [.err (Settings.logLine message)], 1⟩

/-- The end of a program whose command line is refused. -/
def refused (e : UsageError) : Ending := ⟨[.err e.message], 2⟩

end Ending

namespace Settings

/-- Runs the script in a file. One that is a directory is opened, but gives no line. -/
def runFile (s : Settings) (read : Reader) (name : Text) : Except FileError ScriptEffect :=
  match read name with
  | .ok script => .ok (s.runScript script)
  | .error .isDirectory =>
    .ok ⟨s, [.err (logLine (FileError.isDirectory.whenReading name))], .ok false⟩
  | .error e => .error e

/-- Runs scripts one after the other, after some that went well or not and showed something. A
script that cannot be opened ends the program. -/
def runFiles (s : Settings) (read : Reader) (ok : Bool) (shown : List Emission) :
    List Text → Ending
  | [] => .ofStatus shown (.ok ok)
  | name :: names =>
    match s.runFile read name with
    | .error e => .fatal shown (e.whenReading name)
    | .ok effect =>
      match effect.status with
      | .error f => .ofFault (shown ++ effect.emissions) f
      | .ok good =>
        effect.settings.runFiles read (ok && good) (shown ++ effect.emissions) names

/-- Evaluates one expression and ends. -/
def runOnce (s : Settings) (source : Text) : Ending :=
  let effect := s.runExpression source
  .ofStatus effect.emissions (effect.status.map LineStatus.ok)

/-- Runs the standard input as a script. -/
def runInput (s : Settings) (input : Text) : Ending :=
  let effect := s.runScript input
  .ofStatus effect.emissions effect.status

/-- A dialogue with these settings, which remembers what its history file holds. -/
def dialogue (s : Settings) (read : Reader) : Dialogue :=
  ⟨s, if s.history.isEmpty then [] else
    match read s.history with
    | .ok file => .ofFile file
    | .error _ => []⟩

end Settings

/-- Keeps a history in the file of a path; none is kept if the path is empty. A failure is
logged. -/
def FileTree.keep (tree : FileTree) (path : Text) (h : History) : FileTree × List Emission :=
  if path.isEmpty then (tree, [])
  else
    match tree.write path h.toFile with
    | .ok tree => (tree, [])
    | .error e => (tree, [.err (Settings.logLine (e.whenCreating path))])

namespace Program

/-- Holds a dialogue over the whole input and keeps its history. -/
def converse (tree : FileTree) (s : Settings) (input : Text) : Ending × FileTree :=
  let ending := (s.dialogue tree.read).run input
  let (tree, logged) := tree.keep s.history ending.dialogue.history
  let shown := ending.emissions ++ logged
  match ending.fault with
  | none => (⟨shown, 0⟩, tree)
  | some f => (.ofFault shown f, tree)

/-- Carries out a task. -/
def perform (tree : FileTree) (s : Settings) (input : Text) : Task → Ending × FileTree
  | .evaluate source => (s.runOnce source, tree)
  | .runScripts names => (s.runFiles tree.read true [] names, tree)
  | .converse => converse tree s input
  | .runInput => (s.runInput input, tree)

/-- Runs the program on a tree of files, with its environment, its arguments and its standard input,
which may be a terminal (`main`). -/
def run (tree : FileTree) (env : Environment) (arguments : List Text) (input : Text)
    (terminal : Bool) : Ending × FileTree :=
  match Options.read arguments with
  | .error e => (.refused e, tree)
  | .ok o =>
    match o.settings .standard tree.read env.reading env with
    | .error e => (.fatal [] e.message, tree)
    | .ok s => perform tree s input (o.task terminal)

end Program

end Ravel
