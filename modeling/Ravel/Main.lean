import Ravel.CommandLine.Run
import Ravel.Text.Duration

/-!
# The program

The program on a real system: it reads what `Ravel.CommandLine.Run` asks for and shows what that
decides. At a terminal the lines of a dialogue, and of a demonstration in it, are taken as they
are typed.
-/

namespace Ravel.Console

/-- A report of a time in nanoseconds. The shares of the processor are not measured. -/
def timeReport (nanoseconds : Nat) : Text :=
  (Text.ofString "(" ++ Text.ofMicroseconds ((nanoseconds + 500) / 1000)
    ++ Text.ofString " real, 0s user, 0s sys)").line

/-- Shows emissions; the time that they report is the time since `start`. -/
def emit (start : Nat) (es : List Emission) : IO Unit := do
  let report := timeReport ((← IO.monoNanosNow) - start)
  let out ← IO.getStdout
  let err ← IO.getStderr
  for e in es do
    match e with
    | .out text => out.write text.toByteArray
    | e =>
      out.flush
      err.write (e.toErr report).toByteArray
  out.flush

/-- The error of a file that the system reports. -/
def fileError : IO.Error → FileError
  | .inappropriateType _ code _ => if code = 20 then .notDirectory else .isDirectory
  | .permissionDenied .. => .denied
  | _ => .missing

/-- Reads a file. -/
def readFile (path : Text) : IO (Except FileError Text) := do
  match String.fromUTF8? path.toByteArray with
  | none => return .error .missing
  | some name =>
    try return .ok (← IO.FS.readBinFile name).data.toList
    catch e => return .error (fileError e)

/-- Looks whether there is something at a path. -/
def statFile (path : Text) : IO (Except FileError Unit) := do
  match String.fromUTF8? path.toByteArray with
  | none => return .error .missing
  | some name =>
    try
      -- a path has a real one exactly if it leads to something
      discard (IO.FS.realPath name)
      return .ok ()
    catch e => return .error (fileError e)

/-- Looks at the files of some paths, which are then the only ones there are. -/
def readFiles (paths : List Text) : IO Reader := do
  let stats ← paths.mapM fun path => return (path, ← statFile path)
  let contents ← paths.mapM fun path => return (path, ← readFile path)
  return {
    stat := fun path => (stats.lookup path).getD (.error .missing)
    read := fun path => (contents.lookup path).getD (.error .missing) }

/-- Keeps a history in the file of a path. A failure is logged. -/
def keep (start : Nat) (path : Text) (h : History) : IO Unit := do
  if !path.isEmpty then
    let failed (e : FileError) : IO Unit :=
      emit start [.err (Settings.logLine (e.whenCreating path))]
    match String.fromUTF8? path.toByteArray with
    | none => failed .missing
    | some name =>
      try IO.FS.writeBinFile name h.toFile.toByteArray
      catch e => failed (fileError e)

/-- Reads the variables that the program knows. -/
def readEnvironment : IO Environment := do
  Environment.names.mapM fun name =>
    return (Text.ofString name, Text.ofString ((← IO.getEnv name).getD ""))

/-- Reads the rest of a stream, after the pieces already read. -/
partial def readRest (input : IO.FS.Stream) (read : ByteArray) : IO Text := do
  let piece ← input.read 65536
  if piece.isEmpty then return read.data.toList else readRest input (read ++ piece)

/-- Takes the lines of a demonstration as they are typed. -/
partial def demonstrate (input : IO.FS.Stream) (s : Settings) (stage : Demo.Stage) :
    IO LineEffect := do
  emit 0 [.out stage.written.text]
  let line ← input.getLine
  if line.isEmpty then return s.endDemo ⟨.none, none⟩
  let stage : Demo.Stage := ⟨stage.script, .none⟩
  match stage.hear Settings.demoAnswer .reliable (Text.ofString line) with
  | .goesOn stage => demonstrate input s stage
  | .ended outcome => return s.endDemo outcome

/-- Takes a line of a dialogue. -/
def hear (input : IO.FS.Stream) (d : Dialogue) (line : Text) : IO Turn := do
  match Line.read line with
  | .command (.ok .demo) =>
    let effect ← demonstrate input d.settings (Demo.start Demo.script .reliable)
    return ⟨⟨effect.settings, d.history.remember line⟩, effect.emissions, effect.status⟩
  | _ => IO.lazyPure fun _ => d.hear line (some {})

/-- Takes the lines of a dialogue as they are typed. -/
partial def converse (input : IO.FS.Stream) (d : Dialogue) : IO (Dialogue × Option Fault) := do
  if !Dialogue.isShowable d.settings.prompt then
    emit 0 Dialogue.invalidPrompt
    return (d, none)
  emit 0 [.out d.settings.prompt]
  match Text.promptLine? (Text.ofString (← input.getLine)) with
  | none =>
    emit 0 [.out Text.newline]
    return (d, none)
  | some (line, _, _) =>
    let start ← IO.monoNanosNow
    let turn ← hear input d line
    emit start turn.emissions
    match turn.status with
    | .error f => return (turn.dialogue, some f)
    | .ok status =>
      if status.quit then return (turn.dialogue, none) else converse input turn.dialogue

/-- Shows the end of the program and gives the code to exit with. -/
def finish (start : Nat) (ending : Ending) : IO UInt32 := do
  emit start ending.emissions
  return ending.exit

/-- Carries out a task. -/
def perform (input : IO.FS.Stream) (s : Settings) (task : Task) : IO UInt32 := do
  let start ← IO.monoNanosNow
  match task with
  | .evaluate source => finish start (← IO.lazyPure fun _ => s.runOnce source)
  | .runScripts names =>
    let read ← readFiles names
    finish start (← IO.lazyPure fun _ => s.runFiles read true [] names)
  | .runInput =>
    let script ← readRest input .empty
    finish start (← IO.lazyPure fun _ => s.runInput script)
  | .converse =>
    let read ← readFiles [s.history]
    let (d, fault) ← converse input (s.dialogue read)
    keep start s.history d.history
    match fault with
    | none => return 0
    | some f => finish start (.ofFault [] f)

/-- Runs the program with its arguments. -/
def run (arguments : List Text) : IO UInt32 := do
  match Options.read arguments with
  | .error e => finish 0 (.refused e)
  | .ok o =>
    let env ← readEnvironment
    let read ← readFiles (o.profiles env)
    match o.settings .standard read env.reading env with
    | .error e => finish 0 (.fatal [] e.message)
    | .ok s =>
      let input ← IO.getStdin
      perform input s (o.task (← input.isTty))

end Ravel.Console

def main (arguments : List String) : IO UInt32 :=
  Ravel.Console.run (arguments.map Ravel.Text.ofString)
