import Ravel.Text.Blank
import Ravel.Text.Line

/-!
# The guided demonstration

A script of expressions and comments is shown line by line. The user asks for the next line with
an empty line, may try expressions in between, and ends the demonstration with `quit`; without a
user the whole script runs. What is shown goes to a writer whose calls may fail, and the input may
fail where its text ends.

Source: package `demo`: `Run`, `Text`.
-/

namespace Ravel

/-- A line that only comments: it is shown, or read, and nothing else. -/
def Text.isComment (s : Text) : Bool := (Text.ofString "NB.").isPrefixOf s

/-- A writer, known by which of its calls succeed, counted from 1. -/
structure Writer where
  accepts : Nat → Bool

namespace Writer

/-- A writer that never fails. -/
def reliable : Writer := ⟨fun _ => true⟩

/-- A writer that fails from its `n`th call on, and never for 0. -/
def failingFrom (n : Nat) : Writer := ⟨fun call => n = 0 || call < n⟩

end Writer

/-- What a writer holds: the number of calls so far, and the texts that it took, the latest
first. -/
structure Written where
  calls : Nat
  texts : List Text
  deriving DecidableEq, Repr

namespace Written

/-- A writer before its first call. -/
def none : Written := ⟨0, []⟩

/-- All that was written. -/
def text (w : Written) : Text := w.texts.reverse.flatten

/-- Calls a writer: a failing call takes nothing. Gives whether the call succeeded. -/
def write (w : Written) (writer : Writer) (text : Text) : Written × Bool :=
  if writer.accepts (w.calls + 1) then (⟨w.calls + 1, text :: w.texts⟩, true)
  else (⟨w.calls + 1, w.texts⟩, false)

end Written

namespace Demo

/-- The input of a user: its text, and the message of the error that reading on after it gives, if
the text is not all of it. -/
structure Input where
  text : Text := []
  failure : Option Text := none
  deriving DecidableEq, Repr

/-- An input that is read to its end. -/
instance : Coe Text Input := ⟨fun text => ⟨text, none⟩⟩

instance : Coe (Option Text) (Option Input) := ⟨Option.map fun text => ⟨text, none⟩⟩

/-- Why a demonstration ended early. -/
inductive Error where
  /-- A result could not be written. -/
  | writeFailed
  /-- A line of the user does not fit the buffer. -/
  | lineTooLong
  /-- The input could not be read to its end. -/
  | readFailed (message : Text)
  deriving DecidableEq, Repr

/-- The message for a line that does not fit the buffer. -/
def lineTooLongMessage : Text := Text.ofString "bufio.Scanner: token too long"

/-- The message of an error. -/
def Error.message : Error → Text
  | .writeFailed => Text.ofString "write failed"
  | .lineTooLong => lineTooLongMessage
  | .readFailed message => message

/-- The lines of the standard demonstration (`demo.Text`). -/
def script : List Text :=
  [
    "NB. Welcome to jot. Hit return to see each line of the demo; type quit to stop.",
    "NB. Numbers are integers. Numbers separated by blanks make a vector.",
    "42",
    "1 2 3",
    "NB. ~ of a number counts from zero.",
    "~5",
    "NB. + adds. A single number is paired with every element.",
    "1 2 3+10 20 30",
    "10+~5",
    "NB. A verb takes everything to its right, so this is 2+(3+4).",
    "2+3+4",
    "NB. A verb with nothing on its left applies to the term just after it.",
    "~3+~3",
    "NB. # reshapes its right argument to the shape on its left.",
    "2 3#~6",
    "3 3#1 0 0 0",
    "NB. Alone, # counts items.",
    "#~7",
    "#(2 3#~6)",
    "NB. \x7b selects items.",
    "4\x7b~7",
    "1\x7b2 3#~6",
    "2 0\x7b10 20 30",
    "NB. , joins, or flattens when used alone.",
    "1,2,3,4",
    ",(2 3#~6)",
    "(2 2#1),2 2#~4",
    "NB. < compares, giving 1 for true and 0 for false.",
    "3<~6",
    "NB. With a left argument, ~ finds positions, or -1 if absent.",
    "3 7~~5",
    "NB. Parentheses group.",
    "(1+2)+3",
    "#((2 3#~6),1 3#7)",
    "NB. Mistakes are reported.",
    "1 2+1 2 3",
    "\x7b3",
    "NB. That's all."
  ].map fun s => (Text.ofString s).line

/-- Evaluates a line that has text and is no comment, and writes the result as a line. -/
def send (eval : Text → Text) (writer : Writer) (line : Text) (w : Written) : Written × Bool :=
  let line := line.trim
  if line.isEmpty || line.isComment then (w, true) else w.write writer (eval line).line

/-- Shows a line of the script and evaluates it. A call that fails to show the line is passed
over. -/
def present (eval : Text → Text) (writer : Writer) (line : Text) (w : Written) : Written × Bool :=
  send eval writer line (w.write writer line).1

/-- The outcome of a demonstration: what was written, and why it ended early, if it did. -/
structure Outcome where
  written : Written
  error : Option Error
  deriving DecidableEq, Repr

/-- Presents the lines of a script one after the other. -/
def unattended (eval : Text → Text) (writer : Writer) : List Text → Written → Outcome
  | [], w => ⟨w, none⟩
  | line :: script, w =>
    match present eval writer line w with
    | (w, true) => unattended eval writer script w
    | (w, false) => ⟨w, some .writeFailed⟩

/-- Where a demonstration stands: the lines of the script to come, and what was written. -/
structure Stage where
  script : List Text
  written : Written
  deriving DecidableEq, Repr

/-- What a line of the user leads to: the demonstration goes on, or it has ended. -/
inductive Next where
  | goesOn (stage : Stage)
  | ended (outcome : Outcome)
  deriving DecidableEq, Repr

/-- Where a demonstration stands after a presentation or an evaluation. -/
def Next.ofWrite (script : List Text) : Written × Bool → Next
  | (w, true) => .goesOn ⟨script, w⟩
  | (w, false) => .ended ⟨w, some .writeFailed⟩

/-- Follows a line of the user: an empty one presents the next line of the script, `quit` ends
the demonstration, and any other is evaluated. -/
def Stage.hear (eval : Text → Text) (writer : Writer) (s : Stage) (line : Text) : Next :=
  if line.trim.isEmpty then
    match s.script with
    | [] => .ended ⟨s.written, none⟩
    | next :: script => .ofWrite script (present eval writer next s.written)
  else if line.trim = Text.ofString "quit" then .ended ⟨s.written, none⟩
  else .ofWrite s.script (send eval writer line s.written)

/-- How the reading of an input ends: the error in it, and whether it is met before the last line is
handed on, because nothing ends that line. -/
structure Stop where
  error : Option Error
  beforeLast : Bool
  deriving DecidableEq, Repr

/-- How the reading of an input ends. -/
def Input.stop (input : Input) : Stop where
  error := if input.text.lines.tooLong then some .lineTooLong else input.failure.map .readFailed
  beforeLast := !input.text.lines.tooLong && input.text.getLast?.any (· != 10)

/-- Follows the lines of the user to their end. A demonstration that ends before them has still met
the error of the input if that comes before the last line. -/
def attended (eval : Text → Text) (writer : Writer) (stop : Stop) (s : Stage) :
    (input : List Text) → Outcome
  | [] => ⟨s.written, stop.error⟩
  | line :: input =>
    match s.hear eval writer line with
    | .goesOn s => attended eval writer stop s input
    | .ended outcome =>
      if input.isEmpty && stop.beforeLast then ⟨outcome.written, outcome.error <|> stop.error⟩
      else outcome

/-- The start of a demonstration: the first line of the script is shown at once. -/
def start (script : List Text) (writer : Writer) : Stage :=
  ⟨script.tail, (Written.none.write writer (script.headD [])).1⟩

/-- Runs a demonstration (`demo.Run`). The input of the user decides how it goes on after its start;
without one (`none`) the script runs to its end. -/
def run (script : List Text) (eval : Text → Text) (writer : Writer) (input : Option Input) :
    Outcome :=
  let stage := start script writer
  match input with
  | none => unattended eval writer stage.script stage.written
  | some input => attended eval writer input.stop stage input.text.lines.lines

/-- The text of the standard demonstration. -/
def scriptText : Text := script.flatten

end Demo

end Ravel
