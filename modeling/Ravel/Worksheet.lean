import Ravel.Demo
import Ravel.Evaluation

/-!
# Worksheets

A worksheet is a text of expressions and comments that are evaluated line by line under the
default settings. It is evaluated as a whole, or stepped through.

Source: package `mobile`: `Eval`, `Demo`.
-/

namespace Ravel.Worksheet

/-- What came of a worksheet: the results as lines, and the errors, if there are any, with line
feeds between them. -/
structure Outcome where
  out : Text
  failed : Option Text
  deriving DecidableEq, Repr

/-- The answers to the lines of a worksheet that are neither empty nor comments. -/
def answers (lines : List Text) : List Answer :=
  ((lines.map Text.trim).filter fun line => !(line.isEmpty || line.isComment)).map evaluate

/-- Evaluates a worksheet; a line that fails does not stop the others (`mobile.Eval`). -/
def eval (sheet : Text) : Outcome :=
  let answers := answers (sheet.splitOn 10)
  let errors := (answers.filter (!·.ok)).map Answer.text
  ⟨(answers.filter (·.ok)).flatMap fun a => a.text.line,
    if errors.isEmpty then none else some (Text.join Text.newline errors)⟩

/-- Why stepping gives no outcome. -/
inductive Stop where
  | finished
  | lineTooLong
  deriving DecidableEq, Repr

/-- The message of a stop. -/
def Stop.message : Stop → Text
  | .finished => Text.ofString "EOF"
  | .lineTooLong => Demo.lineTooLongMessage

/-- A worksheet that is stepped through: the lines to come. -/
abbrev Player := Text.Lines

/-- A player at the start of a worksheet (`mobile.NewDemo`). -/
def play (sheet : Text) : Player := sheet.lines

/-- The outcome of the next line and the player after it (`Demo.Next`). -/
def next (p : Player) : Except Stop (Outcome × Player) :=
  match p.lines with
  | [] => .error (if p.tooLong then .lineTooLong else .finished)
  | line :: lines => .ok (eval line, ⟨lines, p.tooLong⟩)

end Ravel.Worksheet
