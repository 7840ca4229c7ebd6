import Ravel.Text.Basic

/-!
# Lines

Two readers of lines. Scripts and guided demonstrations are split by `lines`, which gives up at a
line that does not fit its buffer. At a terminal, `promptLine?` takes the input buffer by buffer,
so that a long line comes in several parts.

Source: `bufio.Scanner` with its default buffer, as `runReader` and `demo.Run` use it; the reader of
`interactive`.
-/

namespace Ravel.Text

/-- The size of the buffer that a line of a script has to fit, its line feed included. -/
def lineBuffer : Nat := 65536

/-- The lines of a text, and whether reading stopped at a line that does not fit the buffer. -/
structure Lines where
  lines : List Text
  tooLong : Bool
  deriving DecidableEq, Repr

/-- A line as it is handed on: from its bytes in reverse, without one carriage return at the end. -/
def endLine : Text → Text
  | 13 :: s => s.reverse
  | s => s.reverse

/-- Reads on after the lines `read` and the bytes `current` of the next one, both in reverse;
`size` is the number of the bytes in `current`. -/
def linesLoop (read : List Text) (current : Text) (size : Nat) : Text → Lines
  | [] => ⟨(if current.isEmpty then read else endLine current :: read).reverse, false⟩
  | b :: rest =>
    if b = 10 then linesLoop (endLine current :: read) [] 0 rest
    else if lineBuffer ≤ size + 1 then ⟨read.reverse, true⟩
    else linesLoop read (b :: current) (size + 1) rest

/-- The lines of a text: each ends at a line feed, the last one perhaps at the end, and loses one
carriage return before that. -/
def lines (s : Text) : Lines := linesLoop [] [] 0 s

/-- The size of the buffer for input at a terminal. -/
def promptBuffer : Nat := 4096

/-- A line of terminal input, the rest, and whether the line goes on there; none at the end. -/
def promptLine? (s : Text) : Option (Text × Text × Bool) :=
  if s.isEmpty then none
  else
    let window := s.take promptBuffer
    let part := window.takeWhile (· != 10)
    if part.length < window.length then
      some (dropLastIf 13 part, s.drop (part.length + 1), false)
    else if window.length = promptBuffer then
      let kept := dropLastIf 13 window
      some (kept, s.drop kept.length, true)
    else some (s, [], false)

end Ravel.Text
