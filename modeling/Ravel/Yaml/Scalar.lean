import Ravel.Text.Quoted
import Ravel.Yaml.Cursor

/-!
# Scalars of documents of nested nodes

Reading scalars, which may go on over several lines. Blanks around a line end do not count, one
line end stands for a blank, and of several the first does not count.
-/

namespace Ravel.Yaml

/-- A scalar that was read: its text, the place after it, and whether that is on a later line
than the last character of the text. -/
structure Read where
  text : List Char
  after : Cursor
  newLine : Bool

/-- The text of a scalar that was read. -/
def Read.toText (r : Read) : Text := r.text.flatMap Text.ofChar

/-- What stands in a scalar for blanks, or for the line ends that they were followed by. All of
them are in reverse. -/
def folded (blanks breaks : List Char) : List Char :=
  match breaks.reverse with
  | [] => blanks
  | ['\n'] => [' ']
  | '\n' :: more => more.reverse
  | _ => breaks

/-- A character that ends a plain scalar between brackets. -/
def isFlowMark (c : Char) : Bool := c == ',' || c == '[' || c == ']' || c == '{' || c == '}'

/-- A place at which a plain scalar ends: a colon before a blank, and between brackets a mark of
theirs. -/
def endsPlain (flow : Bool) (c : Char) (rest : List Char) : Bool :=
  (c == ':' && startsBlank rest)
    || (flow && (isFlowMark c || (c == '?' && startsBlank rest && rest.head? != some '\t')))

/-- Reads a plain scalar on from a place. `text` was read before it, then `blanks` or, after a
line has ended, `breaks`, all in reverse. In block style, lines of fewer than `indent` columns do
not belong to it; a tab must not stand before that column. -/
def plain? (flow : Bool) (indent : Nat) (text blanks breaks : List Char) :
    (fuel : Nat) → Cursor → Option Read
  | 0, _ => none
  | fuel + 1, c =>
    let done : Option Read := some ⟨text.reverse, c, !breaks.isEmpty⟩
    match c.rest with
    | [] => done
    | x :: rest =>
      if isBreak x then plain? flow indent text [] (x :: breaks) fuel c.next
      else if isBlank x then
        if breaks.isEmpty then plain? flow indent text (x :: blanks) [] fuel c.next
        else if x == '\t' && c.column < indent then none
        else plain? flow indent text [] breaks fuel c.next
      else if !breaks.isEmpty && (c.isAtDivider || (!flow && c.column < indent)) then done
      else if x == '#' && !(blanks.isEmpty && breaks.isEmpty) then done
      else if endsPlain flow x rest then done
      else plain? flow indent (x :: (folded blanks breaks ++ text)) [] [] fuel c.next

/-- What an escape in double quotes denotes whose backslash is followed by `c` and `rest`, and
how many characters of `rest` it takes. -/
def escape? (c : Char) (rest : List Char) : Option (Char × Nat) :=
  let coded (width : Nat) : Option (Char × Nat) :=
    if rest.length < width then none
    else do
      let n ← Text.hexNumber? ((rest.take width).flatMap Text.ofChar)
      if n.isValidChar then return (Char.ofNat n, width) else none
  if c == '0' then some ('\x00', 0)
  else if c == 'a' then some ('\x07', 0)
  else if c == 'b' then some ('\x08', 0)
  else if c == 't' || c == '\t' then some ('\t', 0)
  else if c == 'n' then some ('\n', 0)
  else if c == 'v' then some ('\x0b', 0)
  else if c == 'f' then some ('\x0c', 0)
  else if c == 'r' then some ('\r', 0)
  else if c == 'e' then some ('\x1b', 0)
  else if c == ' ' || c == '\x22' || c == '\x27' || c == '\\' then some (c, 0)
  else if c == 'N' then some ('\u0085', 0)
  else if c == '_' then some ('\u00a0', 0)
  else if c == 'L' then some ('\u2028', 0)
  else if c == 'P' then some ('\u2029', 0)
  else if c == 'x' then coded 2
  else if c == 'u' then coded 4
  else if c == 'U' then coded 8
  else none

/-- Reads a quoted scalar on from a place, after `text` and then `blanks` or, after a line has
ended, `breaks`, all in reverse. If a line end was escaped (`joined`), every line end after it
counts. -/
def quoted? (mark : Char) (text blanks breaks : List Char) (joined : Bool) :
    (fuel : Nat) → Cursor → Option Read
  | 0, _ => none
  | fuel + 1, c =>
    let soFar : List Char := (if joined then breaks else folded blanks breaks) ++ text
    match c.rest with
    | [] => none
    | x :: rest =>
      if isBreak x then quoted? mark text [] (x :: breaks) joined fuel c.next
      else if isBlank x then
        if breaks.isEmpty && !joined then quoted? mark text (x :: blanks) [] false fuel c.next
        else quoted? mark text [] breaks joined fuel c.next
      else if c.isAtDivider then none
      else if x == mark then
        if mark == '\x27' && rest.head? == some mark then
          quoted? mark (mark :: soFar) [] [] false fuel (c.skip 2)
        else some ⟨soFar.reverse, c.next, false⟩
      else if x == '\\' && mark == '\x22' then
        match rest with
        | [] => none
        | e :: more =>
          if isBreak e then quoted? mark soFar [] [] true fuel (c.skip 2)
          else
            match escape? e more with
            | none => none
            | some (denoted, used) =>
              quoted? mark (denoted :: soFar) [] [] false fuel (c.skip (used + 2))
      else quoted? mark (x :: soFar) [] [] false fuel c.next

/-- A place at which a plain scalar can start. -/
def startsPlain (flow : Bool) : List Char → Bool
  | [] => false
  | c :: rest =>
    if c == '-' then !startsBlank rest
    else if c == '?' || c == ':' then !flow && !startsBlank rest
    else !isBlank c && !isBreak c && !isFlowMark c
      && !("#&*!|>%@".toList.contains c || c == '\x22' || c == '\x27' || c == '\x60')

end Ravel.Yaml
