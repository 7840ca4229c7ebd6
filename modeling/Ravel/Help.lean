import Ravel.Verb.Basic

/-!
# Help

The help on the language with its table of verbs, the help on one verb, and the page of verbs for
a notebook.

Source: `helpText`, `helpVerb`, `verbDocs`; `mobile.Help`.
-/

namespace Ravel

namespace Verb

/-- The description of a monadic form. -/
def monadicDoc : MonadicForm → Text
  | .identity => Text.ofString "y unchanged"
  | .iota => Text.ofString "the integers 0 to y-1"
  | .tally => Text.ofString "number of items of y"
  | .ravel => Text.ofString "elements of y as a vector"
  | .box => Text.ofString "y unchanged"

/-- The description of a dyadic form. -/
def dyadicDoc : DyadicForm → Text
  | .add => Text.ofString "x and y added element by element"
  | .find => Text.ofString "position of each x in y, or -1"
  | .reshape => Text.ofString "y reshaped to shape x, reusing its elements"
  | .from => Text.ofString "items of y selected by the indices x"
  | .append => Text.ofString "x followed by y"
  | .lessThan => Text.ofString "1 where x is less than y, else 0"

/-- The names of the two forms of a verb, `absent` where it has none (`verbNames`). -/
def formNames (absent : Text) (mark : UInt8) : Text × Text :=
  (((monadic? mark).map MonadicForm.name).getD absent,
    ((dyadic? mark).map DyadicForm.name).getD absent)

end Verb

namespace Help

/-- The lines of a page. -/
def pageOf (lines : List String) : Text := lines.flatMap fun s => Text.line (Text.ofString s)

/-- The introduction to the language. -/
def introduction : Text := pageOf [
  "jot evaluates expressions over arrays of integers.",
  "",
  "Numbers separated by blanks form a vector: 1 2 3.",
  "Every verb takes as its right argument everything to its right,",
  "so 2+3+4 is 2+(3+4). A verb with nothing on its left applies to",
  "the term just after it, so ~3+~3 is (~3)+(~3) and ~2+3 is (~2)+3.",
  "Use parentheses to apply it to more: ~(2+3), ,(2 2#~4).",
  "Parentheses group. Lines beginning NB. are comments.",
  ""]

/-- The list of the special commands. -/
def commands : Text := pageOf [
  "",
  "Special commands:",
  "\t)help [verb]           this text, or the description of a verb",
  "\t)debug [name [0|1]]    show or toggle debug settings",
  "\t)demo                  run a guided demonstration",
  "\t)maxdepth [n]          show or set the maximum nesting depth",
  "\t)maxelements [n]       show or set the maximum array size",
  "\t)prompt [\"text\"]       show or set the prompt",
  "\t)quit                  leave jot"]

/-- A table of three columns: the first two are as wide as their widest cell and two blanks. -/
def table (rows : List (Text × Text × Text)) : Text :=
  let widest (column : Text × Text × Text → Text) : Nat :=
    rows.foldl (fun w row => max w (column row).length) 0
  let fill (width : Nat) (cell : Text) : Text := cell ++ List.replicate (width + 2 - cell.length) 32
  let first := widest (·.1)
  let second := widest (·.2.1)
  rows.flatMap fun row => (fill first row.1 ++ fill second row.2.1 ++ row.2.2).line

/-- The rows of the table of verbs, under their titles. -/
def verbRows : List (Text × Text × Text) :=
  (Text.ofString "Verb", Text.ofString "Monadic", Text.ofString "Dyadic")
    :: Verb.marks.map fun mark => (Text.ofByte mark, Verb.formNames [45] mark)

/-- The help on the language (`helpText`). -/
def text : Text := introduction ++ table verbRows ++ commands

/-- The help on the verb of a name, if there is one (`helpVerb`). -/
def verb? (name : Text) : Option Text :=
  match name with
  | [mark] =>
    if Verb.marks.contains mark then
      let monadic : Text :=
        match Verb.monadic? mark with
        | none => Text.ofString "no monadic form"
        | some form => form.name ++ Text.ofString ": " ++ Verb.monadicDoc form
      let dyadic : Text :=
        match Verb.dyadic? mark with
        | none => Text.ofString "no dyadic form"
        | some form => form.name ++ Text.ofString ": " ++ Verb.dyadicDoc form
      some <|
        Text.line (mark :: 121 :: 9 :: monadic) ++ Text.line (120 :: mark :: 121 :: 9 :: dyadic)
    else none
  | _ => none

/-- A byte of running text in a page of markup. -/
def escapeByte (b : UInt8) : Text :=
  if b = 38 then Text.ofString "&amp;"
  else if b = 60 then Text.ofString "&lt;"
  else if b = 62 then Text.ofString "&gt;"
  else if b = 34 then Text.ofString "&#34;"
  else if b = 39 then Text.ofString "&#39;"
  else [b]

/-- Running text in a page of markup. -/
def escape (s : Text) : Text := s.flatMap escapeByte

/-- The row of a verb in the page of verbs. -/
def pageRow (mark : UInt8) : Text :=
  let names := Verb.formNames [] mark
  Text.line <|
    Text.ofString "<tr><td><code>" ++ escape (Text.ofByte mark)
      ++ Text.ofString "</code></td><td>" ++ escape names.1
      ++ Text.ofString "</td><td>" ++ escape names.2 ++ Text.ofString "</td></tr>"

/-- The page of verbs (`mobile.Help`). -/
def page : Text :=
  pageOf [
    "<h1>jot</h1>",
    "<p>Expressions over arrays of integers, evaluated right to left.</p>",
    "<table>",
    "<tr><th>Verb</th><th>Monadic</th><th>Dyadic</th></tr>"]
    ++ Verb.marks.flatMap pageRow ++ pageOf ["</table>"]

end Help

end Ravel
