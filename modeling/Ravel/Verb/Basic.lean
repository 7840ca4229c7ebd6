import Ravel.Text.Basic

/-!
# Verbs

A verb is known by its mark, one byte. It may have a monadic form, which takes the noun on its
right, and a dyadic form, which takes the nouns on its two sides.

Source: package `value`: `UnaryOps`, `BinaryOps`; `scan.Verbs`.
-/

namespace Ravel

/-- The monadic forms of verbs. -/
inductive MonadicForm where
  | identity
  | iota
  | tally
  | ravel
  | box
  deriving DecidableEq, Repr

/-- The dyadic forms of verbs. -/
inductive DyadicForm where
  | add
  | find
  | reshape
  | from
  | append
  | lessThan
  deriving DecidableEq, Repr

/-- The name of a monadic form. -/
def MonadicForm.name : MonadicForm → Text
  | .identity => Text.ofString "identity"
  | .iota => Text.ofString "iota"
  | .tally => Text.ofString "tally"
  | .ravel => Text.ofString "ravel"
  | .box => Text.ofString "box"

/-- The name of a dyadic form. -/
def DyadicForm.name : DyadicForm → Text
  | .add => Text.ofString "add"
  | .find => Text.ofString "find"
  | .reshape => Text.ofString "reshape"
  | .from => Text.ofString "from"
  | .append => Text.ofString "append"
  | .lessThan => Text.ofString "less than"

namespace Verb

/-- The marks of the verbs: `+ - ~ # { , <` (`scan.Verbs`). -/
def marks : Text := [43, 45, 126, 35, 123, 44, 60]

/-- The monadic form of the verb with a mark, if it has one (`value.UnaryOps`). -/
def monadic? (mark : UInt8) : Option MonadicForm :=
  if mark = 43 then some .identity
  else if mark = 126 then some .iota
  else if mark = 35 then some .tally
  else if mark = 44 then some .ravel
  else if mark = 60 then some .box
  else none

/-- The dyadic form of the verb with a mark, if it has one (`value.BinaryOps`). -/
def dyadic? (mark : UInt8) : Option DyadicForm :=
  if mark = 43 then some .add
  else if mark = 126 then some .find
  else if mark = 35 then some .reshape
  else if mark = 123 then some .from
  else if mark = 44 then some .append
  else if mark = 60 then some .lessThan
  else none

end Verb

end Ravel
