import Ravel.Expr.Basic
import Ravel.Noun.Error

/-!
# The context of an evaluation

How deep in its expression an evaluation is, how deep it may go, and the verbs it has applied.

Source: package `exec`: `Context`, `TraceIndent`, `argPrint`.
-/

namespace Ravel

/-- The bounds on an evaluation: the depth of nesting and the number of elements of a noun that a
verb builds. -/
structure Limits where
  depth : Int64
  elements : Int64
  deriving DecidableEq, Repr

/-- The application of a verb that gave a result, at a depth of the expression. -/
structure Application where
  depth : Nat
  left : Option Noun
  mark : UInt8
  right : Noun
  result : Noun
  deriving DecidableEq, Repr

namespace Application

/-- A text, cut after fifty bytes (`exec.short`). -/
def shortened (s : Text) : Text := if 50 < s.length then s.take 50 ++ Text.ofString "..." else s

/-- A noun as an argument or a result of an application (`exec.argPrint`). -/
def argument (a : Noun) : Text :=
  if a.isCompound then Expr.parenthesized (shortened a.source) else shortened a.source

/-- The indentation of the lines at a depth (`Context.TraceIndent`). -/
def indentation (depth : Nat) : Text := Text.times depth (Text.ofString "| ")

/-- The line that reports an application (`Context.traceUnary`, `Context.traceBinary`). -/
def traceLine (x : Application) : Text :=
  Text.line <|
    9 :: indentation x.depth
      ++ (match x.left with
        | some a => argument a ++ [32]
        | none => [])
      ++ Text.ofByte x.mark ++ 32 :: argument x.right ++ Text.ofString " = " ++ argument x.result

end Application

/-- The state of an evaluation: its depth in the expression, and the applications of verbs so far,
the latest first (`exec.Context`). -/
structure Context where
  limits : Limits
  depth : Nat
  history : List Application
  deriving DecidableEq, Repr

namespace Context

/-- The context of an evaluation that has not started (`exec.NewContext`). -/
def start (limits : Limits) : Context := ⟨limits, 0, []⟩

/-- One level deeper, unless the limit is reached (`Context.Enter`). -/
def enter (c : Context) : Except ValueError Context :=
  if c.limits.depth.toInt ≤ c.depth then .error (.tooDeep c.limits.depth none)
  else .ok { c with depth := c.depth + 1 }

/-- One level back (`Context.Leave`). Only a level that was entered is left, so there is one to take
away. -/
def leave (c : Context) : Context := { c with depth := c.depth - 1 }

/-- With one more application of a verb, at the present depth. -/
def record (c : Context) (left : Option Noun) (mark : UInt8) (right result : Noun) : Context :=
  { c with history := ⟨c.depth, left, mark, right, result⟩ :: c.history }

/-- The lines that report the applications so far, in their order. -/
def trace (c : Context) : Text := c.history.reverse.flatMap Application.traceLine

end Context

end Ravel
