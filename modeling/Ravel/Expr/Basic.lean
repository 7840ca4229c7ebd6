import Ravel.Noun.Display

/-!
# Expressions

An expression is a tree in which every verb is applied to one noun or to two and parentheses are
gone. It is written back with the parentheses that its reading needs.

Source: package `value`: `Expr`, `IsCompound`.
-/

namespace Ravel

/-- An expression ready for evaluation (`value.Expr`). -/
inductive Expr where
  | noun (a : Noun)
  | monad (mark : UInt8) (right : Expr)
  | dyad (left : Expr) (mark : UInt8) (right : Expr)
  deriving DecidableEq, Repr

namespace Expr

/-- An expression that needs parentheses as a left operand (`value.IsCompound`). -/
def isCompound : Expr → Bool
  | .noun a => a.isCompound
  | .monad _ _ => true
  | .dyad _ _ _ => true

/-- A text in parentheses. -/
def parenthesized (s : Text) : Text := (40 :: s) ++ [41]

/-- The text of an expression (`Expr.ProgString`). A monadic verb takes the one term after it, so
that only a dyadic operand needs parentheses there; on the left of a dyadic verb every compound
operand does. -/
def source : Expr → Text
  | .noun a => a.source
  | .monad mark right =>
    Text.ofByte mark ++ 32 ::
      (match right with
        | .dyad _ _ _ => parenthesized right.source
        | _ => right.source)
  | .dyad left mark right =>
    (if left.isCompound then parenthesized left.source else left.source) ++ 32 ::
      (Text.ofByte mark ++ 32 :: right.source)

end Expr

end Ravel
