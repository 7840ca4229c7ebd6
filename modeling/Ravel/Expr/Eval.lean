import Ravel.Expr.Resolve
import Ravel.Verb.Dyadic

/-!
# Evaluation of expressions

An expression is evaluated from right to left: the right operand, the left operand, then the
verb. Each verb counts one level toward the limit of depth, and each application that gives a
result enters the history of the context.

Source: package `exec`: `Context.EvalUnary`, `Context.EvalBinary`; package `value`: `Eval` of
`MonadicExpr` and `DyadicExpr`.
-/

namespace Ravel

/-- Why an expression has no value. -/
inductive EvalError where
  | value (e : ValueError)
  /-- A verb lacks the form in which it is used. A resolved tree has no such verb. -/
  | form (e : SemanticError)
  deriving DecidableEq, Repr

/-- The message of an error. -/
def EvalError.message : EvalError → Text
  | .value e => e.message
  | .form e => e.message

namespace Context

/-- Applies the monadic form of a verb and records the application (`Context.EvalUnary`). -/
def applyMonadic (c : Context) (mark : UInt8) (right : Noun) :
    Except (Halt EvalError) Noun × Context :=
  match Verb.monadic? mark with
  | none => (.error (.error (.form ⟨.noMonadicForm, mark, -1⟩)), c)
  | some form =>
    match form.apply c.limits.elements right with
    | .error e => (.error (e.map .value), c)
    | .ok result => (.ok result, c.record none mark right result)

/-- Applies the dyadic form of a verb and records the application (`Context.EvalBinary`). -/
def applyDyadic (c : Context) (left : Noun) (mark : UInt8) (right : Noun) :
    Except (Halt EvalError) Noun × Context :=
  match Verb.dyadic? mark with
  | none => (.error (.error (.form ⟨.noDyadicForm, mark, -1⟩)), c)
  | some form =>
    match form.apply c.limits.elements left right with
    | .error e => (.error (e.map .value), c)
    | .ok result => (.ok result, c.record (some left) mark right result)

end Context

namespace Expr

/-- Runs a part of the evaluation one level deeper. -/
def deeper (c : Context) (part : Context → Except (Halt EvalError) Noun × Context) :
    Except (Halt EvalError) Noun × Context :=
  match c.enter with
  | .error e => (.error (.error (.value e)), c)
  | .ok c =>
    let (result, c) := part c
    (result, c.leave)

/-- The value of an expression, and the context afterwards (`Context.Eval`). -/
def eval : Expr → Context → Except (Halt EvalError) Noun × Context
  | .noun a, c => (.ok a, c)
  | .monad mark right, c =>
    deeper c fun c =>
      match right.eval c with
      | (.error e, c) => (.error e, c)
      | (.ok right, c) => c.applyMonadic mark right
  | .dyad left mark right, c =>
    deeper c fun c =>
      match right.eval c with
      | (.error e, c) => (.error e, c)
      | (.ok right, c) =>
        match left.eval c with
        | (.error e, c) => (.error e, c)
        | (.ok left, c) => c.applyDyadic left mark right

end Expr

end Ravel
