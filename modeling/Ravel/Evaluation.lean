import Ravel.Expr.Eval
import Ravel.Settings.Basic
import Ravel.Tree.Parse

/-!
# Evaluation of a source

A source goes through four stages: it is scanned, parsed, resolved and evaluated. The first stage
that fails ends the run, and its error carries the name of the stage. What the debug flags ask to
be shown is emitted on the way; it never changes the outcome.

Source: package `run`: `Run`, `Eval`, `EvaluateConfig`, `Render`.
-/

namespace Ravel

/-- Something shown to the user. -/
inductive Emission where
  /-- Text on the output. -/
  | out (text : Text)
  /-- Text on the error output. -/
  | err (text : Text)
  /-- A report of the processor time used, on the error output. -/
  | cpuTime
  deriving DecidableEq, Repr

namespace Emission

/-- What an emission puts on the output. -/
def toOut : Emission → Text
  | .out text => text
  | _ => []

/-- What an emission puts on the error output, where `report` is the text of a report of time. -/
def toErr (report : Text) : Emission → Text
  | .out _ => []
  | .err text => text
  | .cpuTime => report

/-- The output of some emissions. -/
def outText (es : List Emission) : Text := es.flatMap toOut

/-- The error output of some emissions. -/
def errText (report : Text) (es : List Emission) : Text := es.flatMap (toErr report)

end Emission

/-- An error with the stage that it ended. -/
inductive StageError where
  | tokenize (e : ScanError)
  | parse (e : ParseError)
  | semantic (e : ResolveError)
  | eval (e : EvalError)
  deriving DecidableEq, Repr

/-- The message of an error, after the name of its stage. -/
def StageError.message : StageError → Text
  | .tokenize e => Text.ofString "tokenize error: " ++ e.message
  | .parse e => Text.ofString "parse error: " ++ e.message
  | .semantic e => Text.ofString "semantic error: " ++ e.message
  | .eval e => Text.ofString "eval error: " ++ e.message

/-- The run of a source: what came of it, and what was emitted on the way. -/
structure Run where
  result : Except (Halt StageError) Noun
  emissions : List Emission

/-- An emission that a flag asks for; it is worked out only if the flag is on. -/
@[macro_inline]
def Settings.emit (s : Settings) (flag : DebugFlag) (e : Emission) : List Emission :=
  if s.debug flag then [e] else []

/-- The lines that list the tokens of a scan. -/
def Token.Scan.listing (scan : Token.Scan) : Text := scan.tokens.flatMap Token.traceLine

/-- The line that shows the shape of a result. -/
def Noun.typeLine (a : Noun) : Text :=
  (Text.ofString "value.Array " ++ Text.bracketed a.shape).line

/-- The last two stages: resolves and evaluates a tree. -/
def Settings.runTree (s : Settings) (tree : Tree) : Run :=
  match tree.resolve (Context.start s.limits) with
  | (.error e, _) => ⟨.error (.error (.semantic e)), []⟩
  | (.ok expr, c) =>
    let (result, c) := expr.eval c
    let trace := s.emit .trace (.err c.trace)
    match result with
    | .error e => ⟨.error (e.map .eval), trace⟩
    | .ok value => ⟨.ok value, trace ++ s.emit .types (.out value.typeLine)⟩

/-- The four stages of a source. -/
def Settings.runStages (s : Settings) (source : Text) : Run :=
  let scan := Token.scan source
  let listing := s.emit .tokens (.out scan.listing)
  match scan.error with
  | some e => ⟨.error (.error (.tokenize e)), listing⟩
  | none =>
    match Tree.parse s.maxDepth scan.tokens with
    | .error e => ⟨.error (e.map .parse), listing⟩
    | .ok tree =>
      let run := s.runTree tree
      ⟨run.result, listing ++ s.emit .parse (.out tree.outline.line) ++ run.emissions⟩

/-- Runs a source (`run.Run`). However it ends, a report of time comes last. -/
def Settings.run (s : Settings) (source : Text) : Run :=
  let run := s.runStages source
  ⟨run.result, run.emissions ++ s.emit .cpu .cpuTime⟩

/-- What the user is told of a source: the text of the result or of the error, and whether there
is a result. -/
structure Answer where
  text : Text
  ok : Bool
  deriving DecidableEq, Repr

/-- An error message as the user is told of it (`run.Render`). -/
def renderError (message : Text) : Text := Text.ofString "Error: " ++ message

/-- The answer to a fault that does not escape. -/
def Fault.answer (f : Fault) : Answer :=
  ⟨renderError (Text.ofString "internal error: " ++ f.message), false⟩

/-- The answer to the outcome of a run; a fault has none. -/
def Answer.ofResult : Except (Halt StageError) Noun → Except Fault Answer
  | .ok value => do return ⟨← value.display, true⟩
  | .error (.error e) => .ok ⟨renderError e.message, false⟩
  | .error (.fault f) => .error f

/-- Answers a source, with what was emitted on the way (`run.Eval`). A fault escapes only if the
flag `panic` is set. -/
def Settings.answer (s : Settings) (source : Text) : Except Fault Answer × List Emission :=
  let run := s.run source
  match Answer.ofResult run.result with
  | .ok answer => (.ok answer, run.emissions)
  | .error f => (if s.debug .panic then .error f else .ok f.answer, run.emissions)

/-- The text of the answer to a source under the default settings (`run.Evaluate`). -/
def evaluate (source : Text) : Answer :=
  match (({} : Settings).answer source).1 with
  | .ok answer => answer
  | .error f => f.answer

end Ravel
