import Ravel.Expr.Context

/-!
# Settings

What a session can be told: its prompt, where it keeps its history, the limits on evaluation and
the debug flags. A limit that is not positive stands for the default.

Source: package `config`: `Config`, `DebugFlags`.
-/

namespace Ravel

/-- The debug flags (`config.DebugFlags`). -/
inductive DebugFlag where
  /-- Report the processor time of each evaluation. -/
  | cpu
  /-- Let faults escape from evaluations. -/
  | panic
  /-- Show the outline of each tree. -/
  | parse
  /-- List the tokens as they are found. -/
  | tokens
  /-- Report each application of a verb. -/
  | trace
  /-- Show the shape of each result. -/
  | types
  deriving DecidableEq, Repr

namespace DebugFlag

/-- All flags in the order of their names. -/
def all : List DebugFlag := [.cpu, .panic, .parse, .tokens, .trace, .types]

/-- The name of a flag. -/
def name : DebugFlag → Text
  | .cpu => Text.ofString "cpu"
  | .panic => Text.ofString "panic"
  | .parse => Text.ofString "parse"
  | .tokens => Text.ofString "tokens"
  | .trace => Text.ofString "trace"
  | .types => Text.ofString "types"

/-- The flag of a name. -/
def ofName? (name : Text) : Option DebugFlag := all.find? fun f => f.name = name

end DebugFlag

/-- The settings of a session (`config.Config`). -/
structure Settings where
  prompt : Text := []
  /-- The file that keeps the history; none is kept if it is empty. -/
  history : Text := []
  depthLimit : Int64 := 0
  elementLimit : Int64 := 0
  debug : DebugFlag → Bool := fun _ => false

namespace Settings

/-- The depth of nesting that is allowed by default. -/
def defaultDepth : Int64 := 1000

/-- The number of elements that is allowed by default. -/
def defaultElements : Int64 := 4194304

/-- The depth of nesting that is allowed (`Config.MaxDepth`). -/
def maxDepth (s : Settings) : Int64 := if s.depthLimit ≤ 0 then defaultDepth else s.depthLimit

/-- The number of elements that is allowed (`Config.MaxElements`). -/
def maxElements (s : Settings) : Int64 :=
  if s.elementLimit ≤ 0 then defaultElements else s.elementLimit

/-- The limits on evaluation. -/
def limits (s : Settings) : Limits := ⟨s.maxDepth, s.maxElements⟩

/-- The settings with a flag on or off. -/
def setFlag (s : Settings) (flag : DebugFlag) (on : Bool) : Settings :=
  { s with debug := fun f => if f = flag then on else s.debug f }

/-- The settings with the flag of a name on or off, if there is such a flag (`Config.SetDebug`). -/
def setNamedFlag? (s : Settings) (name : Text) (on : Bool) : Option Settings :=
  (DebugFlag.ofName? name).map (s.setFlag · on)

/-- Turns on the flags of some names; names that no flag has are passed over. -/
def turnOn (s : Settings) (names : List Text) : Settings :=
  (names.filterMap DebugFlag.ofName?).foldl (fun s f => s.setFlag f true) s

/-- Whether a flag is on, as 0 or 1. -/
def switch (on : Bool) : Text := if on then [49] else [48]

/-- The flags with their states, one text for each (`Config.DebugSettings`). -/
def listFlags (s : Settings) : List Text :=
  DebugFlag.all.map fun f => f.name ++ 9 :: switch (s.debug f)

end Settings

end Ravel
