import Ravel.Profile.Basic
import Ravel.Text.Blank

/-!
# The environment

Variables of the environment override settings. They are read through a library, for which
`Variables` stands; `Variables.Documented` is what the library says of its answers in an
environment.

Source: `Config.LoadEnv`; `env.Has`, `env.Str` and `env.Int` of the library.
-/

namespace Ravel

/-- An environment: its variables with their values. -/
abbrev Environment := List (Text × Text)

/-- The answers of a library that reads variables. -/
structure Variables where
  /-- Whether a variable counts as set. -/
  has : (name : String) → Bool
  /-- The value of a variable. -/
  str : (name : String) → Text
  /-- The integer that a variable holds, or else the default. -/
  int : (name : String) → (default : Int64) → Int64

namespace Environment

/-- The names of the variables that matter. -/
def names : List String :=
  ["HOME", "JOT_PROMPT", "JOT_HISTORY", "JOT_MAXDEPTH", "JOT_MAXELEMENTS", "JOT_DEBUG"]

/-- The value of a variable, if it is present. -/
def get? (env : Environment) (name : String) : Option Text := env.lookup (Text.ofString name)

/-- The value of a variable, empty if it is not present. -/
def value (env : Environment) (name : String) : Text := (env.get? name).getD []

/-- The integer that a variable holds, if it holds one. -/
def integer? (env : Environment) (name : String) : Option Int64 :=
  (env.get? name).bind Text.readInt64?

/-- The home directory, if it is set. -/
def home? (env : Environment) : Option Text :=
  let home := env.value "HOME"
  if home.isEmpty then none else some home

/-- The variables of an environment as the program reads them. -/
def reading (env : Environment) : Variables where
  has name := !(env.value name).isEmpty
  str := env.value
  int name default := (env.integer? name).getD default

end Environment

/-- What the library says of its answers in an environment: a variable counts as set if it is
present and not empty, and one that is not present has the empty value. -/
structure Variables.Documented (v : Variables) (env : Environment) : Prop where
  has_iff (name : String) : v.has name = true ↔ ∃ t, env.get? name = some t ∧ t ≠ []
  str_eq (name : String) : v.str name = env.value name
  int_eq (name : String) (default : Int64) : v.int name default = (env.integer? name).getD default

/-- The names in a list with commas between them; empty ones are left out. -/
def Text.names (list : Text) : List Text :=
  ((list.splitOn 44).map Text.trim).filter (!·.isEmpty)

namespace Settings

/-- Applies variables (`Config.LoadEnv`). Names that no debug flag has are passed over. -/
def applyVariables (s : Settings) (v : Variables) : Settings :=
  let s := if v.has "JOT_PROMPT" then { s with prompt := v.str "JOT_PROMPT" } else s
  let s := if v.has "JOT_HISTORY" then { s with history := v.str "JOT_HISTORY" } else s
  ((s.withDepth (v.int "JOT_MAXDEPTH" 0)).withElements (v.int "JOT_MAXELEMENTS" 0)).turnOn
    (v.str "JOT_DEBUG").names

/-- Applies the variables of an environment. -/
def applyEnvironment (s : Settings) (env : Environment) : Settings :=
  s.applyVariables env.reading

end Settings

end Ravel
