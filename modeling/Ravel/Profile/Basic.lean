import Ravel.Settings.Basic
import Ravel.Text.Quoted

/-!
# Profiles

A profile is what a file says about the settings. Of a setting that it does not give it holds the
empty text, zero or no names, and applying it leaves that setting alone.

Source: package `config`: `File`, `Config.Apply`.
-/

namespace Ravel

/-- The settings that a profile can give. -/
inductive Setting where
  | prompt
  | history
  | maxDepth
  | maxElements
  | debug
  deriving DecidableEq, Repr

namespace Setting

/-- All settings. -/
def all : List Setting := [.prompt, .history, .maxDepth, .maxElements, .debug]

/-- The key that gives a setting. -/
def key : Setting → Text
  | .prompt => Text.ofString "prompt"
  | .history => Text.ofString "history"
  | .maxDepth => Text.ofString "maxdepth"
  | .maxElements => Text.ofString "maxelements"
  | .debug => Text.ofString "debug"

/-- The setting that a key gives. -/
def ofKey? (key : Text) : Option Setting := all.find? fun s => s.key = key

end Setting

/-- What a file says about the settings (`config.File`). -/
structure Profile where
  prompt : Text := []
  history : Text := []
  maxDepth : Int64 := 0
  maxElements : Int64 := 0
  debug : List Text := []
  deriving DecidableEq, Repr

namespace Profile

/-- Why a profile is refused. -/
inductive Error where
  | negativeDepth (n : Int64)
  | negativeElements (n : Int64)
  | unknownFlag (name : Text)
  deriving DecidableEq, Repr

/-- The message for a name that no debug flag has. -/
def unknownFlagMessage (name : Text) : Text := Text.ofString "unknown debug flag " ++ name.quote

/-- The message of an error. -/
def Error.message : Error → Text
  | .negativeDepth n => Text.ofString "maxdepth must be non-negative: " ++ Text.ofInt64 n
  | .negativeElements n => Text.ofString "maxelements must be non-negative: " ++ Text.ofInt64 n
  | .unknownFlag name => unknownFlagMessage name

/-- The first of some names that no debug flag has. -/
def unknownFlag? (names : List Text) : Option Text :=
  names.find? fun name => (DebugFlag.ofName? name).isNone

/-- Refuses negative limits and names that no debug flag has (`File.check`). -/
def check (p : Profile) : Except Error Profile :=
  if p.maxDepth < 0 then .error (.negativeDepth p.maxDepth)
  else if p.maxElements < 0 then .error (.negativeElements p.maxElements)
  else
    match unknownFlag? p.debug with
    | some name => .error (.unknownFlag name)
    | none => .ok p

end Profile

namespace Settings

/-- The settings with the prompt replaced by a text that is not empty. -/
def withPrompt (s : Settings) (prompt : Text) : Settings :=
  if prompt.isEmpty then s else { s with prompt }

/-- The settings with the history replaced by a path that is not empty. -/
def withHistory (s : Settings) (history : Text) : Settings :=
  if history.isEmpty then s else { s with history }

/-- The settings with the limit on depth replaced by a positive one. -/
def withDepth (s : Settings) (n : Int64) : Settings :=
  if 0 < n then { s with depthLimit := n } else s

/-- The settings with the limit on elements replaced by a positive one. -/
def withElements (s : Settings) (n : Int64) : Settings :=
  if 0 < n then { s with elementLimit := n } else s

/-- Applies a profile: what it gives replaces the setting, and the debug flags that it names are
turned on (`Config.Apply`). -/
def apply (s : Settings) (p : Profile) : Settings :=
  ((((s.withPrompt p.prompt).withHistory p.history).withDepth p.maxDepth).withElements
    p.maxElements).turnOn p.debug

end Settings

end Ravel
