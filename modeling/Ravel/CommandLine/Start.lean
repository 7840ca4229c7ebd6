import Ravel.CommandLine.Options
import Ravel.Environment
import Ravel.Profile.Load

/-!
# Settings at the start

The settings that a program starts with come in layers: the defaults, a profile, the environment
and the options, where each layer overrides those before it. The profile is the one that the
options name, else one in the working directory, else one in the home directory. The libraries that
decode documents and read variables are parameters.

Source: `initConf`.
-/

namespace Ravel

/-- Why the settings cannot be made up. -/
inductive StartError where
  | profile (path : Text) (e : Profile.LoadError)
  | unknownFlag (name : Text)
  deriving DecidableEq, Repr

/-- The message of an error. -/
def StartError.message : StartError → Text
  | .profile path e => e.message path
  | .unknownFlag name => Profile.unknownFlagMessage name

/-- The settings before any other source: a prompt of three blanks, and a history in the home
directory. -/
def Settings.initial (env : Environment) : Settings :=
  { prompt := Text.ofString "   "
    history :=
      match env.home? with
      | some home => Path.join home (Text.ofString ".jot_history")
      | none => [] }

namespace Options

/-- The profiles that may be consulted, in order. -/
def profiles (o : Options) (env : Environment) : List Text :=
  if !o.config.isEmpty then [o.config]
  else
    Profile.candidates Path.current
      ++ (match env.home? with
        | some home => Profile.candidates home
        | none => [])

/-- The profile to load: the one that is named, whether it is there or not, else the first that
is there. -/
def profile? (o : Options) (files : Reader) (env : Environment) : Option Text :=
  if !o.config.isEmpty then some o.config
  else (o.profiles env).find? files.exists

/-- Applies the profile to load, if there is one. -/
def applyProfile (o : Options) (d : Profile.Decoders) (files : Reader) (env : Environment)
    (s : Settings) : Except StartError Settings :=
  match o.profile? files env with
  | none => .ok s
  | some path =>
    match d.load files path with
    | .ok p => .ok (s.apply p)
    | .error e => .error (.profile path e)

/-- The names of debug flags that the options give. -/
def debugNames (o : Options) : List Text := (o.debug.getD []).names

/-- The settings with the options applied; a limit may also be set back to the default. -/
def override (o : Options) (s : Settings) : Settings :=
  Settings.turnOn
    { s with
      prompt := o.prompt.getD s.prompt
      depthLimit := o.maxDepth.getD s.depthLimit
      elementLimit := o.maxElements.getD s.elementLimit }
    o.debugNames

/-- Applies the options. Of several unknown debug flags the last one is reported. -/
def apply (o : Options) (s : Settings) : Except StartError Settings :=
  match Profile.unknownFlag? o.debugNames.reverse with
  | some name => .error (.unknownFlag name)
  | none => .ok (o.override s)

/-- The settings to start with, in an environment whose variables are read as `v` has them
(`initConf`). -/
def settings (o : Options) (d : Profile.Decoders) (files : Reader) (v : Variables)
    (env : Environment) : Except StartError Settings := do
  let s ← o.applyProfile d files env (Settings.initial env)
  o.apply (s.applyVariables v)

end Options

end Ravel
