import Ravel.FileTree
import Ravel.Profile.Toml
import Ravel.Profile.Yaml
import Ravel.Text.Lower

/-!
# Loading profiles

A profile is loaded from a file whose extension tells its format. Loading fails for the first
reason met: the format is not known, the file cannot be read, the document cannot be decoded, or the
profile is refused. Decoding is the work of two libraries; `Decoders` stands for any two, and
`Decoders.standard` are those of the program.

Source: `config.Find`, `config.Load`.
-/

namespace Ravel.Profile

/-- The formats of profiles. -/
inductive Format where
  | toml
  | yaml
  deriving DecidableEq, Repr

/-- The format of an extension in lower case. -/
def Format.ofExtension? (extension : Text) : Option Format :=
  if extension = Text.ofString ".toml" then some .toml
  else if extension = Text.ofString ".yaml" || extension = Text.ofString ".yml" then some .yaml
  else none

/-- Why a profile cannot be loaded. -/
inductive LoadError where
  | unknownFormat (extension : Text)
  | unreadable (format : Format) (e : FileError)
  | malformed (format : Format)
  | mismatch (m : Toml.Mismatch)
  | problems (ps : List Yaml.Problem)
  /-- Any other error of a decoder, with its message. -/
  | undecodable (message : Text)
  | unknownKey (key : List Text)
  | refused (e : Error)
  deriving DecidableEq, Repr

/-- The message of an error in loading the file of a path. -/
def LoadError.message (path : Text) : LoadError → Text
  | .unknownFormat extension =>
    path ++ Text.ofString ": unknown configuration format " ++ extension.quote
  | .unreadable .toml e => path ++ Text.ofString ": " ++ e.whenReading path
  | .unreadable .yaml .isDirectory =>
    path ++ Text.ofString ": yaml: input error: " ++ FileError.isDirectory.whenReading path
  | .unreadable .yaml e => e.whenReading path
  | .malformed .toml => path ++ Text.ofString ": toml: malformed document"
  | .malformed .yaml => path ++ Text.ofString ": yaml: malformed document"
  | .mismatch m => path ++ Text.ofString ": " ++ m.message
  | .problems ps => path ++ Text.ofString ": " ++ Yaml.problemsMessage ps
  | .undecodable message => path ++ Text.ofString ": " ++ message
  | .unknownKey key => path ++ Text.ofString ": unknown key " ++ (Toml.nameKey key).quote
  | .refused e => path ++ Text.ofString ": " ++ e.message

/-- What two libraries make of documents (`toml.DecodeFile` and its `Undecoded`,
`yaml.Decoder.Decode`). -/
structure Decoders where
  /-- The profile of a document of keys and values, and the keys that no setting has. -/
  toml : Text → Except LoadError (Profile × List (List Text))
  /-- The profile of the first document of nested nodes, if there is one. -/
  yaml : Text → Except LoadError (Option Profile)

namespace Decoders

variable (d : Decoders)

/-- The profile of a document. A key that no setting has is refused; without a document nothing is
given. -/
def decode (format : Format) (document : Text) : Except LoadError Profile :=
  match format with
  | .toml =>
    match d.toml document with
    | .error e => .error e
    | .ok (_, key :: _) => .error (.unknownKey key)
    | .ok (p, []) => .ok p
  | .yaml =>
    match d.yaml document with
    | .error e => .error e
    | .ok p => .ok (p.getD {})

/-- Loads the profile of a path (`config.Load`). -/
def load (files : Reader) (path : Text) : Except LoadError Profile :=
  let extension := (Path.extension path).lower
  match Format.ofExtension? extension with
  | none => .error (.unknownFormat extension)
  | some format =>
    match files path with
    | .error e => .error (.unreadable format e)
    | .ok document => do
      let p ← d.decode format document
      match p.check with
      | .ok p => return p
      | .error e => throw (.refused e)

/-- Reads a document of keys and values with the parser of this library. -/
def standardToml (document : Text) : Except LoadError (Profile × List (List Text)) :=
  match Toml.parse? document with
  | none => .error (.malformed .toml)
  | some entries =>
    match Toml.profile entries with
    | .error m => .error (.mismatch m)
    | .ok p => .ok (p, Toml.unknownKeys entries)

/-- Reads a document of nested nodes with the parser of this library. -/
def standardYaml (document : Text) : Except LoadError (Option Profile) :=
  match Yaml.parse? document with
  | none => .error (.malformed .yaml)
  | some none => .ok none
  | some (some root) =>
    if Yaml.asksForMerge root then .error (.malformed .yaml)
    else
      match Yaml.profile root with
      | .error ps => .error (.problems ps)
      | .ok p => .ok (some p)

/-- The decoders of the program. They read the common part of either format. -/
def standard : Decoders := ⟨standardToml, standardYaml⟩

end Decoders

/-- Loads the profile of a path with the decoders of the program. -/
def load (files : Reader) (path : Text) : Except LoadError Profile :=
  Decoders.standard.load files path

/-- The names under which profiles are looked for, in order (`config.FileNames`). -/
def fileNames : List Text :=
  [Text.ofString ".jot.toml", Text.ofString ".jot.yaml", Text.ofString ".jot.yml"]

/-- The paths of profiles in a directory, in the order in which they are looked for. -/
def candidates (directory : Text) : List Text := fileNames.map (Path.join directory)

/-- The path of the first profile that there is in a directory (`config.Find`). -/
def find? (files : Reader) (directory : Text) : Option Text :=
  (candidates directory).find? files.exists

end Ravel.Profile
