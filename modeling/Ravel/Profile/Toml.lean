import Ravel.Profile.Basic
import Ravel.Toml.Parse

/-!
# Profiles in documents of keys and values

The keys of a profile stand at the top of the document and are found whatever their case. A value
of a wrong type is reported before a key that no setting has.
-/

namespace Ravel.Toml

/-- A character in the case in which keys are compared. -/
def foldChar (c : Char) : Char :=
  if c = 'ſ' then 's' else if c = '\u212a' then 'k' else c.toLower

/-- A key in the case in which keys are compared. -/
def foldKey (key : Text) : Text := key.glyphs.flatMap fun r => Text.ofChar (foldChar r.shown)

/-- The setting that a key gives. -/
def setting? (key : Text) : Option Setting := Setting.ofKey? (foldKey key)

/-- A value whose type is not the wanted one. -/
structure Mismatch where
  key : List Text
  /-- The line on which the key is defined; a key that longer ones imply has none. -/
  line : Option Nat
  found : Text
  wanted : Text
  deriving DecidableEq, Repr

/-- The message of a mismatch. -/
def Mismatch.message (m : Mismatch) : Text :=
  let line : Text :=
    match m.line with
    | some n => Text.ofString "line " ++ Text.ofNat n ++ [32]
    | none => []
  Text.ofString "toml: " ++ line ++ Text.ofString "(last key " ++ (nameKey m.key).quote
    ++ Text.ofString "): incompatible types: TOML value has type " ++ m.found
    ++ Text.ofString "; destination has type " ++ m.wanted

/-- The name of the type that a setting wants. -/
def wantedType : Setting → Text
  | .prompt => Text.ofString "string"
  | .history => Text.ofString "string"
  | .maxDepth => Text.ofString "integer"
  | .maxElements => Text.ofString "integer"
  | .debug => Text.ofString "slice"

/-- The texts of an array; for an item of another type, the name of its type. -/
def texts : List Value → Except Text (List Text)
  | [] => .ok []
  | .string s :: items => do return s :: (← texts items)
  | item :: _ => .error item.typeName

/-- Puts a value into a profile; if its type is wrong, gives the names of the type found and of
the one wanted. -/
def put (p : Profile) (setting : Setting) (value : Value) : Except (Text × Text) Profile :=
  match setting, value with
  | .prompt, .string s => .ok { p with prompt := s }
  | .history, .string s => .ok { p with history := s }
  | .maxDepth, .integer n => .ok { p with maxDepth := n }
  | .maxElements, .integer n => .ok { p with maxElements := n }
  | .debug, .array items =>
    match texts items with
    | .ok names => .ok { p with debug := names }
    | .error found => .error (found, Text.ofString "string")
  | setting, value => .error (value.typeName, wantedType setting)

/-- The line of the header of a section, if there is one. -/
def headerLine? (entries : List Entry) (key : List Text) : Option Nat :=
  (entries.find? fun e => e.key = key && e.value.isNone).map Entry.line

/-- Takes an entry of a document into a profile. Entries that belong to no setting are passed
over; a section has the type of a table. -/
def take (entries : List Entry) (p : Profile) (entry : Entry) : Except Mismatch Profile :=
  match entry.key with
  | [] => .ok p
  | part :: rest =>
    match setting? part with
    | none => .ok p
    | some setting =>
      match rest, entry.value with
      | [], some value =>
        match put p setting value with
        | .ok p => .ok p
        | .error (found, wanted) => .error ⟨[part], some entry.line, found, wanted⟩
      | _, _ =>
        .error ⟨[part], headerLine? entries [part], Text.ofString "map[string]any",
          wantedType setting⟩

/-- The profile that the entries of a document give. -/
def profile (entries : List Entry) : Except Mismatch Profile :=
  entries.foldlM (take entries) {}

/-- An entry at the top of a document whose key gives a setting. -/
def isKnown (entry : Entry) : Bool :=
  match entry.key with
  | [part] => (setting? part).isSome
  | _ => false

/-- The keys of a document that no setting has, in their order. -/
def unknownKeys (entries : List Entry) : List (List Text) :=
  (entries.filter (!isKnown ·)).map Entry.key

end Ravel.Toml
