import Ravel.Session.Basic
import Ravel.Text.Category

/-!
# Dialogues

A dialogue is a session at a terminal: it shows its prompt, takes a line, and remembers the lines
that are not empty. What it remembers is kept in a file from one dialogue to the next.

Source: `interactive`.
-/

namespace Ravel

/-- The lines that a dialogue remembers, the latest first. -/
abbrev History := List Text

namespace History

/-- The number of lines that are remembered. -/
def limit : Nat := 1000

/-- Adds a line; the oldest one over the limit is forgotten. -/
def push (h : History) (line : Text) : History := (line :: h).take limit

/-- Remembers a line, unless it repeats the latest one. -/
def remember (h : History) (line : Text) : History :=
  if h.head? = some line then h else h.push line

/-- Adds the lines of a file, up to one that is too long or is not valid UTF-8. -/
def readLoop (h : History) : (fuel : Nat) → Text → History
  | 0, _ => h
  | fuel + 1, file =>
    match file.promptLine? with
    | none => h
    | some (line, rest, goesOn) =>
      if goesOn || !line.isUtf8 then h else readLoop (h.push line) fuel rest

/-- The lines of a file. -/
def ofFile (file : Text) : History := readLoop [] file.length file

/-- The file with the lines of a history, the oldest first. -/
def toFile (h : History) : Text := h.reverse.flatMap Text.line

end History

/-- The state of a dialogue. -/
structure Dialogue where
  settings : Settings
  history : History

/-- The effect of a line in a dialogue. -/
structure Turn where
  dialogue : Dialogue
  emissions : List Emission
  status : Except Fault LineStatus

/-- A dialogue that has ended, with what it showed, and the fault that ended it, if any. -/
structure Dialogue.Ending where
  dialogue : Dialogue
  emissions : List Emission
  fault : Option Fault

namespace Dialogue

/-- A prompt that can be shown: each of its characters takes a place on the line. -/
def isShowable (prompt : Text) : Bool := prompt.glyphs.all fun r => !isOther r.shown

/-- What ends a dialogue whose prompt cannot be shown. -/
def invalidPrompt : List Emission :=
  [.err (Settings.logLine (Text.ofString "invalid prompt")), .out Text.newline]

/-- Takes a line. `input` is what a demonstration reads. -/
def hear (d : Dialogue) (line : Text) (input : Option Demo.Input) : Turn :=
  if line.trim.isEmpty then ⟨d, [], .ok ⟨true, false⟩⟩
  else
    let effect := d.settings.runLine line input
    ⟨⟨effect.settings, d.history.remember line⟩, effect.emissions, effect.status⟩

/-- Goes through the input after what was shown, the latest first. A demonstration finds no input
left, since all of it has been taken into a buffer. -/
def runLoop (d : Dialogue) (shown : List Emission) : (fuel : Nat) → Text → Ending
  | 0, _ => ⟨d, shown.reverse, none⟩
  | fuel + 1, input =>
    if !isShowable d.settings.prompt then ⟨d, shown.reverse ++ invalidPrompt, none⟩
    else
      let shown := .out d.settings.prompt :: shown
      match input.promptLine? with
      | none => ⟨d, (.out Text.newline :: shown).reverse, none⟩
      | some (line, rest, _) =>
        let turn := d.hear line (some {})
        let shown := turn.emissions.reverse ++ shown
        match turn.status with
        | .error f => ⟨turn.dialogue, shown.reverse, some f⟩
        | .ok status =>
          if status.quit then ⟨turn.dialogue, shown.reverse, none⟩
          else turn.dialogue.runLoop shown fuel rest

/-- Goes through the whole input (`interactive`). -/
def run (d : Dialogue) (input : Text) : Ending := d.runLoop [] (input.length + 1) input

end Dialogue

end Ravel
