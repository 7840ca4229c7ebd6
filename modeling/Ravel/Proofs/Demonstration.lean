import Ravel.Demo
import Ravel.Proofs.Lines

/-!
# The user in a demonstration

While its writer does not fail, a demonstration only ever adds to what has been written: a line of
the script with its result for each blank line of the user, and the result of any other line
(`Demo.added`). Only blank lines move the script on, so that what is added after some lines hangs on
the number of blank ones among them (`Demo.added_append`). A line that the user tries out therefore
adds its own result and changes nothing else, and blank lines alone show what an unattended
demonstration shows (`Demo.run_insert`).
-/

namespace Ravel.Demo

/-! ### What one line adds -/

/-- What the evaluation of a line adds to the output: its result as a line, and nothing for a blank
line or a comment. -/
def evaluated (eval : Text → Text) (line : Text) : Text :=
  if line.trim.isEmpty || line.trim.isComment then [] else (eval line.trim).line

/-- What a line of the script adds to the output: the line and what its evaluation adds. -/
def presented (eval : Text → Text) (line : Text) : Text := line ++ evaluated eval line

/-- What the lines of the user add to the output while there is a script to come. -/
def added (eval : Text → Text) (script : List Text) : (input : List Text) → Text
  | [] => []
  | line :: input =>
    if line.trim.isEmpty then
      match script with
      | [] => []
      | next :: script => presented eval next ++ added eval script input
    else if line.trim = Text.ofString "quit" then []
    else evaluated eval line ++ added eval script input

variable {eval : Text → Text} {writer : Writer}

@[simp]
private theorem evaluated_dropLastIf (line : Text) :
    evaluated eval (line.dropLastIf 13) = evaluated eval line := by
  simp only [evaluated, Text.trim_dropLastIf]

private theorem added_map_dropLastIf (script input : List Text) :
    added eval script (input.map (Text.dropLastIf 13)) = added eval script input := by
  induction input generalizing script with
  | nil => rfl
  | cons line input ih =>
    simp only [List.map_cons, added, Text.trim_dropLastIf, evaluated_dropLastIf, ih]

private theorem added_cons_of_blank {line : Text} (hblank : line.trim.isEmpty) (next : Text)
    (script input : List Text) :
    added eval (next :: script) (line :: input) =
      presented eval next ++ added eval script input := by
  simp [added, hblank]

/-! ### What is written -/

private theorem written_attended_of_ended {stop : Stop} {s : Stage} {line : Text}
    {outcome : Outcome} (h : s.hear eval writer line = .ended outcome) (input : List Text) :
    (attended eval writer stop s (line :: input)).written = outcome.written := by
  rw [attended, h]
  dsimp only
  split <;> rfl

section Writing

variable (hw : ∀ call, writer.accepts call) (eval : Text → Text)

include hw

private theorem write_eq (w : Written) (text : Text) :
    w.write writer text = (⟨w.calls + 1, text :: w.texts⟩, true) := by
  simp [Written.write, hw]

private theorem text_write (w : Written) (text : Text) :
    (w.write writer text).1.text = w.text ++ text := by
  simp [write_eq hw, Written.text]

/-- Evaluating a line succeeds and writes what the evaluation adds. -/
private theorem text_send (line : Text) (w : Written) :
    (send eval writer line w).2 = true ∧
      (send eval writer line w).1.text = w.text ++ evaluated eval line := by
  unfold send evaluated
  dsimp only
  split
  · simp
  · constructor
    · rw [write_eq hw]
    · exact text_write hw w _

private theorem text_present (line : Text) (w : Written) :
    (present eval writer line w).2 = true ∧
      (present eval writer line w).1.text = w.text ++ presented eval line := by
  have hsend := text_send hw eval line (w.write writer line).1
  constructor
  · exact hsend.1
  · rw [present, hsend.2, text_write hw, presented, List.append_assoc]

/-- An unattended demonstration adds the lines of its script. -/
private theorem text_unattended (script : List Text) (w : Written) :
    (unattended eval writer script w).written.text =
      w.text ++ script.flatMap (presented eval) := by
  induction script generalizing w with
  | nil => simp [unattended]
  | cons line script ih =>
    have hline := text_present hw eval line w
    rw [unattended, List.flatMap_cons]
    generalize present eval writer line w = r at hline
    obtain ⟨w', ok⟩ := r
    obtain ⟨rfl, htext⟩ := hline
    simp [ih, htext]

/-- A demonstration that follows the user adds what the lines of the user add. -/
private theorem text_attended (stop : Stop) (s : Stage) (input : List Text) :
    (attended eval writer stop s input).written.text =
      s.written.text ++ added eval s.script input := by
  induction input generalizing s with
  | nil => simp [attended, added]
  | cons line input ih =>
    have hgoes {script : List Text} {r : Written × Bool} {text : Text}
        (hr : r.2 = true ∧ r.1.text = s.written.text ++ text)
        (hhear : s.hear eval writer line = .ofWrite script r) :
        (attended eval writer stop s (line :: input)).written.text =
          s.written.text ++ (text ++ added eval script input) := by
      obtain ⟨w, ok⟩ := r
      obtain ⟨rfl, htext⟩ := hr
      dsimp only at htext
      rw [attended, hhear, Next.ofWrite]
      dsimp only
      rw [ih, htext, List.append_assoc]
    by_cases hblank : line.trim.isEmpty
    · cases hscript : s.script with
      | nil =>
        have hended : s.hear eval writer line = .ended ⟨s.written, none⟩ := by
          simp [Stage.hear, hblank, hscript]
        rw [written_attended_of_ended hended]
        simp [added, hblank]
      | cons next script =>
        rw [added_cons_of_blank hblank]
        apply hgoes (text_present hw eval next s.written)
        simp [Stage.hear, hblank, hscript]
    · by_cases hquit : line.trim = Text.ofString "quit"
      · have hended : s.hear eval writer line = .ended ⟨s.written, none⟩ := by
          simp only [Stage.hear, if_neg hblank, if_pos hquit]
        rw [written_attended_of_ended hended]
        simp only [added, if_neg hblank, if_pos hquit, List.append_nil]
      · have hadded : added eval s.script (line :: input) =
            evaluated eval line ++ added eval s.script input := by
          simp only [added, if_neg hblank, if_neg hquit]
        rw [hadded]
        apply hgoes (text_send hw eval line s.written)
        simp only [Stage.hear, if_neg hblank, if_neg hquit]

/-- What a demonstration shows to a user whose lines fit the buffer. -/
private theorem text_run_some (script : List Text) {input : Input}
    (hfits : ∀ line ∈ input.text.segments, line.fitsLine) :
    (run script eval writer (some input)).written.text =
      script.headD [] ++ added eval script.tail input.text.segments := by
  unfold run
  dsimp only
  rw [text_attended hw eval, Text.lines_of_fitsLine hfits, added_map_dropLastIf, start,
    text_write hw]
  rfl

private theorem text_run_none (script : List Text) :
    (run script eval writer none).written.text =
      script.headD [] ++ script.tail.flatMap (presented eval) := by
  unfold run
  dsimp only
  rw [text_unattended hw eval, start, text_write hw]
  rfl

end Writing

/-! ### Where the script stands -/

/-- The number of blank lines among those of the user. -/
def blankLines (input : List Text) : Nat := input.countP fun line ↦ line.trim.isEmpty

/-- Lines without `quit` that do not run past the end of the script move it on by one line for each
blank one. -/
theorem added_append {script before : List Text}
    (hquit : ∀ line ∈ before, line.trim ≠ Text.ofString "quit")
    (hscript : blankLines before ≤ script.length) (after : List Text) :
    added eval script (before ++ after) =
      added eval script before ++ added eval (script.drop (blankLines before)) after := by
  induction before generalizing script with
  | nil => simp [added, blankLines]
  | cons line before ih =>
    obtain ⟨hline, hrest⟩ := List.forall_mem_cons.mp hquit
    by_cases hblank : line.trim.isEmpty
    · have hcount : blankLines (line :: before) = blankLines before + 1 := by
        simp [blankLines, hblank]
      rw [hcount] at hscript
      cases script with
      | nil => simp at hscript
      | cons next script =>
        have hscript : blankLines before ≤ script.length := by simpa using hscript
        simp [added, hblank, hcount, ih hrest hscript]
    · have hcount : blankLines (line :: before) = blankLines before := by
        simp [blankLines, hblank]
      rw [hcount] at hscript
      simp [added, hblank, hline, hcount, ih hrest hscript]

private theorem added_cons_of_text {line : Text} (htext : line.trim ≠ [])
    (hquit : line.trim ≠ Text.ofString "quit") (script input : List Text) :
    added eval script (line :: input) =
      (if line.trim.isComment then [] else (eval line.trim).line) ++ added eval script input := by
  simp [added, evaluated, htext, hquit]

/-- Enough blank lines show the whole script. -/
private theorem added_of_blank {script input : List Text} (hblank : ∀ line ∈ input, line.trim = [])
    (hlength : script.length ≤ input.length) :
    added eval script input = script.flatMap (presented eval) := by
  induction input generalizing script with
  | nil =>
    have hscript : script = [] := by simpa using hlength
    simp [hscript, added]
  | cons line input ih =>
    obtain ⟨hline, hrest⟩ := List.forall_mem_cons.mp hblank
    cases script with
    | nil => simp [added, hline]
    | cons next script =>
      have hlength : script.length ≤ input.length := by simpa using hlength
      simp [added, hline, ih hrest hlength]

/-! ### The user's own lines -/

/-- A line that the user tries out adds its own result and nothing else, and enough blank lines show
what an unattended demonstration shows. -/
theorem run_insert (script : List Text) (eval : Text → Text) (writer : Writer)
    (hw : ∀ call, writer.accepts call) :
    let output (input : Option Input) := (run script eval writer input).written.text
    (∀ (before after : List Text) (line : Text) (start without whole : Input),
      start.text.segments = before → without.text.segments = before ++ after →
      whole.text.segments = before ++ line :: after →
      (∀ typed ∈ whole.text.segments, typed.fitsLine) →
      line.trim ≠ [] → line.trim ≠ Text.ofString "quit" →
      (∀ typed ∈ before, typed.trim ≠ Text.ofString "quit") →
      blankLines before ≤ script.tail.length →
      ∃ later, output (some without) = output (some start) ++ later ∧
        output (some whole) = output (some start) ++
          (if line.trim.isComment then [] else (eval line.trim).line) ++ later) ∧
    ∀ blank : Input, (∀ typed ∈ blank.text.segments, typed.fitsLine ∧ typed.trim = []) →
      script.tail.length ≤ blank.text.segments.length → output (some blank) = output none := by
  intro output
  constructor
  · intro before after line start without whole hstart hwithout hwhole hfits htext hquit hbefore
      hscript
    have hwholeFits := hfits
    rw [hwhole] at hfits
    have hwithoutFits : ∀ typed ∈ without.text.segments, typed.fitsLine := by
      rw [hwithout]
      intro typed htyped
      apply hfits
      simp only [List.mem_append, List.mem_cons] at htyped ⊢
      tauto
    have hstartFits : ∀ typed ∈ start.text.segments, typed.fitsLine := by
      rw [hstart]
      intro typed htyped
      apply hfits
      simp [htyped]
    refine ⟨added eval (script.tail.drop (blankLines before)) after, ?_, ?_⟩
    · simp only [output]
      rw [text_run_some hw eval script hwithoutFits, text_run_some hw eval script hstartFits,
        hwithout, hstart, added_append hbefore hscript, List.append_assoc]
    · simp only [output]
      rw [text_run_some hw eval script hwholeFits, text_run_some hw eval script hstartFits, hwhole,
        hstart, added_append hbefore hscript, added_cons_of_text htext hquit, List.append_assoc,
        List.append_assoc]
  · intro blank hblank hlength
    simp only [output]
    rw [text_run_some hw eval script fun typed htyped ↦ (hblank typed htyped).1,
      text_run_none hw eval, added_of_blank (fun typed htyped ↦ (hblank typed htyped).2) hlength]

/-- A blank line, a comment, an expression, another blank line and `quit` in the standard
demonstration, with carriage returns; and forty blank lines, more than it has. -/
theorem run_insert_standard :
    let eval (source : Text) : Text := Text.ofString "<" ++ source ++ Text.ofString ">"
    let output (input : Option Input) := (run script eval .reliable input).written.text
    output (some (Text.ofString "\n NB. hm\r\n 1+2\r\n\nquit\n\n")) =
      output (some (Text.ofString "\n NB. hm\r\n")) ++ Text.ofString "<1+2>\n" ++
        Text.ofString "42\n<42>\n" ∧
    output (some (Text.times 40 Text.newline)) = output none := by
  intro eval output
  have hrun := run_insert script eval .reliable fun _ ↦ rfl
  constructor
  · obtain ⟨later, hwithout, hwhole⟩ := hrun.1 [[], Text.ofString " NB. hm\r"]
      [[], Text.ofString "quit", []] (Text.ofString " 1+2\r") (Text.ofString "\n NB. hm\r\n")
      (Text.ofString "\n NB. hm\r\n\nquit\n\n")
      (Text.ofString "\n NB. hm\r\n 1+2\r\n\nquit\n\n") (by decide +kernel) (by decide +kernel)
      (by decide +kernel) (by decide +kernel) (by decide +kernel) (by decide +kernel)
      (by decide +kernel) (by decide +kernel)
    have hlater : output (some (Text.ofString "\n NB. hm\r\n\nquit\n\n")) =
        output (some (Text.ofString "\n NB. hm\r\n")) ++ Text.ofString "42\n<42>\n" := by
      decide +kernel
    rw [List.append_cancel_left (hwithout.symm.trans hlater)] at hwhole
    exact hwhole
  · exact hrun.2 _ (by decide +kernel) (by decide +kernel)

end Ravel.Demo
