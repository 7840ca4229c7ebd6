import Ravel.Proofs.Lines
import Ravel.Proofs.Observation
import Ravel.Session.Basic
import Ravel.Worksheet

/-!
# Three ways through a worksheet

A worksheet without commands is evaluated as a whole, stepped through line by line, or run as a
script. Each of the three comes to the answers to the lines that are neither blank nor comments
(`Worksheet.answers`), though they cut the text into lines by different rules: what the rules differ
in is an empty line at the end and carriage returns, and neither has an answer. Hence the three show
the same results and the same errors (`Worksheet.play_run_agree`).
-/

namespace Ravel

/-- What is shown of an answer: a result goes to the output, an error to the error output. -/
def Answer.emission (a : Answer) : Emission := if a.ok then .out a.text.line else .err a.text.line

namespace Worksheet

open Emission

/-! ### The answers to lines -/

private theorem answers_append (lines lines' : List Text) :
    answers (lines ++ lines') = answers lines ++ answers lines' := by
  simp [answers]

private theorem answers_cons (line : Text) (lines : List Text) :
    answers (line :: lines) = answers [line] ++ answers lines :=
  answers_append [line] lines

private theorem answers_singleton (line : Text) :
    answers [line] =
      if line.trim.isEmpty || line.trim.isComment then [] else [evaluate line.trim] := by
  unfold answers
  rw [List.map_singleton, List.filter_singleton]
  cases line.trim.isEmpty || line.trim.isComment <;> rfl

private theorem answers_map_dropLastIf (lines : List Text) :
    answers (lines.map (Text.dropLastIf 13)) = answers lines := by
  have htrim : Text.trim ∘ Text.dropLastIf 13 = Text.trim := funext Text.trim_dropLastIf
  rw [answers, List.map_map, htrim, answers]

/-- An empty piece after the last line feed has no answer. -/
private theorem answers_segments (sheet : Text) :
    answers sheet.segments = answers (sheet.splitOn 10) := by
  unfold Text.segments
  dsimp only
  split
  · next h =>
    obtain ⟨lines, hlines⟩ := List.getLast?_eq_some_iff.mp h
    rw [hlines, List.dropLast_concat, answers_append]
    exact (List.append_nil _).symm
  · rfl

/-! ### Outcomes -/

/-- The outcome that consists of some answers. -/
def Outcome.ofAnswers (as : List Answer) : Outcome :=
  let errors := (as.filter (!·.ok)).map Answer.text
  ⟨(as.filter (·.ok)).flatMap fun a => a.text.line,
    if errors.isEmpty then none else some (Text.join Text.newline errors)⟩

private theorem eval_eq (sheet : Text) : eval sheet = .ofAnswers (answers (sheet.splitOn 10)) := rfl

/-- The errors of an outcome as lines. -/
def Outcome.errorLines (o : Outcome) : Text :=
  match o.failed with
  | none => []
  | some errors => errors.line

/-- Texts with line feeds between them, and one at the end, are lines. -/
private theorem line_join {texts : List Text} (h : texts ≠ []) :
    (Text.join Text.newline texts).line = texts.flatMap Text.line := by
  induction texts with
  | nil => exact absurd rfl h
  | cons text texts ih =>
    cases texts with
    | nil => simp [Text.join, Text.line]
    | cons text' texts =>
      rw [List.flatMap_cons, ← ih (List.cons_ne_nil _ _)]
      simp [Text.join, Text.line]

private theorem errorLines_ofAnswers (as : List Answer) :
    (Outcome.ofAnswers as).errorLines = (as.filter (!·.ok)).flatMap fun a ↦ a.text.line := by
  rw [← List.flatMap_map Answer.text Text.line]
  unfold Outcome.errorLines Outcome.ofAnswers
  dsimp only
  by_cases h : (as.filter (!·.ok)).map Answer.text = []
  · simp only [h, List.isEmpty_nil, if_true, List.flatMap_nil]
  · simp only [List.isEmpty_iff, if_neg h]
    exact line_join h

private theorem isNone_failed_ofAnswers (as : List Answer) :
    (Outcome.ofAnswers as).failed.isNone = as.all (·.ok) := by
  induction as with
  | nil => rfl
  | cons a as ih =>
    rw [List.all_cons, ← ih]
    cases h : a.ok <;> simp [Outcome.ofAnswers, h]

/-! ### Stepping through -/

/-- All steps of a player, and why there are no more. -/
def playThrough (p : Player) : List Outcome × Stop :=
  match _h : next p with
  | .error stop => ([], stop)
  | .ok (outcome, p') =>
    let (outcomes, stop) := playThrough p'
    (outcome :: outcomes, stop)
termination_by p.lines.length
decreasing_by
  unfold next at _h
  split at _h
  · cases _h
  · next hlines =>
    cases _h
    simp [hlines]

private theorem playThrough_eq (p : Player) :
    playThrough p = (p.lines.map eval, if p.tooLong then .lineTooLong else .finished) := by
  obtain ⟨lines, tooLong⟩ := p
  induction lines with
  | nil => simp [playThrough, next]
  | cons line lines ih =>
    rw [playThrough]
    simp [next, ih]

private theorem eval_of_not_mem {line : Text} (h : 10 ∉ line) :
    eval line = .ofAnswers (answers [line]) := by
  rw [eval_eq, Text.splitOn_of_not_mem h]

/-- The outcomes of the lines together have the results and the errors of all the answers. -/
private theorem flatMap_eval {lines : List Text} (h : ∀ line ∈ lines, 10 ∉ line) :
    (lines.map eval).flatMap Outcome.out = (Outcome.ofAnswers (answers lines)).out ∧
      (lines.map eval).flatMap Outcome.errorLines =
        (Outcome.ofAnswers (answers lines)).errorLines := by
  induction lines with
  | nil => exact ⟨rfl, rfl⟩
  | cons line lines ih =>
    obtain ⟨hline, hlines⟩ := List.forall_mem_cons.mp h
    obtain ⟨hout, herr⟩ := ih hlines
    rw [answers_cons, List.map_cons, List.flatMap_cons, List.flatMap_cons, hout, herr,
      eval_of_not_mem hline, errorLines_ofAnswers, errorLines_ofAnswers, errorLines_ofAnswers]
    simp [Outcome.ofAnswers]

end Worksheet

/-! ### Running as a script -/

/-- A line that a session takes for a command. -/
def Text.IsCommand (line : Text) : Prop :=
  line.trim.head? = some 41 ∨ line.trim = Text.ofString "help"

instance (line : Text) : Decidable line.IsCommand := inferInstanceAs (Decidable (_ ∨ _))

/-- Any other line is an expression, if it is not blank and no comment. -/
private theorem Line.read_of_not_isCommand {line : Text} (h : ¬ line.IsCommand) :
    Line.read line =
      if line.trim.isEmpty || line.trim.isComment then .nothing else .expression line.trim := by
  obtain ⟨hparen, hhelp⟩ := not_or.mp h
  unfold Line.read
  dsimp only
  rw [if_neg hhelp]
  split
  · rfl
  · split
    · next hline => exact absurd (congrArg List.head? hline) hparen
    · rfl

namespace Settings

open Emission Worksheet

variable {s : Settings}

/-- Settings with the default limits and no flag on. -/
structure Quiet (s : Settings) : Prop where
  limits_eq : s.limits = ({} : Settings).limits
  debug_eq : ∀ flag, s.debug flag = false

private theorem Quiet.answer_eq (h : s.Quiet) (source : Text) :
    s.answer source = (.ok (evaluate source), []) := by
  refine Prod.ext ?_ ?_
  · rw [answer_fst, run_result_congr h.limits_eq, h.debug_eq, evaluate, answer_fst]
    cases Answer.ofResult (({} : Settings).run source).result <;> rfl
  · rw [answer_snd, emissions_run_of_off fun flag _ ↦ h.debug_eq flag]

/-- A line that is no command shows the answer to it. -/
private theorem Quiet.runLine_eq (h : s.Quiet) {line : Text} (hline : ¬ line.IsCommand)
    (input : Option Demo.Input) :
    s.runLine line input =
      ⟨s, (answers [line]).map Answer.emission, .ok ⟨(answers [line]).all (·.ok), false⟩⟩ := by
  rw [runLine, Line.read_of_not_isCommand hline, answers_singleton]
  by_cases hskip : line.trim.isEmpty || line.trim.isComment
  · rw [if_pos hskip, if_pos hskip]
    rfl
  · rw [if_neg hskip, if_neg hskip]
    dsimp only
    rw [runExpression, h.answer_eq]
    dsimp only
    cases hok : (evaluate line.trim).ok <;> simp [Answer.emission, hok]

/-- Lines that are no commands show the answers to them. -/
private theorem Quiet.runLines_eq (h : s.Quiet) {lines : List Text}
    (hlines : ∀ line ∈ lines, ¬ line.IsCommand) (ok : Bool) (shown : List Emission) :
    s.runLines false ok shown lines =
      ⟨s, shown.reverse ++ (answers lines).map Answer.emission,
        .ok (ok && (answers lines).all (·.ok))⟩ := by
  induction lines generalizing ok shown with
  | nil => simp [runLines, answers]
  | cons line lines ih =>
    obtain ⟨hline, hrest⟩ := List.forall_mem_cons.mp hlines
    rw [runLines, h.runLine_eq hline]
    dsimp only
    rw [if_neg Bool.false_ne_true, ih hrest, answers_cons line lines]
    simp [Bool.and_assoc]

end Settings

namespace Worksheet

open Emission

private theorem outText_map_emission (as : List Answer) :
    outText (as.map Answer.emission) = (Outcome.ofAnswers as).out := by
  induction as with
  | nil => rfl
  | cons a as ih =>
    rw [List.map_cons, outText, List.flatMap_cons, ← outText, ih]
    cases h : a.ok <;> simp [Answer.emission, Outcome.ofAnswers, h, toOut]

private theorem errText_map_emission (report : Text) (as : List Answer) :
    errText report (as.map Answer.emission) = (Outcome.ofAnswers as).errorLines := by
  rw [errorLines_ofAnswers]
  induction as with
  | nil => rfl
  | cons a as ih =>
    rw [List.map_cons, errText, List.flatMap_cons, ← errText, ih]
    cases h : a.ok <;> simp [Answer.emission, h, toErr]

/-! ### The three ways -/

/-- A worksheet without commands shows the same results and errors evaluated as a whole, stepped
through, or run as a script. -/
theorem play_run_agree (sheet prompt history : Text)
    (hfit : ∀ line ∈ sheet.splitOn 10, line.length < Text.lineBuffer)
    (hplain : ∀ line ∈ sheet.splitOn 10, ¬ line.IsCommand) :
    let whole := eval sheet
    let steps := playThrough (play sheet)
    let script := ({ prompt, history } : Settings).runScript sheet
    steps.2 = .finished ∧
    steps.1.flatMap Outcome.out = whole.out ∧
    outText script.emissions = whole.out ∧
    steps.1.flatMap Outcome.errorLines = whole.errorLines ∧
    (∀ report, errText report script.emissions = whole.errorLines) ∧
    script.status = .ok whole.failed.isNone := by
  have hlines := Text.lines_of_fits hfit
  have hanswers : answers sheet.lines.lines = answers (sheet.splitOn 10) := by
    rw [hlines, answers_map_dropLastIf, answers_segments]
  have hcommand : ∀ line ∈ sheet.lines.lines, ¬ line.IsCommand := by
    intro line hline
    obtain ⟨piece, hpiece, rfl⟩ := Text.exists_of_mem_lines hline
    rw [Text.IsCommand, Text.trim_dropLastIf]
    exact hplain piece hpiece
  have hscript : ({ prompt, history } : Settings).runScript sheet =
      ⟨{ prompt, history }, (answers (sheet.splitOn 10)).map Answer.emission,
        .ok ((answers (sheet.splitOn 10)).all (·.ok))⟩ := by
    have hquiet : ({ prompt, history } : Settings).Quiet := ⟨rfl, fun _ ↦ rfl⟩
    have htooLong : sheet.lines.tooLong = false := by rw [hlines]
    rw [Settings.runScript, htooLong, hquiet.runLines_eq hcommand, hanswers]
    rfl
  have hsteps : playThrough (play sheet) = (sheet.lines.lines.map eval, .finished) := by
    rw [playThrough_eq, play]
    simp [hlines]
  obtain ⟨hout, herr⟩ := flatMap_eval (fun _ ↦ Text.not_mem_of_mem_lines (s := sheet))
  rw [hanswers] at hout herr
  dsimp only
  rw [hscript, hsteps, eval_eq]
  exact ⟨rfl, hout, outText_map_emission _, herr, fun report ↦ errText_map_emission report _,
    congrArg Except.ok (isNone_failed_ofAnswers _).symm⟩

/-- A worksheet with carriage returns, a comment after other white space, a blank line, two errors
and no line feed at its end. -/
theorem play_run_agree_crlf :
    let sheet := Text.ofString "1+2\r\n\u00a0NB. a comment\r\n\n1+\n1 2+3 4 5\n~3"
    let results := Text.ofString "3\n0 1 2\n"
    let errors := Text.ofString "Error: parse error: unexpected end of input\n" ++
      Text.ofString "Error: eval error: shape mismatch: +: shapes [2] and [3] do not conform\n"
    let steps := playThrough (play sheet)
    let script := ({} : Settings).runScript sheet
    steps.2 = .finished ∧ steps.1.flatMap Outcome.out = results ∧
    outText script.emissions = results ∧ steps.1.flatMap Outcome.errorLines = errors ∧
    errText [] script.emissions = errors ∧ script.status = .ok false := by
  intro sheet results errors
  have hout : (eval sheet).out = results := by decide +kernel
  have herrors : (eval sheet).errorLines = errors := by decide +kernel
  have hfailed : (eval sheet).failed.isNone = false := by decide +kernel
  obtain ⟨hstop, hplay, hrun, herr, hreport, hstatus⟩ :=
    play_run_agree sheet [] [] (by decide +kernel) (by decide +kernel)
  exact ⟨hstop, hplay.trans hout, hrun.trans hout, herr.trans herrors,
    (hreport []).trans herrors, hstatus.trans (congrArg _ hfailed)⟩

end Worksheet

end Ravel
