import Ravel.Proofs.Lines
import Ravel.Proofs.Observation
import Ravel.Session.Basic

/-!
# Scripts line by line

A script is the fold of its lines: each line runs under the settings that the lines before it left,
up to the first that ends the session or does not fit the buffer. What the script shows is what
these lines show, one after the other, and it succeeds exactly if all of them do and none was too
long (`Settings.runScript_folds_lines`). Whatever follows the last of them is never looked at.
-/

namespace Ravel

/-- The members of a row up to the first that satisfies a condition, that one included. -/
def throughFirst {α : Type} (p : α → Bool) : List α → List α
  | [] => []
  | x :: xs => if p x then [x] else x :: throughFirst p xs

private theorem any_throughFirst {α : Type} (p : α → Bool) (xs : List α) :
    (throughFirst p xs).any p = xs.any p := by
  induction xs with
  | nil => rfl
  | cons x xs ih =>
    rw [throughFirst]
    cases hx : p x <;> simp [hx, ih]

namespace LineEffect

/-- The line ends the session. -/
def quits (e : LineEffect) : Bool :=
  match e.status with
  | .ok status => status.quit
  | .error _ => false

/-- The line succeeded. -/
def succeeds (e : LineEffect) : Bool :=
  match e.status with
  | .ok status => status.ok
  | .error _ => false

end LineEffect

/-! ### The lines of a longer text -/

namespace Text

/-- Lines that have been read stay. -/
private theorem isPrefix_linesLoop (read : List Text) (current : Text) (size : Nat) (s : Text) :
    read.reverse <+: (linesLoop read current size s).lines := by
  induction s generalizing read current size with
  | nil =>
    rw [linesLoop]
    split
    · exact List.prefix_rfl
    · rw [List.reverse_cons]
      exact List.prefix_append _ _
  | cons b s ih =>
    rw [linesLoop]
    split
    · have hlonger : read.reverse <+: (endLine current :: read).reverse := by
        rw [List.reverse_cons]
        exact List.prefix_append _ _
      exact hlonger.trans (ih _ _ _)
    · split
      · exact List.prefix_rfl
      · exact ih _ _ _

/-- Reading a text reads the same lines first if it goes on after a line feed. -/
private theorem linesLoop_isPrefix (read : List Text) (current : Text) (size : Nat) (s t : Text) :
    (linesLoop read current size s).lines <+:
      (linesLoop read current size (s ++ 10 :: t)).lines := by
  induction s generalizing read current size with
  | nil =>
    have hended : (linesLoop read current size []).lines <+:
        (endLine current :: read).reverse := by
      rw [linesLoop, List.reverse_cons]
      split
      · exact List.prefix_append _ _
      · exact ⟨[], by rw [List.append_nil, List.reverse_cons]⟩
    have hnext : linesLoop read current size ([] ++ 10 :: t) =
        linesLoop (endLine current :: read) [] 0 t := by
      rw [List.nil_append, linesLoop, if_pos rfl]
    rw [hnext]
    exact hended.trans (isPrefix_linesLoop _ _ _ t)
  | cons b s ih =>
    rw [List.cons_append, linesLoop, linesLoop]
    split
    · exact ih _ _ _
    · split
      · exact List.prefix_rfl
      · exact ih _ _ _

private theorem lines_isPrefix (s t : Text) : s.lines.lines <+: (lines (s ++ 10 :: t)).lines :=
  linesLoop_isPrefix [] [] 0 s t

/-- Reading stops at a line that is too long, whatever follows. -/
private theorem linesLoop_append_of_tooLong {read : List Text} {current : Text} {size : Nat}
    {s : Text} (h : (linesLoop read current size s).tooLong) (t : Text) :
    linesLoop read current size (s ++ t) = linesLoop read current size s := by
  induction s generalizing read current size with
  | nil => cases h
  | cons b s ih =>
    rw [linesLoop] at h ⊢
    rw [List.cons_append, linesLoop]
    split
    · next hb =>
      rw [if_pos hb] at h
      exact ih h
    · next hb =>
      rw [if_neg hb] at h
      split
      · rfl
      · next hsize =>
        rw [if_neg hsize] at h
        exact ih h

private theorem lines_append_of_tooLong {s : Text} (h : s.lines.tooLong) (t : Text) :
    lines (s ++ t) = s.lines :=
  linesLoop_append_of_tooLong h t

end Text

namespace Emission

private theorem outText_flatMap {α : Type} (emissions : α → List Emission) (xs : List α) :
    outText (xs.flatMap emissions) = xs.flatMap fun x ↦ outText (emissions x) :=
  List.flatMap_assoc

private theorem errText_flatMap {α : Type} (report : Text) (emissions : α → List Emission)
    (xs : List α) :
    errText report (xs.flatMap emissions) = xs.flatMap fun x ↦ errText report (emissions x) :=
  List.flatMap_assoc

end Emission

namespace Settings

open Emission

variable {s : Settings}

/-- The effects of lines that are run one after the other, each under the settings that the one
before it left. -/
def effects (s : Settings) : List Text → List LineEffect
  | [] => []
  | line :: lines => s.runLine line none :: (s.runLine line none).settings.effects lines

/-- The settings that some effects leave. -/
def after (s : Settings) (effects : List LineEffect) : Settings :=
  effects.foldl (fun _ effect ↦ effect.settings) s

/-- The line of the log for a line that does not fit the buffer. -/
def tooLongLog : Emission := .err (logLine Demo.lineTooLongMessage)

/-- Running lines is running each of them up to the first that ends the session. A line that is too
long counts only if none does. -/
private theorem runLines_eq {tooLong ok : Bool} {shown : List Emission} {lines : List Text}
    (hf : ∀ f, (s.runLines tooLong ok shown lines).status ≠ .error f) :
    let ran := throughFirst LineEffect.quits (s.effects lines)
    let stopped := tooLong && !ran.any LineEffect.quits
    s.runLines tooLong ok shown lines =
      ⟨s.after ran,
        shown.reverse ++ ran.flatMap LineEffect.emissions ++ if stopped then [tooLongLog] else [],
        .ok (ok && ran.all LineEffect.succeeds && !stopped)⟩ := by
  induction lines generalizing s ok shown with
  | nil => cases tooLong <;> simp [runLines, effects, throughFirst, after, tooLongLog]
  | cons line lines ih =>
    rw [runLines] at hf ⊢
    rw [effects, throughFirst]
    cases hstatus : (s.runLine line none).status with
    | error f =>
      simp only [hstatus] at hf
      exact absurd rfl (hf f)
    | ok status =>
      have hquits : (s.runLine line none).quits = status.quit := by
        rw [LineEffect.quits, hstatus]
      have hsucceeds : (s.runLine line none).succeeds = status.ok := by
        rw [LineEffect.succeeds, hstatus]
      simp only [hstatus] at hf
      dsimp only
      rw [hquits]
      cases hq : status.quit with
      | true => simp [after, hquits, hsucceeds, hq]
      | false =>
        rw [hq, if_neg Bool.false_ne_true] at hf
        rw [if_neg Bool.false_ne_true, if_neg Bool.false_ne_true, ih hf]
        simp [after, hquits, hsucceeds, hq, Bool.and_assoc]

/-- Lines after one that ends the session have no effect. -/
private theorem runLines_append_of_quits {tooLong tooLong' ok : Bool} {shown : List Emission}
    {lines : List Text} (hq : (s.effects lines).any LineEffect.quits) (more : List Text) :
    s.runLines tooLong ok shown (lines ++ more) = s.runLines tooLong' ok shown lines := by
  induction lines generalizing s ok shown with
  | nil => cases hq
  | cons line lines ih =>
    rw [List.cons_append, runLines, runLines]
    cases hstatus : (s.runLine line none).status with
    | error f => rfl
    | ok status =>
      dsimp only
      split
      · rfl
      · next hgoes =>
        have hquits : (s.runLine line none).quits = false := by
          rw [LineEffect.quits, hstatus]
          exact Bool.eq_false_iff.mpr hgoes
        rw [effects, List.any_cons, hquits, Bool.false_or] at hq
        exact ih hq

/-- A script runs its lines in order, each under the settings that those before it left, up to one
that ends the session or is too long. -/
theorem runScript_folds_lines {script : Text}
    (hf : ∀ f, (s.runScript script).status ≠ .error f) :
    let lines := (script.segments.takeWhile Text.fitsLine).map (Text.dropLastIf 13)
    let tooLong := !script.segments.all Text.fitsLine
    let ran := throughFirst LineEffect.quits (s.effects lines)
    let stopped := tooLong && !ran.any LineEffect.quits
    let effect := s.runScript script
    effect.settings = s.after ran ∧
    effect.emissions =
      ran.flatMap LineEffect.emissions ++ (if stopped then [tooLongLog] else []) ∧
    outText effect.emissions = ran.flatMap (fun e ↦ outText e.emissions) ∧
    (∀ report, errText report effect.emissions =
      ran.flatMap (fun e ↦ errText report e.emissions) ++
        if stopped then logLine Demo.lineTooLongMessage else []) ∧
    effect.status = .ok (ran.all LineEffect.succeeds && !stopped) ∧
    (ran.any LineEffect.quits → ∀ more, s.runScript (script ++ 10 :: more) = effect) ∧
    (tooLong → ∀ more, s.runScript (script ++ more) = effect) := by
  intro lines tooLong ran stopped effect
  have hlines : script.lines = ⟨lines, tooLong⟩ := Text.lines_eq script
  have hrun : effect = s.runLines tooLong true [] lines := by
    show s.runScript script = _
    rw [runScript, hlines]
  have heffect : effect = ⟨s.after ran,
      ran.flatMap LineEffect.emissions ++ (if stopped then [tooLongLog] else []),
      .ok (ran.all LineEffect.succeeds && !stopped)⟩ := by
    rw [hrun, runLines_eq fun f ↦ hrun ▸ hf f]
    rfl
  refine ⟨by rw [heffect], by rw [heffect], ?_, fun report ↦ ?_, by rw [heffect], ?_, ?_⟩
  · rw [heffect, outText_append, outText_flatMap]
    cases stopped <;> simp [outText, tooLongLog, toOut]
  · rw [heffect, errText_append, errText_flatMap]
    cases stopped <;> simp [errText, tooLongLog, toErr]
  · intro hquits more
    obtain ⟨later, hlater⟩ := Text.lines_isPrefix script more
    rw [any_throughFirst] at hquits
    rw [hrun, runScript, ← hlater, hlines]
    exact runLines_append_of_quits hquits later
  · intro hlong more
    have htooLong : script.lines.tooLong = true := by rw [hlines]; exact hlong
    show s.runScript (script ++ more) = s.runScript script
    rw [runScript, Text.lines_append_of_tooLong htooLong, runScript]

/-- The limit that the first line sets is met by the second, and the line after `)quit` is not
run. -/
theorem runScript_folds_lines_quit :
    let script := Text.ofString ")maxelements 3\r\n~5\n1+1\n)quit\n2+2"
    let effect := ({} : Settings).runScript script
    effect.settings.elementLimit = 3 ∧
    outText effect.emissions = Text.ofString "2\n" ∧
    errText [] effect.emissions = Text.ofString
      "Error: eval error: size limit exceeded: iota of 5 elements exceeds limit of 3\n" ∧
    effect.status = .ok false ∧
    ∀ more, ({} : Settings).runScript (script ++ 10 :: more) = effect := by
  intro script effect
  have hstatus : effect.status = .ok false := by decide +kernel
  obtain ⟨hsettings, -, hout, herr, -, hquit, -⟩ :=
    @runScript_folds_lines {} script fun f hf ↦ by
      rw [hstatus] at hf
      cases hf
  refine ⟨?_, hout.trans (by decide +kernel), (herr []).trans (by decide +kernel), hstatus,
    hquit (by decide +kernel)⟩
  rw [hsettings]
  decide +kernel

end Settings

end Ravel
