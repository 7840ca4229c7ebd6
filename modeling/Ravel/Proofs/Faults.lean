import Ravel.Proofs.Display
import Ravel.Proofs.Run

/-!
# Faults of runs

A selection asks for storage for as many elements as it has positions, times the extent of an item.
A noun without elements may have items of any extent, so that this count can wrap at 64 bits and
come out negative. The limit of elements does not refuse a negative count, and storage of a negative
length is a fault. No other fault is ever met: a run ends in one exactly if it comes to such a
selection (`Settings.run_eq_fault_iff_overflows`).
-/

namespace Ravel

namespace Settings

variable {s : Settings} {source : Text}

/-- The evaluation of a source comes to a selection whose count overflows. -/
def Overflows (s : Settings) (source : Text) : Prop :=
  ∃ e u v, s.Reads source e ∧ e.Applies s.maxElements (some u) 123 v ∧ u.SelectOverflows v

/-- While the limit of elements and the source are small, a run ends in a fault exactly if it comes
to a selection whose count overflows. -/
theorem run_eq_fault_iff_overflows (hl : s.maxElements.toInt ≤ 0x80000000)
    (hs : source.length < 0x80000000) {f : Fault} :
    (s.run source).result = .error (.fault f) ↔ f = .capacityOutOfRange ∧ s.Overflows source := by
  have hf := fits_elementBound hl hs
  have hsound {e : Expr} (he : s.Reads source e) := he.sound hf (Nat.le_max_right _ _)
  rw [run_eq_fault_iff]
  constructor
  · rintro ⟨e, he, hv⟩
    obtain ⟨rfl, u, v, ha, ho⟩ := (Expr.value_eq_fault_iff_overflows hf (hsound he)).mp hv
    exact ⟨rfl, e, u, v, he, ha, ho⟩
  · rintro ⟨rfl, e, u, v, he, ha, ho⟩
    exact ⟨e, he, (Expr.value_eq_fault_iff_overflows hf (hsound he)).mpr ⟨rfl, u, v, ha, ho⟩⟩

end Settings

/-! ### The answer to a fault -/

/-- The text that the answer to a fault starts with. -/
def internalError : Text := Text.ofString "Error: internal error"

private theorem Text.Figures.not_internalError {text : Text} (h : text.Figures) :
    ¬ internalError <+: text := by
  intro hp
  have he : Text.ofString "Error: " <+: internalError := ⟨Text.ofString "internal error", rfl⟩
  exact h.not_error_isPrefix (he.trans hp)

/-- The message of a stage does not start as the answer to a fault. -/
private theorem StageError.not_internalError (e : StageError) :
    ¬ internalError <+: renderError e.message := by
  have hsplit : internalError = Text.ofString "Error: " ++ Text.ofString "internal error" := rfl
  rw [hsplit, renderError, List.prefix_append_right_inj]
  rintro ⟨rest, hr⟩
  cases e with
  | tokenize e =>
    have hhead : some (105 : UInt8) = some 116 := congrArg List.head? hr
    cases hhead
  | parse e =>
    have hhead : some (105 : UInt8) = some 112 := congrArg List.head? hr
    cases hhead
  | semantic e =>
    have hhead : some (105 : UInt8) = some 115 := congrArg List.head? hr
    cases hhead
  | eval e =>
    have hhead : some (105 : UInt8) = some 101 := congrArg List.head? hr
    cases hhead

private theorem Fault.internalError_isPrefix (f : Fault) : internalError <+: f.answer.text :=
  ⟨Text.ofString ": " ++ f.message, rfl⟩

/-- The default settings answer with an internal error exactly if the run ends in a fault. -/
private theorem internalError_isPrefix_evaluate_iff {source : Text}
    (hs : source.length < 0x80000000) :
    internalError <+: (evaluate source).text ↔
      ∃ f, (({} : Settings).run source).result = .error (.fault f) := by
  unfold evaluate Settings.answer
  dsimp only
  cases hr : (({} : Settings).run source).result with
  | ok a =>
    have ha : a.Sound _ := (Settings.Makes.result hr).sound
      (Settings.fits_elementBound (by decide) hs) (Nat.le_max_right _ _)
    obtain ⟨text, hd, hf⟩ := ha.display
    have hanswer : Answer.ofResult (.ok a) = .ok ⟨text, true⟩ := by
      rw [Answer.ofResult, hd]
      rfl
    rw [hanswer]
    exact ⟨fun hp ↦ absurd hp hf.not_internalError, nofun⟩
  | error x =>
    cases x with
    | error e => exact ⟨fun hp ↦ absurd hp e.not_internalError, nofun⟩
    | fault f => exact ⟨fun _ ↦ ⟨f, rfl⟩, fun _ ↦ f.internalError_isPrefix⟩

/-- Under the default settings the run of a source ends in a fault, and the answer to the source is
an internal error, exactly if the evaluation comes to a selection whose count overflows. -/
theorem fault_iff_overflows {source : Text} (hs : source.length < 0x80000000) :
    ((∃ f, (({} : Settings).run source).result = .error (.fault f)) ↔
      ({} : Settings).Overflows source) ∧
    (Text.ofString "Error: internal error" <+: (evaluate source).text ↔
      ({} : Settings).Overflows source) := by
  have hrun : (∃ f, (({} : Settings).run source).result = .error (.fault f)) ↔
      ({} : Settings).Overflows source := by
    constructor
    · rintro ⟨f, hf⟩
      exact ((Settings.run_eq_fault_iff_overflows (by decide) hs).mp hf).2
    · intro ho
      exact ⟨_, (Settings.run_eq_fault_iff_overflows (by decide) hs).mpr ⟨rfl, ho⟩⟩
  exact ⟨hrun, (internalError_isPrefix_evaluate_iff hs).trans hrun⟩

/-- An item of a noun of shape 0 4611686018427387904 2 has an extent of 2^63. -/
theorem overflows_item_of_empty :
    ({} : Settings).Overflows (Text.ofString "0\x7b(0 4611686018427387904 2#1)") :=
  (fault_iff_overflows (by decide)).1.mp ⟨.capacityOutOfRange, rfl⟩

/-- Selecting an item of a noun of shape 0 4611686018427387904 2 is an internal error. -/
theorem internalError_item_of_empty :
    (Text.ofString "0\x7b(0 4611686018427387904 2#1)").length < 0x80000000 ∧
    (({} : Settings).run (Text.ofString "0\x7b(0 4611686018427387904 2#1)")).result =
      .error (.fault .capacityOutOfRange) ∧
    Text.ofString "Error: internal error" <+:
      (evaluate (Text.ofString "0\x7b(0 4611686018427387904 2#1)")).text :=
  ⟨by decide, rfl, Text.ofString ": runtime error: makeslice: cap out of range", rfl⟩

end Ravel
