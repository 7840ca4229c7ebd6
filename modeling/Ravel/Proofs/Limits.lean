import Ravel.Proofs.Run

/-!
# Raising the limits

A larger limit of elements keeps every value (`Expr.value_of_le`), and a larger limit of depth keeps
every source readable while the guard of the parser, twice the limit and two, is a 64-bit integer.
From there on the guard wraps to a number that is not positive, and no source is read at all. A run
that gives a noun therefore gives it under larger limits exactly if their guard does not wrap
(`Settings.run_eq_ok_iff_of_le`).
-/

namespace Ravel

section Elements

variable {limit limit' : Int64}

/-- A count within a limit is within a larger one. -/
private theorem checkCount_of_le (hl : limit ≤ limit') {verb : Text} {count : Int64}
    (h : checkCount limit verb count = .ok ()) : checkCount limit' verb count = .ok () := by
  unfold checkCount at h ⊢
  split at h
  · cases h
  · next hc =>
    rw [Int64.lt_iff_toInt_lt] at hc
    rw [Int64.le_iff_toInt_le] at hl
    rw [if_neg]
    rw [Int64.lt_iff_toInt_lt]
    omega

namespace Noun

/-- A larger limit keeps the result of iota. -/
private theorem iota_of_le (hl : limit ≤ limit') {a b : Noun} (h : a.iota limit = .ok b) :
    a.iota limit' = .ok b := by
  unfold iota at h ⊢
  split at h
  · cases h
  · next hs =>
    rw [if_neg hs]
    cases he : a.element 0 with
    | error f => rw [he] at h; cases h
    | ok n =>
      rw [he] at h
      dsimp only at h ⊢
      split at h
      · cases h
      · next hn =>
        rw [if_neg hn]
        cases hc : checkCount limit MonadicForm.iota.name n with
        | error e => rw [hc] at h; cases h
        | ok u =>
          rw [hc] at h
          rw [checkCount_of_le hl hc]
          exact h

/-- No limit but a negative one refuses the vector of no numbers. -/
theorem iota_zero (h : 0 ≤ limit.toInt) : (scalar 0).iota limit = .ok (vector #[]) := by
  have hle : 0 ≤ limit := by
    rw [Int64.le_iff_toInt_le, Int64.toInt_zero]
    exact h
  exact iota_of_le hle (by with_unfolding_all rfl)

/-- A larger limit keeps the count of a shape. -/
private theorem countWithin_of_le (h0 : 0 < limit.toInt) (hl : limit ≤ limit') {shape : List Int64}
    (hs : ∀ d ∈ shape, 0 < d.toInt) {n : Int64} (h : countWithin limit 1 shape = some n) :
    countWithin limit' 1 shape = some n := by
  rw [Int64.le_iff_toInt_le] at hl
  have h1 : (1 : Int64).toInt = 1 := Int64.toInt_one
  rw [countWithin_eq hs (by omega) (by omega)] at h ⊢
  split at h
  · next hc => rw [if_pos (by omega), h]
  · cases h

/-- A larger limit keeps the result of a reshape. -/
theorem reshape_of_le (h0 : 0 < limit.toInt) (hl : limit ≤ limit') {u v b : Noun}
    (h : u.reshape limit v = .ok b) : u.reshape limit' v = .ok b := by
  unfold reshape at h ⊢
  split at h
  · cases h
  · next hr =>
    rw [if_neg hr]
    dsimp only at h ⊢
    cases hf : u.data.toList.find? (· < 0) with
    | some n => rw [hf] at h; cases h
    | none =>
      rw [hf] at h
      dsimp only at h ⊢
      by_cases hz : u.data.toList.contains 0
      · rw [if_pos hz] at h ⊢
        exact h
      · have hp : ∀ d ∈ u.data.toList, 0 < d.toInt :=
          axes_pos_of_not_contains (find?_negative_eq_none_iff.mp hf) hz
        rw [if_neg hz] at h ⊢
        cases hc : countWithin limit 1 u.data.toList with
        | none => rw [hc] at h; cases h
        | some n =>
          rw [hc] at h
          rw [countWithin_of_le h0 hl hp hc]
          exact h

/-- A larger limit keeps the result of a selection. -/
private theorem select_of_le (hl : limit ≤ limit') {u v b : Noun} (h : u.select limit v = .ok b) :
    u.select limit' v = .ok b := by
  unfold select at h ⊢
  dsimp only at h ⊢
  cases hc : checkCount limit DyadicForm.from.name (Int64.ofNat u.size * product v.itemShape) with
  | error e => rw [hc] at h; cases h
  | ok x =>
    rw [hc] at h
    rw [checkCount_of_le hl hc]
    exact h

/-- A larger limit keeps the result of appending. -/
private theorem append_of_le (hl : limit ≤ limit') {u v b : Noun} (h : u.append limit v = .ok b) :
    u.append limit' v = .ok b := by
  unfold append at h ⊢
  cases hs : appendShape u v with
  | error e => rw [hs] at h; cases h
  | ok shape =>
    rw [hs] at h
    dsimp only at h ⊢
    cases hc : checkCount limit DyadicForm.append.name
        (Int64.ofNat u.size + Int64.ofNat v.size) with
    | error e => rw [hc] at h; cases h
    | ok x =>
      rw [hc] at h
      rw [checkCount_of_le hl hc]
      exact h

end Noun

private theorem MonadicForm.apply_of_le (hl : limit ≤ limit') {form : MonadicForm} {a b : Noun}
    (h : form.apply limit a = .ok b) : form.apply limit' a = .ok b := by
  cases form with
  | iota => exact Noun.iota_of_le hl h
  | identity => exact h
  | tally => exact h
  | ravel => exact h
  | box => exact h

/-- A larger limit keeps the result of a dyadic verb. -/
private theorem DyadicForm.apply_of_le (h0 : 0 < limit.toInt) (hl : limit ≤ limit')
    {form : DyadicForm}
    {u v b : Noun} (h : form.apply limit u v = .ok b) : form.apply limit' u v = .ok b := by
  cases form with
  | reshape => exact Noun.reshape_of_le h0 hl h
  | «from» => exact Noun.select_of_le hl h
  | append => exact Noun.append_of_le hl h
  | add => exact h
  | find => exact h
  | lessThan => exact h

/-- A larger limit keeps the result of a verb. -/
private theorem Verb.apply_of_le (h0 : 0 < limit.toInt) (hl : limit ≤ limit') {left : Option Noun}
    {mark : UInt8} {right b : Noun} (h : Verb.apply limit left mark right = .ok b) :
    Verb.apply limit' left mark right = .ok b := by
  unfold Verb.apply at h ⊢
  cases left with
  | none =>
    dsimp only at h ⊢
    cases hm : Verb.monadic? mark with
    | none => rw [hm] at h; cases h
    | some form =>
      rw [hm] at h
      dsimp only at h ⊢
      rw [mapError_eq_ok_iff] at h ⊢
      exact MonadicForm.apply_of_le hl h
  | some u =>
    dsimp only at h ⊢
    cases hm : Verb.dyadic? mark with
    | none => rw [hm] at h; cases h
    | some form =>
      rw [hm] at h
      dsimp only at h ⊢
      rw [mapError_eq_ok_iff] at h ⊢
      exact DyadicForm.apply_of_le h0 hl h

/-- A larger limit keeps the value of an expression. -/
theorem Expr.value_of_le (h0 : 0 < limit.toInt) (hl : limit ≤ limit') {e : Expr} {a : Noun}
    (h : e.value limit = .ok a) : e.value limit' = .ok a := by
  induction e generalizing a with
  | noun b => exact h
  | monad mark right ih =>
    rw [value] at h ⊢
    cases hr : right.value limit with
    | error x => rw [hr] at h; cases h
    | ok b =>
      rw [hr] at h
      rw [ih hr]
      exact Verb.apply_of_le h0 hl h
  | dyad left mark right ihl ihr =>
    rw [value] at h ⊢
    cases hr : right.value limit with
    | error x => rw [hr] at h; cases h
    | ok b =>
      cases hx : left.value limit with
      | error x => rw [hr, hx] at h; cases h
      | ok c =>
        rw [hr, hx] at h
        rw [ihr hr, ihl hx]
        exact Verb.apply_of_le h0 hl h

end Elements

namespace Settings

variable {s s' : Settings} {source : Text} {e : Expr} {a : Noun}

/-- Beyond the 64-bit integers the guard of the parser wraps to a number that is not positive. -/
private theorem guard_nonpos {limit : Int64} (h : 0x8000000000000000 ≤ 2 * limit.toInt + 2) :
    (2 * limit + 2).toInt ≤ 0 := by
  have hlt := limit.toInt_lt
  have hwrap : (2 * limit.toInt + 2).bmod 0x10000000000000000 =
      2 * limit.toInt + 2 - 0x10000000000000000 := by
    rw [← Int.sub_bmod_right]
    exact Int.bmod_eq_of_le (by omega) (by omega)
  rw [Tree.toInt_guard, hwrap]
  omega

/-- A source is read only if the guard of the parser is a 64-bit integer. -/
theorem Reads.guard_lt (h : s.Reads source e) :
    2 * s.maxDepth.toInt + 2 < 0x8000000000000000 := by
  obtain ⟨-, n, tree, hderives, hguard, -⟩ := reads_iff.mp h
  have hn := hderives.levels_pos
  by_cases hg : 0x8000000000000000 ≤ 2 * s.maxDepth.toInt + 2
  · have := guard_nonpos hg
    omega
  · omega

/-- While the guard of the parser is a 64-bit integer, a larger limit of depth keeps a source
readable. -/
private theorem Reads.of_le (h : s.Reads source e) (hd : s.maxDepth ≤ s'.maxDepth)
    (hmax : 2 * s'.maxDepth.toInt + 2 < 0x8000000000000000) : s'.Reads source e := by
  have hpos := s.maxDepth_pos
  rw [Int64.le_iff_toInt_le] at hd
  obtain ⟨hs, n, tree, hderives, hguard, hnest, he⟩ := reads_iff.mp h
  rw [Tree.toInt_guard_of_lt (by omega) (by omega)] at hguard
  refine reads_iff.mpr ⟨hs, n, tree, hderives, ?_, by omega, he⟩
  rw [Tree.toInt_guard_of_lt (by omega) hmax]
  omega

/-- A run that gives a noun gives the same noun under larger limits exactly if the guard of the
parser is still a 64-bit integer. -/
theorem run_eq_ok_iff_of_le (hd : s.maxDepth ≤ s'.maxDepth) (he : s.maxElements ≤ s'.maxElements)
    (h : (s.run source).result = .ok a) :
    (s'.run source).result = .ok a ↔ 2 * s'.maxDepth.toInt + 2 < 0x8000000000000000 := by
  obtain ⟨e, hr, hv⟩ := run_eq_ok_iff.mp h
  constructor
  · intro h'
    obtain ⟨e', hr', -⟩ := run_eq_ok_iff.mp h'
    exact hr'.guard_lt
  · intro hmax
    exact run_eq_ok_iff.mpr ⟨e, hr.of_le hd hmax, Expr.value_of_le s.maxElements_pos he hv⟩

/-- The source `1` under twice the default limits. -/
theorem run_one_of_doubled_limits :
    (({ depthLimit := 2000, elementLimit := 8388608 } : Settings).run [49]).result =
      .ok (.scalar 1) := by
  have h : (({} : Settings).run [49]).result = .ok (.scalar 1) := rfl
  exact (run_eq_ok_iff_of_le (by decide) (by decide) h).mpr (by decide)

/-- From a limit of depth of 4611686018427387903 on, even the source `1` is nested too deeply. -/
theorem run_one_beyond_guard :
    (({ depthLimit := 1000, elementLimit := 4194304 } : Settings).run [49]).result =
      .ok (.scalar 1) ∧
    (({ depthLimit := 4611686018427387903, elementLimit := 4194304 } : Settings).run [49]).result =
      .error (.error (.parse (.tooDeep 4611686018427387903 0))) :=
  ⟨rfl, rfl⟩

end Settings

end Ravel
