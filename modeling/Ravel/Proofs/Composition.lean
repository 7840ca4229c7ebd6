import Ravel.Proofs.Spelling

/-!
# Sources made of sources

A verb before a source in parentheses, or between two of them, is read as the verb applied to what
the sources are read as, two levels deeper (`Settings.Reads.monad`, `Settings.Reads.dyad`). Its run
ends as the verb does on the results of the two, and if the source on the right has no result, it
ends as that one does (`Settings.run_parenthesized`).
-/

namespace Ravel

namespace Settings

variable {s s' : Settings} {a b : Text} {v : UInt8} {l r : Expr}

/-- A verb before a source in parentheses. -/
theorem Reads.monad (hb : s.Reads b r) (hv : (Verb.monadic? v).isSome)
    (hd : s.maxDepth.toInt + 2 ≤ s'.maxDepth.toInt)
    (hg : 2 * s'.maxDepth.toInt + 2 < 0x8000000000000000) :
    s'.Reads (v :: Expr.parenthesized b) (.monad v r) := by
  obtain ⟨k, hk, hs⟩ := hb.spells
  rw [reads_iff_spells hg]
  exact ⟨k + 1 + 1, by omega, (hs.paren.monad hv).single⟩

/-- A verb between two sources in parentheses. -/
theorem Reads.dyad (ha : s.Reads a l) (hb : s.Reads b r) (hv : (Verb.dyadic? v).isSome)
    (hd : s.maxDepth.toInt + 2 ≤ s'.maxDepth.toInt)
    (hg : 2 * s'.maxDepth.toInt + 2 < 0x8000000000000000) :
    s'.Reads (Expr.parenthesized a ++ v :: Expr.parenthesized b) (.dyad l v r) := by
  obtain ⟨j, hj, hl⟩ := ha.spells
  obtain ⟨k, hk, hr⟩ := hb.spells
  rw [reads_iff_spells hg]
  exact ⟨max (j + 1) (k + 1) + 1, by omega, hl.paren.dyad hv hr.paren.single⟩

/-- A verb between two sources in parentheses, or before one, is applied to their results, and an
error of the right source comes first. -/
theorem run_parenthesized (hd : s'.maxDepth = s.maxDepth + 2)
    (hg : 2 * (s.maxDepth.toInt + 2) + 2 < 0x8000000000000000)
    (he : s'.maxElements = s.maxElements) (c : Context) (hc : c.limits = s'.limits) :
    (∀ x y, (s.run a).result = .ok x → (s.run b).result = .ok y → (Verb.dyadic? v).isSome →
      (s'.run (Expr.parenthesized a ++ v :: Expr.parenthesized b)).result =
        (c.applyDyadic x v y).1.mapError (Halt.map .eval)) ∧
    (∀ y, (s.run b).result = .ok y → (Verb.monadic? v).isSome →
      (s'.run (v :: Expr.parenthesized b)).result =
        (c.applyMonadic v y).1.mapError (Halt.map .eval)) ∧
    (∀ tokens tree e x, Token.tokenize a = .ok tokens → Tree.parse s.maxDepth tokens = .ok tree →
      (tree.resolve (Context.start s.limits)).1 = .ok e →
      (s.run b).result = .error (Halt.map .eval x) → (Verb.dyadic? v).isSome →
      (s'.run (Expr.parenthesized a ++ v :: Expr.parenthesized b)).result =
        .error (Halt.map .eval x)) := by
  have hpos := s.maxDepth_pos
  have hdepth : s'.maxDepth.toInt = s.maxDepth.toInt + 2 := by
    have htwo : (2 : Int64).toInt = 2 := rfl
    rw [hd, toInt_add_of_lt (by omega) (by omega), htwo]
  have hle : s.maxDepth.toInt + 2 ≤ s'.maxDepth.toInt := Int.le_of_eq hdepth.symm
  have hguard : 2 * s'.maxDepth.toInt + 2 < 0x8000000000000000 := by rw [hdepth]; exact hg
  have hlimit : c.limits.elements = s.maxElements := by rw [hc, limits, he]
  refine ⟨?dyadic, ?monadic, ?failing⟩
  case dyadic =>
    intro x y hx hy hv
    obtain ⟨l, hl, hvl⟩ := run_eq_ok_iff.mp hx
    obtain ⟨r, hr, hvr⟩ := run_eq_ok_iff.mp hy
    rw [run_of_reads (hl.dyad hr hv hle hguard), Context.applyDyadic_eq, Context.applied_fst,
      hlimit, he, Expr.value, hvr, hvl]
  case monadic =>
    intro y hy hv
    obtain ⟨r, hr, hvr⟩ := run_eq_ok_iff.mp hy
    rw [run_of_reads (hr.monad hv hle hguard), Context.applyMonadic_eq, Context.applied_fst,
      hlimit, he, Expr.value, hvr]
  case failing =>
    intro tokens tree l x ht hp hr hx hv
    have hl : s.Reads a l := reads_iff_stages.mpr ⟨tokens, tree, ht, hp, hr⟩
    obtain ⟨r, hr, hvr⟩ := run_eq_eval_iff.mp hx
    -- the right operand is evaluated first, so its failure comes before any of the left one
    rw [run_of_reads (hl.dyad hr hv hle hguard), he, Expr.value, hvr]
    rfl

/-- Two levels beyond the default limit: `(1 2),(3)`, `#(1 2)`, and `(1 2+3 4 5),(7{1 2 3)`, where
neither source has a result. -/
theorem run_parenthesized_default :
    (({ depthLimit := 1002 } : Settings).run (Text.ofString "(1 2),(3)")).result =
      .ok (.vector #[1, 2, 3]) ∧
    (({ depthLimit := 1002 } : Settings).run (Text.ofString "#(1 2)")).result =
      .ok (.scalar 2) ∧
    (({ depthLimit := 1002 } : Settings).run (Text.ofString "(1 2+3 4 5),(7\x7b1 2 3)")).result =
      .error (.error (.eval (.value (.itemOutOfRange 7 3)))) := by
  have h (a b : Text) (v : UInt8) :=
    @run_parenthesized {} { depthLimit := 1002 } a b v rfl (by decide) rfl
      (Context.start ({ depthLimit := 1002 } : Settings).limits) rfl
  refine ⟨?_, ?_, ?_⟩
  · exact (h (Text.ofString "1 2") (Text.ofString "3") 44).1 (.vector #[1, 2]) (.scalar 3)
      rfl rfl rfl
  · exact (h [] (Text.ofString "1 2") 35).2.1 (.vector #[1, 2]) rfl rfl
  · exact (h (Text.ofString "1 2+3 4 5") (Text.ofString "7\x7b1 2 3") 44).2.2 _ _ _
      (.error (.value (.itemOutOfRange 7 3))) rfl rfl rfl rfl rfl

end Settings

end Ravel
