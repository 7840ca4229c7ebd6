import Ravel.Proofs.Guard

/-!
# What the resolver makes of a tree

The resolver takes the parentheses off a tree and leaves all else as it is (`Tree.Unwraps`). It
refuses the verbs that lack the form in which they are used, and of several the one that it comes to
first: it goes through the right operand of a verb, then through the left one, and then looks at the
verb itself (`Tree.offenders`). A context allows only so many levels, and a tree with more levels
than are left is refused in any case (`Tree.resolve_exact`). Only the check of a level looks at the
limit, so a tree without levels is resolved even in a context that is beyond its limit already
(`Tree.resolve_literal_beyond_limit`).
-/

namespace Ravel

namespace Tree

/-! ### Trees without their parentheses -/

/-- An expression has the literals, the verbs and the operands of a tree, in the same order, and
none of its parentheses. -/
inductive Unwraps : Tree → Expr → Prop where
  | literal (value : Noun) (offset : Int) : Unwraps (.literal value offset) (.noun value)
  | paren {inner : Tree} {e : Expr} (offset : Int) (h : Unwraps inner e) :
      Unwraps (.paren inner offset) e
  | monad {right : Tree} {r : Expr} (mark : UInt8) (offset : Int) (hr : Unwraps right r) :
      Unwraps (.monad mark right offset) (.monad mark r)
  | dyad {left right : Tree} {l r : Expr} (mark : UInt8) (offset : Int) (hl : Unwraps left l)
      (hr : Unwraps right r) : Unwraps (.dyad left mark right offset) (.dyad l mark r)

private theorem unwraps_of_erased {t : Tree} {e : Expr} (h : t.erased = .ok e) : t.Unwraps e := by
  induction t generalizing e with
  | literal value offset =>
    cases h
    exact .literal value offset
  | hole => cases h
  | paren inner offset ih => exact .paren offset (ih h)
  | monad mark right offset ih =>
    obtain ⟨r, hr, -, rfl⟩ := erased_monad_eq_ok_iff.mp h
    exact .monad mark offset (ih hr)
  | dyad left mark right offset ihl ihr =>
    obtain ⟨l, r, hl, hr, -, rfl⟩ := erased_dyad_eq_ok_iff.mp h
    exact .dyad mark offset (ihl hl) (ihr hr)

/-! ### Verbs that lack their form -/

/-- The verbs of a tree that lack the form in which they are used, with their places: those of the
right operand, those of the left operand, the verb itself. -/
def offenders : Tree → List SemanticError
  | .literal _ _ => []
  | .paren inner _ => inner.offenders
  | .monad mark right offset =>
    right.offenders ++ if (Verb.monadic? mark).isSome then [] else [⟨.noMonadicForm, mark, offset⟩]
  | .dyad left mark right offset =>
    right.offenders ++ left.offenders ++
      if (Verb.dyadic? mark).isSome then [] else [⟨.noDyadicForm, mark, offset⟩]
  | .hole => []

/-- No operand of a tree is missing. -/
def Whole : Tree → Prop
  | .literal _ _ => True
  | .paren inner _ => inner.Whole
  | .monad _ right _ => right.Whole
  | .dyad left _ right _ => left.Whole ∧ right.Whole
  | .hole => False

private theorem Derives.whole {p : Phrase} {n : Nat} {ts : List Token} {t : Tree}
    (h : Derives p n ts t) :
    t.Whole := by
  induction h with
  | literal hk ha => trivial
  | monad hk hm hr ih => exact ih
  | paren ho hc he ih => exact ih
  | single ht ih => exact ih
  | dyad hl hk hm hr ihl ihr => exact ⟨ihl, ihr⟩

private theorem whole_of_parse {limit : Int64} {tokens : List Token} {t : Tree}
    (h : parse limit tokens = .ok t) : t.Whole := by
  obtain ⟨n, hd, -⟩ := exists_derives_of_parse h
  exact hd.whole

variable {t : Tree}

/-- A tree without missing operands has an expression, or its first offender is why it has none. -/
private theorem Whole.erased_cases (h : t.Whole) :
    (t.offenders = [] ∧ ∃ e, t.erased = .ok e) ∨
      ∃ x rest, t.offenders = x :: rest ∧ t.erased = .error (.form x) := by
  induction t with
  | literal value offset => exact .inl ⟨rfl, _, rfl⟩
  | hole => exact h.elim
  | paren inner offset ih => exact ih h
  | monad mark right offset ih =>
    rw [offenders, erased]
    rcases ih h with ⟨hnone, r, hr⟩ | ⟨x, rest, hsome, hr⟩
    · rw [hnone, hr]
      by_cases hm : (Verb.monadic? mark).isSome
      · simp [hm]
      · simp [hm]
    · rw [hsome, hr]
      exact .inr ⟨x, _, rfl, rfl⟩
  | dyad left mark right offset ihl ihr =>
    rw [offenders, erased]
    rcases ihr h.2 with ⟨hnone, r, hr⟩ | ⟨x, rest, hsome, hr⟩
    · rw [hnone, hr]
      rcases ihl h.1 with ⟨hnone', l, hl⟩ | ⟨x, rest, hsome, hl⟩
      · rw [hnone', hl]
        by_cases hm : (Verb.dyadic? mark).isSome
        · simp [hm]
        · simp [hm]
      · rw [hsome, hl]
        exact .inr ⟨x, _, rfl, rfl⟩
    · rw [hsome, hr]
      exact .inr ⟨x, _, rfl, rfl⟩

/-- The verbs of a tree have their forms exactly if none of them offends. -/
private theorem Whole.formed_iff (h : t.Whole) : t.Formed ↔ t.offenders = [] := by
  induction t with
  | literal value offset => simp [Formed, offenders]
  | hole => exact h.elim
  | paren inner offset ih => exact ih h
  | monad mark right offset ih =>
    rw [Formed, offenders, ih h]
    by_cases hm : (Verb.monadic? mark).isSome <;> simp [hm]
  | dyad left mark right offset ihl ihr =>
    rw [Formed, offenders, ihl h.1, ihr h.2]
    by_cases hm : (Verb.dyadic? mark).isSome <;> simp [hm, and_comm]

private theorem Whole.exists_erased_iff (h : t.Whole) : (∃ e, t.erased = .ok e) ↔ t.Formed := by
  rw [h.formed_iff]
  rcases h.erased_cases with ⟨hnone, he⟩ | ⟨x, rest, hsome, hx⟩
  · exact iff_of_true he hnone
  · simp [hsome, hx]

private theorem Whole.erased_eq_error_iff (h : t.Whole) {x : ResolveError} :
    t.erased = .error x ↔ ∃ y, t.offenders.head? = some y ∧ x = .form y := by
  rcases h.erased_cases with ⟨hnone, e, he⟩ | ⟨y, rest, hsome, hy⟩
  · simp [hnone, he]
  · simp [hsome, hy, eq_comm]

private theorem resolve_of_nesting_pos {c : Context} (ht : 0 < t.nesting)
    (hc : c.limits.depth.toInt ≤ c.depth) : ∃ x, t.resolve c = (.error x, c) := by
  cases t with
  | literal value offset => cases ht
  | hole => cases ht
  | paren inner offset => exact deeper_of_deep fun hd ↦ by omega
  | monad mark right offset => exact deeper_of_deep fun hd ↦ by omega
  | dyad left mark right offset => exact deeper_of_deep fun hd ↦ by omega

/-- A tree of the parser with no more levels than are left is resolved to itself without its
parentheses or refused for its first offender, and one with more levels is refused. -/
theorem resolve_exact {limit : Int64} {tokens : List Token} (hp : parse limit tokens = .ok t)
    (c : Context) :
    ((t.nesting : Int) ≤ c.limits.depth.toInt - c.depth →
      ((∃ e, (t.resolve c).1 = .ok e) ↔ t.Formed) ∧
      (∀ e, (t.resolve c).1 = .ok e → t.Unwraps e) ∧
      ∀ x, (t.resolve c).1 = .error x ↔ ∃ y, t.offenders.head? = some y ∧ x = .form y) ∧
    (c.limits.depth.toInt - c.depth < t.nesting →
      (c.depth : Int) ≤ c.limits.depth.toInt ∨ 0 < t.nesting →
      ∃ x, (t.resolve c).1 = .error x) := by
  have hw := whole_of_parse hp
  constructor
  · intro hn
    rw [resolve_eq t c (by omega)]
    exact ⟨hw.exists_erased_iff, fun e he ↦ unwraps_of_erased he, fun x ↦ hw.erased_eq_error_iff⟩
  · intro hn hc
    obtain ⟨x, hx⟩ : ∃ x, t.resolve c = (.error x, c) := by
      by_cases hd : (c.depth : Int) ≤ c.limits.depth.toInt
      · exact resolve_of_deep t c hd (by omega)
      · exact resolve_of_nesting_pos (hc.resolve_left hd) (by omega)
    rw [hx]
    exact ⟨x, rfl⟩

/-- Both monadic verbs of `({1)+-2` offend and the one on the right is reported; with a level less
the tree is refused in any case. -/
theorem resolve_exact_two_offenders :
    let t := dyad (paren (monad 123 (literal (.scalar 1) 2) 1) 0) 43
      (monad 45 (literal (.scalar 2) 6) 5) 4
    let level (n : Int64) : Context := ⟨({ depthLimit := n } : Settings).limits, 1, []⟩
    t.offenders = [⟨.noMonadicForm, 45, 5⟩, ⟨.noMonadicForm, 123, 1⟩] ∧
      (t.resolve (level 4)).1 = .error (.form ⟨.noMonadicForm, 45, 5⟩) ∧
      ∃ x, (t.resolve (level 3)).1 = .error x := by
  intro t level
  have hp : parse 1000 (Token.scan (Text.ofString "(\x7b1)+-2")).tokens = .ok t := rfl
  refine ⟨rfl, ?_, ?_⟩
  · exact (((resolve_exact hp (level 4)).1 (by decide)).2.2 _).mpr ⟨_, rfl, rfl⟩
  · exact (resolve_exact hp (level 3)).2 (by decide) (.inl (by decide))

/-- A literal has no level, and is resolved at the second level of a context whose limit has become
one: there is less than no level left. -/
theorem resolve_literal_beyond_limit :
    let t := literal (.scalar 1) 0
    let c : Context := ⟨⟨1, 100⟩, 2, []⟩
    parse 1 (Token.scan (Text.ofString "1")).tokens = .ok t ∧
      c.limits.depth.toInt - c.depth < t.nesting ∧ ∃ e, (t.resolve c).1 = .ok e :=
  ⟨rfl, by decide, .noun (.scalar 1), rfl⟩

end Tree

end Ravel
