import Ravel.Proofs.Counting
import Ravel.Proofs.Limits
import Ravel.Proofs.Spelling

/-!
# Tally over append

The items of an append are those of both nouns, and its first axis is the sum of their numbers in
64-bit integers, which wraps: an item without elements can be repeated up to 2^63-1 times, and the
limit of elements does not see it. The tally of an append is therefore the sum of the tallies, with
axes that are not negative, exactly if the exact sum is one; and the two sources `#((a),(b))` and
`(#(a))+#(b)` agree exactly if the sum is a 64-bit integer, since the second one refuses a sum that
wraps (`Settings.tally_append_iff`).
-/

namespace Ravel

/-- The source `#((a),(b))`. -/
def Text.tallyOfAppend (a b : Text) : Text :=
  35 :: Expr.parenthesized (Expr.parenthesized a ++ 44 :: Expr.parenthesized b)

/-- The source `(#(a))+#(b)`. -/
def Text.sumOfTallies (a b : Text) : Text :=
  Expr.parenthesized (35 :: Expr.parenthesized a) ++ 43 :: 35 :: Expr.parenthesized b

namespace Noun

variable {limit : Int64} {u v a : Noun}

/-- The tally of an append wraps at 64 bits. It is the exact sum, along axes that are not negative,
exactly while that sum is neither negative nor above 2^63-1. -/
private theorem Counted.tally_append (hu : u.Counted) (hv : v.Counted)
    (h : u.append limit v = .ok a) :
    a.tally = .scalar (u.items + v.items) ∧
    (((∀ d ∈ a.shape, 0 ≤ d.toInt) ∧ a.items.toInt = u.items.toInt + v.items.toInt) ↔
      0 ≤ u.items.toInt + v.items.toInt ∧
        u.items.toInt + v.items.toInt < 0x8000000000000000) := by
  obtain ⟨rfl, -⟩ := append_eq_ok hu.product_eq hv.product_eq h
  refine ⟨rfl, ?_⟩
  constructor
  · rintro ⟨haxes, hsum⟩
    have h0 := haxes (u.items + v.items) List.mem_cons_self
    have hlt := (u.items + v.items).toInt_lt
    have hsum : (u.items + v.items).toInt = u.items.toInt + v.items.toInt := hsum
    omega
  · rintro ⟨h0, hlt⟩
    have hsum := toInt_add_of_lt h0 hlt
    refine ⟨fun d hd ↦ ?_, hsum⟩
    rcases List.mem_cons.mp hd with rfl | hd
    · omega
    · exact hu.trailing d hd

private theorem add_tally_eq_ok_iff : u.tally.add v.tally = .ok (scalar (u.items + v.items)) ↔
    -0x8000000000000000 ≤ u.items.toInt + v.items.toInt ∧
      u.items.toInt + v.items.toInt < 0x8000000000000000 := by
  rw [tally, tally, add_scalar, addElements_eq]
  split
  · next h => exact ⟨fun _ ↦ h, fun _ ↦ rfl⟩
  · next h => exact ⟨(fun he ↦ by cases he), fun hs ↦ absurd hs h⟩

end Noun

namespace Settings

variable {s : Settings} {a b : Text} {l r e : Expr}

/-- If `#((a),(b))` is read, so is `(#(a))+#(b)`, which is no deeper. -/
private theorem Reads.sumOfTallies (ha : s.Reads a l) (hb : s.Reads b r)
    (h : s.Reads (Text.tallyOfAppend a b) e) :
    s.Reads (Text.tallyOfAppend a b) (.monad 35 (.dyad l 44 r)) ∧
      s.Reads (Text.sumOfTallies a b) (.dyad (.monad 35 l) 43 (.monad 35 r)) := by
  obtain ⟨j, -, hl⟩ := ha.spells
  obtain ⟨k, -, hr⟩ := hb.spells
  obtain ⟨n, hn, he⟩ := h.spells
  have happend : (Text.tallyOfAppend a b).Spells .expression (max (j + 1) (k + 1) + 1 + 1 + 1)
      (.monad 35 (.dyad l 44 r)) :=
    ((hl.paren.dyad rfl hr.paren.single).paren.monad rfl).single
  have hsum : (Text.sumOfTallies a b).Spells .expression (max (j + 1 + 1 + 1) (k + 1 + 1) + 1)
      (.dyad (.monad 35 l) 43 (.monad 35 r)) :=
    (hl.paren.monad rfl).single.paren.dyad rfl (hr.paren.monad rfl).single
  obtain ⟨rfl, rfl⟩ := he.unique happend
  exact ⟨h, (reads_iff_spells h.guard_lt).mpr ⟨_, by omega, hsum⟩⟩

/-- The tally of an append is the sum of the tallies modulo 2^64, and it is the exact sum exactly if
that is a 64-bit integer. -/
theorem tally_append_iff (s s' : Settings) (a b : Text) (u v w : Noun) :
    (∀ limit, s.Makes a u → s'.Makes b v → u.append limit v = .ok w →
      w.tally = .scalar (u.items + v.items) ∧
      (((∀ d ∈ w.shape, 0 ≤ d.toInt) ∧ w.items.toInt = u.items.toInt + v.items.toInt) ↔
        0 ≤ u.items.toInt + v.items.toInt ∧
          u.items.toInt + v.items.toInt < 0x8000000000000000)) ∧
    (∀ e, (s.run a).result = .ok u → (s.run b).result = .ok v →
      u.append s.maxElements v = .ok w → s.Reads (Text.tallyOfAppend a b) e →
      (s.run (Text.tallyOfAppend a b)).result = .ok w.tally ∧
      ((s.run (Text.sumOfTallies a b)).result = (s.run (Text.tallyOfAppend a b)).result ↔
        -0x8000000000000000 ≤ u.items.toInt + v.items.toInt ∧
          u.items.toInt + v.items.toInt < 0x8000000000000000)) := by
  refine ⟨?nouns, ?sources⟩
  case nouns =>
    intro limit hu hv h
    exact hu.counted.tally_append hv.counted h
  case sources =>
    intro e hu hv h he
    obtain ⟨htally, -⟩ := (Makes.result hu).counted.tally_append (Makes.result hv).counted h
    obtain ⟨l, hl, hvl⟩ := run_eq_ok_iff.mp hu
    obtain ⟨r, hr, hvr⟩ := run_eq_ok_iff.mp hv
    obtain ⟨happend, hsum⟩ := hl.sumOfTallies hr he
    have hwhole : (s.run (Text.tallyOfAppend a b)).result = .ok w.tally := by
      have hdyad : Verb.apply s.maxElements (some u) 44 v = .ok w := mapError_eq_ok_iff.mpr h
      rw [run_of_reads happend, Expr.value, Expr.value, hvr, hvl]
      dsimp only
      rw [hdyad]
      rfl
    have hparts : (s.run (Text.sumOfTallies a b)).result =
        ((u.tally.add v.tally).mapError (Halt.map .value)).mapError (Halt.map .eval) := by
      rw [run_of_reads hsum, Expr.value, Expr.value, hvr, Expr.value, hvl]
      rfl
    refine ⟨hwhole, ?_⟩
    rw [hwhole, hparts, htally, mapError_eq_ok_iff, mapError_eq_ok_iff]
    exact Noun.add_tally_eq_ok_iff

/-- The rows of `9223372036854775806 0#1` and the one of `1 0#1` are the most that are counted
exactly. -/
theorem tally_append_iff_rows :
    (({} : Settings).run (Text.ofString "#((9223372036854775806 0#1),(1 0#1))")).result =
      .ok (.scalar 9223372036854775807) ∧
    (({} : Settings).run (Text.ofString "(#(9223372036854775806 0#1))+#(1 0#1)")).result =
      .ok (.scalar 9223372036854775807) ∧
    ∀ d ∈ [(9223372036854775807 : Int64), 0], 0 ≤ d.toInt := by
  have hu : (({} : Settings).run (Text.ofString "9223372036854775806 0#1")).result =
      .ok ⟨[9223372036854775806, 0], #[]⟩ := by with_unfolding_all rfl
  have hv : (({} : Settings).run (Text.ofString "1 0#1")).result = .ok ⟨[1, 0], #[]⟩ := by
    with_unfolding_all rfl
  have happend : (⟨[9223372036854775806, 0], #[]⟩ : Noun).append ({} : Settings).maxElements
      ⟨[1, 0], #[]⟩ = .ok ⟨[9223372036854775807, 0], #[]⟩ := rfl
  obtain ⟨hwhole, hparts⟩ := (tally_append_iff {} {} _ _ _ _ _).2 _ hu hv happend
    ⟨rfl, _, rfl, rfl⟩
  have haxes := ((tally_append_iff {} {} _ _ _ _ _).1 _ (.result hu) (.result hv) happend).2.mpr
    (by decide)
  exact ⟨hwhole, (hparts.mpr (by decide)).trans hwhole, haxes.1⟩

/-- With one row more the first axis is negative, and the two sources do not agree. -/
theorem tally_append_wraps :
    (({} : Settings).run (Text.ofString "(9223372036854775807 0#1),(1 0#1)")).result =
      .ok ⟨[-9223372036854775808, 0], #[]⟩ ∧
    (({} : Settings).run (Text.ofString "#((9223372036854775807 0#1),(1 0#1))")).result =
      .ok (.scalar (-9223372036854775808)) ∧
    (({} : Settings).run (Text.ofString "(#(9223372036854775807 0#1))+#(1 0#1)")).result =
      .error (.error (.eval (.value (.overflow 9223372036854775807 1)))) := by
  refine ⟨?_, ?_, ?_⟩ <;> with_unfolding_all rfl

end Settings

end Ravel
