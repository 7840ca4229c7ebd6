import Ravel.Proofs.Elementwise

/-!
# Sums of nouns

An element-by-element verb combines the elements of two nouns of one shape at equal positions, and
the only element of a scalar with every element of the other noun. Which elements meet
(`Noun.Meet`), whether the nouns conform and which shape their combination takes are said here
without the program's case distinctions; `Noun.combines_elementwise` is then all that such a verb
can come to. For sums this is exact addition, and what it says of two nouns does not change if they
are exchanged (`Noun.add_exact`).
-/

namespace Ravel.Noun

variable {u v r : Noun}

/-! ### Corresponding elements -/

/-- The element that a noun brings to a position of an element-by-element result; a scalar brings
its only one to every position. -/
def elementFor (a : Noun) (i : Nat) : Option Int64 := a.data[if a.isScalar then 0 else i]?

/-- Two elements that are brought to one position. -/
def Meet (u v : Noun) (x y : Int64) : Prop :=
  ∃ i, u.elementFor i = some x ∧ v.elementFor i = some y

/-- Two nouns that can be combined element by element: they are of one shape, or one of them is a
scalar. -/
def Conform (u v : Noun) : Prop := u.isScalar ∨ v.isScalar ∨ u.shape = v.shape

/-- The shape of a combination is that of the noun that is no scalar. Two scalars give a vector of
one element if one of them is one, else a scalar without axes. -/
structure TakesShape (u v : Noun) (shape : List Int64) : Prop where
  left : ¬ u.isScalar → shape = u.shape
  right : ¬ v.isScalar → shape = v.shape
  scalars : u.isScalar → v.isScalar →
    shape = if u.shape = [1] ∨ v.shape = [1] then [1] else []

instance (u v : Noun) : Decidable (u.Conform v) := inferInstanceAs (Decidable (_ ∨ _))

private theorem Conform.symm (h : u.Conform v) : v.Conform u := by
  rcases h with hu | hv | hs
  · exact .inr (.inl hu)
  · exact .inl hv
  · exact .inr (.inr hs.symm)

private theorem Meet.symm {x y : Int64} (h : u.Meet v x y) : v.Meet u y x := by
  obtain ⟨i, hx, hy⟩ := h
  exact ⟨i, hy, hx⟩

private theorem TakesShape.symm {shape : List Int64} (h : u.TakesShape v shape) :
    v.TakesShape u shape where
  left := h.right
  right := h.left
  scalars hv hu := by
    rw [h.scalars hu hv]
    simp only [or_comm]

private theorem TakesShape.unique {s t : List Int64} (hs : u.TakesShape v s)
    (ht : u.TakesShape v t) :
    s = t := by
  by_cases hu : u.isScalar
  · by_cases hv : v.isScalar
    · rw [hs.scalars hu hv, ht.scalars hu hv]
    · rw [hs.right hv, ht.right hv]
  · rw [hs.left hu, ht.left hu]

private theorem commonShape_of_not_conform (verb : Text) (h : ¬ u.Conform v) :
    commonShape verb u v = .error (.shapesDiffer verb u.shape v.shape) := by
  simp only [Conform, not_or] at h
  obtain ⟨hu, hv, hs⟩ := h
  rw [commonShape, if_neg hu, if_neg hv, if_neg hs]

/-- Nouns that conform have the shape in common that their combination takes. -/
private theorem commonShape_of_conform (verb : Text) (h : u.Conform v) :
    ∃ shape, commonShape verb u v = .ok shape ∧ u.TakesShape v shape := by
  unfold commonShape
  by_cases hu : u.isScalar
  · rw [if_pos hu]
    by_cases hv : v.isScalar
    · rw [if_pos hv]
      refine ⟨_, rfl, fun hn ↦ absurd hu hn, fun hn ↦ absurd hv hn, fun _ _ ↦ ?_⟩
      -- each of the two shapes is [] or [1]
      rcases u.isScalar_iff.mp hu with hus | hus <;> rcases v.isScalar_iff.mp hv with hvs | hvs <;>
        simp [rank, hus, hvs]
    · rw [if_neg hv]
      exact ⟨v.shape, rfl, fun hn ↦ absurd hu hn, fun _ ↦ rfl, fun _ hn ↦ absurd hn hv⟩
  · rw [if_neg hu]
    by_cases hv : v.isScalar
    · rw [if_pos hv]
      exact ⟨u.shape, rfl, fun _ ↦ rfl, fun hn ↦ absurd hv hn, fun hn _ ↦ absurd hn hu⟩
    · have hs : u.shape = v.shape := (h.resolve_left hu).resolve_left hv
      rw [if_neg hv, if_pos hs]
      exact ⟨u.shape, rfl, fun _ ↦ rfl, fun _ ↦ hs, fun hn _ ↦ absurd hn hu⟩

/-! ### Pairs -/

/-- Within its elements an exact noun brings the one at the position, even if it is a scalar. -/
private theorem Exact.elementFor_of_lt (h : u.Exact) {i : Nat} (hi : i < u.size) :
    u.elementFor i = u.data[i]? := by
  unfold elementFor
  split
  · next hs =>
    have hone := h.size_eq_one hs
    have hzero : i = 0 := by omega
    rw [hzero]
  · rfl

private theorem elementFor_of_isScalar (hs : u.isScalar) (i : Nat) :
    u.elementFor i = u.data[0]? := by
  rw [elementFor, if_pos hs]

private theorem lt_size_of_elementFor {i : Nat} {x : Int64} (hs : ¬ u.isScalar)
    (h : u.elementFor i = some x) : i < u.size := by
  rw [elementFor, if_neg hs] at h
  obtain ⟨hi, -⟩ := Array.getElem?_eq_some_iff.mp h
  exact hi

private theorem getElem?_zero_of_element {x : Int64} (h : u.element 0 = .ok x) :
    u.data[0]? = some x := by
  unfold element at h
  rw [if_neg (Int.lt_irrefl 0), Int.toNat_zero] at h
  split at h
  · next y hy =>
    cases h
    exact hy
  · cases h

/-- The pair at a position is that of the elements that are brought there. -/
private theorem elementFor_of_pairs (hu : u.Exact) (hv : v.Exact) {ps : Array (Int64 × Int64)}
    (h : pairs u v = .ok ps) {i : Nat} {x y : Int64} (hi : ps[i]? = some (x, y)) :
    u.elementFor i = some x ∧ v.elementFor i = some y := by
  unfold pairs at h
  split at h
  · next hus =>
    split at h
    · cases h
      cases hi
    · cases hx : u.element 0 with
      | error f => rw [hx] at h; cases h
      | ok a =>
        rw [hx] at h
        cases h
        rw [Array.getElem?_map, Option.map_eq_some_iff] at hi
        obtain ⟨b, hb, hp⟩ := hi
        cases hp
        obtain ⟨hlt, -⟩ := Array.getElem?_eq_some_iff.mp hb
        rw [elementFor_of_isScalar hus, hv.elementFor_of_lt hlt]
        exact ⟨getElem?_zero_of_element hx, hb⟩
  · next hus =>
    split at h
    · next hvs =>
      split at h
      · cases h
        cases hi
      · cases hy : v.element 0 with
        | error f => rw [hy] at h; cases h
        | ok b =>
          rw [hy] at h
          cases h
          rw [Array.getElem?_map, Option.map_eq_some_iff] at hi
          obtain ⟨a, ha, hp⟩ := hi
          cases hp
          obtain ⟨hlt, -⟩ := Array.getElem?_eq_some_iff.mp ha
          rw [elementFor_of_isScalar hvs, hu.elementFor_of_lt hlt]
          exact ⟨ha, getElem?_zero_of_element hy⟩
    · next hvs =>
      split at h
      · cases h
      · cases h
        rw [Array.getElem?_zip_eq_some] at hi
        rw [elementFor, elementFor, if_neg hus, if_neg hvs]
        exact hi

/-- Elements that meet are one of the pairs. -/
private theorem Meet.mem_pairs (hu : u.Exact) (hv : v.Exact) {ps : Array (Int64 × Int64)}
    (h : pairs u v = .ok ps) {x y : Int64} (hm : u.Meet v x y) : (x, y) ∈ ps := by
  obtain ⟨i, hx, hy⟩ := hm
  have hn := size_of_pairs h
  -- two scalars meet at every position, but there is one pair only
  obtain ⟨j, hj, hxj, hyj⟩ : ∃ j < ps.size, u.elementFor j = some x ∧ v.elementFor j = some y := by
    by_cases hus : u.isScalar
    · rw [if_pos hus] at hn
      rw [elementFor_of_isScalar hus] at hx
      by_cases hvs : v.isScalar
      · have hone := hv.size_eq_one hvs
        rw [elementFor_of_isScalar hvs] at hy
        refine ⟨0, by omega, ?_, ?_⟩
        · rw [elementFor_of_isScalar hus, hx]
        · rw [elementFor_of_isScalar hvs, hy]
      · refine ⟨i, ?_, ?_, hy⟩
        · rw [hn]
          exact lt_size_of_elementFor hvs hy
        · rw [elementFor_of_isScalar hus, hx]
    · rw [if_neg hus] at hn
      refine ⟨i, ?_, hx, hy⟩
      rw [hn]
      exact lt_size_of_elementFor hus hx
  have hp : ps[j]? = some ps[j] := Array.getElem?_eq_getElem hj
  obtain ⟨ha, hb⟩ := elementFor_of_pairs hu hv h hp
  rw [hxj, Option.some_inj] at ha
  rw [hyj, Option.some_inj] at hb
  rw [ha, hb]
  exact Array.getElem_mem hj

/-! ### What a combination comes to -/

/-- What an element-by-element verb comes to: the shapes differ, two elements that meet cannot be
combined, or the result consists of the combinations of the elements that meet. -/
inductive Combines (verb : Text) (f : Int64 → Int64 → Except ValueError Int64) (u v : Noun) :
    Except (Halt ValueError) Noun → Prop where
  | differ (hc : ¬ u.Conform v) :
      Combines verb f u v (.error (.error (.shapesDiffer verb u.shape v.shape)))
  | fails {x y : Int64} {e : ValueError} (hc : u.Conform v) (hm : u.Meet v x y)
      (he : f x y = .error e) : Combines verb f u v (.error (.error e))
  | result {r : Noun} (hc : u.Conform v) (hr : r.Exact) (hs : u.TakesShape v r.shape)
      (hm : ∀ x y, u.Meet v x y → ∃ z, f x y = .ok z)
      (hd : ∀ i < r.size, ∃ x y z, u.elementFor i = some x ∧ v.elementFor i = some y ∧
        r.data[i]? = some z ∧ f x y = .ok z) : Combines verb f u v (.ok r)

/-- Combining exact nouns comes to nothing else. -/
theorem combines_elementwise (verb : Text) (f : Int64 → Int64 → Except ValueError Int64)
    (hu : u.Exact) (hv : v.Exact) : Combines verb f u v (elementwise verb f u v) := by
  unfold elementwise
  by_cases hc : u.Conform v
  · obtain ⟨shape, hs, ht⟩ := commonShape_of_conform verb hc
    obtain ⟨ps, hp, hn⟩ := pairs_of_commonShape hu hv hs
    rw [hs, hp]
    dsimp only
    cases hm : ps.mapM fun p ↦ f p.1 p.2 with
    | error e =>
      obtain ⟨⟨x, y⟩, hmem, he⟩ := exists_of_mapM_eq_error hm
      obtain ⟨i, hi⟩ := Array.mem_iff_getElem?.mp hmem
      exact .fails hc ⟨i, elementFor_of_pairs hu hv hp hi⟩ he
    | ok data =>
      have hsize := size_of_mapM hm
      refine .result hc ?exact ht ?meet ?data
      case exact =>
        rcases hn with ⟨rfl, hn⟩ | ⟨rfl, hn⟩
        · exact hu.trans (congrArg Nat.cast (hsize.trans hn).symm)
        · exact hv.trans (congrArg Nat.cast (hsize.trans hn).symm)
      case meet =>
        intro x y hxy
        obtain ⟨i, hi⟩ := Array.mem_iff_getElem?.mp (hxy.mem_pairs hu hv hp)
        obtain ⟨z, -, hz⟩ := getElem?_of_mapM hm hi
        exact ⟨z, hz⟩
      case data =>
        intro i hi
        have hpi : ps[i]? = some ps[i] := Array.getElem?_eq_getElem (Nat.lt_of_lt_of_eq hi hsize)
        obtain ⟨hx, hy⟩ := elementFor_of_pairs hu hv hp hpi
        obtain ⟨z, hz, hf⟩ := getElem?_of_mapM hm hpi
        exact ⟨_, _, z, hx, hy, hz, hf⟩
  · rw [commonShape_of_not_conform verb hc]
    exact .differ hc

/-! ### Sums -/

/-- An exact sum that is a 64-bit integer. -/
def FitsSum (x y : Int64) : Prop :=
  -0x8000000000000000 ≤ x.toInt + y.toInt ∧ x.toInt + y.toInt < 0x8000000000000000

instance (x y : Int64) : Decidable (FitsSum x y) := inferInstanceAs (Decidable (_ ∧ _))

/-- The exact sum of two elements that meet is no 64-bit integer. -/
def SumOverflows (u v : Noun) : Prop := ∃ x y, u.Meet v x y ∧ ¬ FitsSum x y

/-- A noun that is the exact sum of two nouns: it has the shape of their combination, and each of
its elements is the exact sum of those that meet at the position. -/
structure IsSum (u v r : Noun) : Prop where
  exact : r.Exact
  shape : u.TakesShape v r.shape
  elements : ∀ i < r.size, ∃ x y z, u.elementFor i = some x ∧ v.elementFor i = some y ∧
    r.data[i]? = some z ∧ z.toInt = x.toInt + y.toInt

private theorem SumOverflows.symm (h : u.SumOverflows v) : v.SumOverflows u := by
  obtain ⟨x, y, hm, hn⟩ := h
  refine ⟨y, x, hm.symm, ?_⟩
  unfold FitsSum at hn ⊢
  omega

private theorem IsSum.symm (h : u.IsSum v r) : v.IsSum u r where
  exact := h.exact
  shape := h.shape.symm
  elements i hi := by
    obtain ⟨x, y, z, hx, hy, hz, hsum⟩ := h.elements i hi
    exact ⟨y, x, z, hy, hx, hz, by omega⟩

/-- Two nouns have one exact sum at most. -/
private theorem IsSum.unique {s : Noun} (hr : u.IsSum v r) (hs : u.IsSum v s) : r = s := by
  have hshape : r.shape = s.shape := hr.shape.unique hs.shape
  have hsize : r.data.size = s.data.size := by
    have hre := hr.exact
    have hse := hs.exact
    rw [Exact, size] at hre hse
    rw [hshape] at hre
    omega
  have hdata : r.data = s.data := by
    apply Array.ext hsize
    intro i hi hi'
    obtain ⟨x, y, z, hx, hy, hz, hsum⟩ := hr.elements i hi
    obtain ⟨x', y', z', hx', hy', hz', hsum'⟩ := hs.elements i hi'
    rw [Array.getElem?_eq_getElem hi, Option.some_inj] at hz
    rw [Array.getElem?_eq_getElem hi', Option.some_inj] at hz'
    rw [hx, Option.some_inj] at hx'
    rw [hy, Option.some_inj] at hy'
    rw [hz, hz', ← Int64.toInt_inj, hsum, hsum', hx', hy']
  exact congrArg₂ Noun.mk hshape hdata

/-- The sum of two elements is exact, or it is refused as an invalid argument. -/
private theorem addElements_cases (x y : Int64) :
    (FitsSum x y ∧ ∃ z, addElements x y = .ok z ∧ z.toInt = x.toInt + y.toInt) ∨
      ¬ FitsSum x y ∧ addElements x y = .error (.overflow x y) := by
  rw [addElements_eq]
  by_cases h : FitsSum x y
  · refine .inl ⟨h, x + y, if_pos h, ?_⟩
    rw [Int64.toInt_add]
    exact Int.bmod_eq_of_le h.1 h.2
  · exact .inr ⟨h, if_neg h⟩

/-- What the sum of two exact nouns comes to. -/
private theorem add_cases (hu : u.Exact) (hv : v.Exact) :
    (¬ u.Conform v ∧ FailsWith .shapeMismatch (u.add v)) ∨
    (u.Conform v ∧ u.SumOverflows v ∧ FailsWith .invalidArgument (u.add v)) ∨
    (u.Conform v ∧ ¬ u.SumOverflows v ∧ ∃ r, u.add v = .ok r ∧ u.IsSum v r) := by
  have hcombines := combines_elementwise [43] addElements hu hv
  rw [← add] at hcombines
  generalize u.add v = outcome at hcombines
  cases hcombines with
  | differ hc => exact .inl ⟨hc, _, rfl, rfl⟩
  | @fails x y e hc hm he =>
    rcases addElements_cases x y with ⟨-, z, hz, -⟩ | ⟨hn, hover⟩
    · rw [he] at hz
      cases hz
    · rw [he] at hover
      cases hover
      exact .inr (.inl ⟨hc, ⟨x, y, hm, hn⟩, _, rfl, rfl⟩)
  | @result r hc hr hs hm hd =>
    refine .inr (.inr ⟨hc, ?_, r, rfl, hr, hs, ?_⟩)
    · rintro ⟨x, y, hxy, hn⟩
      obtain ⟨z, hz⟩ := hm x y hxy
      rcases addElements_cases x y with ⟨hfits, -⟩ | ⟨-, hover⟩
      · exact hn hfits
      · rw [hz] at hover
        cases hover
    · intro i hi
      obtain ⟨x, y, z, hx, hy, hz, hf⟩ := hd i hi
      rcases addElements_cases x y with ⟨-, z', hz', hsum⟩ | ⟨-, hover⟩
      · rw [hf] at hz'
        cases hz'
        exact ⟨x, y, z, hx, hy, hz, hsum⟩
      · rw [hf] at hover
        cases hover

private theorem add_failsWith_iff (hu : u.Exact) (hv : v.Exact) {kind : ValueError.Kind} :
    FailsWith kind (u.add v) ↔ (kind = .shapeMismatch ∧ ¬ u.Conform v) ∨
      (kind = .invalidArgument ∧ u.Conform v ∧ u.SumOverflows v) := by
  rcases add_cases hu hv with ⟨hc, hf⟩ | ⟨hc, ho, hf⟩ | ⟨hc, ho, r, hr, -⟩
  · simp [hf.iff_eq, hc]
  · simp [hf.iff_eq, hc, ho]
  · simp [hr, hc, ho, not_failsWith_ok]

private theorem add_eq_ok_iff (hu : u.Exact) (hv : v.Exact) :
    u.add v = .ok r ↔ u.Conform v ∧ ¬ u.SumOverflows v ∧ u.IsSum v r := by
  rcases add_cases hu hv with ⟨hc, e, he, -⟩ | ⟨hc, ho, e, he, -⟩ | ⟨hc, ho, s, hs, hsum⟩
  · simp [he, hc]
  · simp [he, ho]
  · rw [hs]
    constructor
    · intro h
      cases h
      exact ⟨hc, ho, hsum⟩
    · rintro ⟨-, -, hr⟩
      rw [hsum.unique hr]

/-- Sums are exact or fail, with a mismatch of shapes or an overflow, and exchanging the operands
changes neither the noun nor the kind of error. -/
theorem add_exact (hu : u.Exact) (hv : v.Exact) :
    (FailsWith .shapeMismatch (u.add v) ↔ ¬ u.Conform v) ∧
    (FailsWith .invalidArgument (u.add v) ↔ u.Conform v ∧ u.SumOverflows v) ∧
    (u.Conform v → ¬ u.SumOverflows v → ∃ r, u.add v = .ok r ∧ u.IsSum v r) ∧
    (∀ f, u.add v ≠ .error (.fault f)) ∧
    (∀ r, u.add v = .ok r ↔ v.add u = .ok r) ∧
    ∀ kind, FailsWith kind (u.add v) ↔ FailsWith kind (v.add u) := by
  have hconform : v.Conform u ↔ u.Conform v := ⟨.symm, .symm⟩
  have hover : v.SumOverflows u ↔ u.SumOverflows v := ⟨.symm, .symm⟩
  have hsum (r : Noun) : v.IsSum u r ↔ u.IsSum v r := ⟨.symm, .symm⟩
  refine ⟨?_, ?_, ?_, ?_, ?_, ?_⟩
  · simp [add_failsWith_iff hu hv]
  · simp [add_failsWith_iff hu hv]
  · intro hc ho
    rcases add_cases hu hv with ⟨hn, -⟩ | ⟨-, hn, -⟩ | ⟨-, -, r, hr⟩
    · exact absurd hc hn
    · exact absurd hn ho
    · exact ⟨r, hr⟩
  · intro f hf
    rcases add_cases hu hv with ⟨-, e, he, -⟩ | ⟨-, -, e, he, -⟩ | ⟨-, -, r, hr, -⟩ <;> simp_all
  · intro r
    rw [add_eq_ok_iff hu hv, add_eq_ok_iff hv hu, hconform, hover, hsum]
  · intro kind
    rw [add_failsWith_iff hu hv, add_failsWith_iff hv hu, hconform, hover]

/-- The scalar 1 meets both elements of a vector, whose second sum overflows on either side, and
none of an empty vector. -/
theorem add_exact_scalars :
    FailsWith .invalidArgument ((vector #[5, 9223372036854775807]).add (scalar 1)) ∧
    FailsWith .invalidArgument ((scalar 1).add (vector #[5, 9223372036854775807])) ∧
    (∃ r, (scalar 1).add (vector #[]) = .ok r ∧ r.shape = [0]) ∧
    (∃ r, (scalar 1).add (vector #[-4]) = .ok r ∧ r.shape = [1]) ∧
    FailsWith .shapeMismatch ((vector #[5, 6]).add (vector #[5, 6, 7])) := by
  have hover : (vector #[5, 9223372036854775807]).SumOverflows (scalar 1) :=
    ⟨9223372036854775807, 1, ⟨1, rfl, rfl⟩, by decide⟩
  have h := add_exact (u := vector #[5, 9223372036854775807]) (v := scalar 1) rfl rfl
  have hfails := h.2.1.mpr ⟨by decide, hover⟩
  refine ⟨hfails, (h.2.2.2.2.2 _).mp hfails, ?_, ?_, ?_⟩
  · have hnone : ¬ (scalar 1).SumOverflows (vector #[]) := by
      rintro ⟨x, y, ⟨i, -, hy⟩, -⟩
      cases hy
    obtain ⟨r, hr, hsum⟩ := (add_exact (u := scalar 1) (v := vector #[]) rfl rfl).2.2.1
      (by decide) hnone
    exact ⟨r, hr, hsum.shape.right (by decide)⟩
  · have hfits : ¬ (scalar 1).SumOverflows (vector #[-4]) := by
      rintro ⟨x, y, ⟨i, hx, hy⟩, hn⟩
      rw [elementFor_of_isScalar rfl] at hx hy
      cases hx
      cases hy
      exact hn (by decide)
    obtain ⟨r, hr, hsum⟩ := (add_exact (u := scalar 1) (v := vector #[-4]) rfl rfl).2.2.1
      (by decide) hfits
    exact ⟨r, hr, hsum.shape.scalars rfl rfl⟩
  · exact (add_exact (u := vector #[5, 6]) (v := vector #[5, 6, 7]) rfl rfl).1.mpr (by decide)

end Ravel.Noun
