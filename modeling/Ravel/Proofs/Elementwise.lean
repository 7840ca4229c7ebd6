import Mathlib.Data.List.Forall2
import Ravel.Proofs.Extent

/-!
# Element-by-element verbs

Two sound nouns that conform are combined pair by pair without a fault: a scalar has the one element
that is paired with every other, and nouns of one shape have equally many elements. The result has
as many elements as pairs were made. A sum of elements is refused exactly if it is no 64-bit integer
(`addElements_eq`).
-/

namespace Ravel.Noun

section Rows

variable {α β ε : Type} {f : α → Except ε β} {xs : Array α}

/-- A row of computations has the results of each of them in their order. -/
private theorem forall₂_of_mapM {ys : Array β} (h : xs.mapM f = .ok ys) :
    List.Forall₂ (fun x y ↦ f x = .ok y) xs.toList ys.toList := by
  have hlist (l : List α) (r : List β) (hr : l.mapM f = .ok r) :
      List.Forall₂ (fun x y ↦ f x = .ok y) l r := by
    induction l generalizing r with
    | nil =>
      rw [List.mapM_nil] at hr
      cases hr
      exact .nil
    | cons x l ih =>
      rw [List.mapM_cons] at hr
      cases hx : f x with
      | error e => rw [hx] at hr; cases hr
      | ok y =>
        cases hl : l.mapM f with
        | error e => rw [hx, hl] at hr; cases hr
        | ok t =>
          rw [hx, hl] at hr
          cases hr
          exact .cons hx (ih t hl)
  apply hlist
  rw [← Array.toList_mapM, h]
  rfl

/-- Computing one by one keeps the number. -/
theorem size_of_mapM {ys : Array β} (h : xs.mapM f = .ok ys) : ys.size = xs.size :=
  (forall₂_of_mapM h).length_eq.symm

/-- The result at a position is that of the computation there. -/
theorem getElem?_of_mapM {ys : Array β} (h : xs.mapM f = .ok ys) {i : Nat} {x : α}
    (hx : xs[i]? = some x) : ∃ y, ys[i]? = some y ∧ f x = .ok y := by
  obtain ⟨hi, rfl⟩ := Array.getElem?_eq_some_iff.mp hx
  have hi' : i < ys.size := by
    rw [size_of_mapM h]
    exact hi
  exact ⟨ys[i], Array.getElem?_eq_getElem hi', (forall₂_of_mapM h).get hi hi'⟩

/-- A row of computations fails with the error of one of them. -/
theorem exists_of_mapM_eq_error {e : ε} (h : xs.mapM f = .error e) :
    ∃ x ∈ xs, f x = .error e := by
  have hlist (l : List α) (hl : l.mapM f = .error e) : ∃ x ∈ l, f x = .error e := by
    induction l with
    | nil => cases hl
    | cons x l ih =>
      rw [List.mapM_cons] at hl
      cases hx : f x with
      | error d =>
        rw [hx] at hl
        cases hl
        exact ⟨x, List.mem_cons_self, hx⟩
      | ok y =>
        cases hr : l.mapM f with
        | error d =>
          rw [hx, hr] at hl
          cases hl
          obtain ⟨z, hz, hf⟩ := ih hr
          exact ⟨z, List.mem_cons_of_mem x hz, hf⟩
        | ok ys => rw [hx, hr] at hl; cases hl
  obtain ⟨x, hx, hf⟩ := hlist xs.toList (by rw [← Array.toList_mapM, h]; rfl)
  exact ⟨x, Array.mem_toList_iff.mp hx, hf⟩

end Rows

variable {bound : Nat} {u v : Noun}

/-- The element that a scalar is paired with is there. -/
theorem Exact.element_zero (h : u.Exact) (hs : u.isScalar) :
    ∃ x, u.element 0 = .ok x := by
  have hz : 0 < u.data.size := by
    have h1 := h.size_eq_one hs
    rw [size] at h1
    omega
  refine ⟨u.data[0], ?_⟩
  simp only [element, Int.lt_irrefl, ite_false, Int.toNat_zero, Array.getElem?_eq_getElem hz]

/-- The pairs are as many as the elements of the operand that is no scalar. -/
theorem size_of_pairs {ps : Array (Int64 × Int64)} (h : pairs u v = .ok ps) :
    ps.size = if u.isScalar then v.size else u.size := by
  unfold pairs at h
  split
  · next hu =>
    rw [if_pos hu] at h
    split at h
    · next he =>
      cases h
      rw [size, Array.isEmpty_iff.mp he]
      rfl
    · cases hx : u.element 0 with
      | error f => rw [hx] at h; cases h
      | ok x =>
        rw [hx] at h
        cases h
        exact Array.size_map
  · next hu =>
    rw [if_neg hu] at h
    split at h
    · split at h
      · next he =>
        cases h
        rw [size, Array.isEmpty_iff.mp he]
        rfl
      · cases hy : v.element 0 with
        | error f => rw [hy] at h; cases h
        | ok y =>
          rw [hy] at h
          cases h
          exact Array.size_map
    · split at h
      · cases h
      · next hle =>
        cases h
        rw [Array.size_zip]
        unfold size at *
        omega

/-- Two exact nouns that conform can be paired. -/
private theorem exists_pairs (hu : u.Exact) (hv : v.Exact) {verb : Text} {shape : List Int64}
    (h : commonShape verb u v = .ok shape) : ∃ ps, pairs u v = .ok ps := by
  unfold pairs
  by_cases hus : u.isScalar
  · obtain ⟨x, hx⟩ := hu.element_zero hus
    rw [if_pos hus, hx]
    split <;> exact ⟨_, rfl⟩
  · rw [if_neg hus]
    by_cases hvs : v.isScalar
    · obtain ⟨y, hy⟩ := hv.element_zero hvs
      rw [if_pos hvs, hy]
      split <;> exact ⟨_, rfl⟩
    · have hs : u.shape = v.shape := by
        rw [commonShape, if_neg hus, if_neg hvs] at h
        by_contra hne
        rw [if_neg hne] at h
        cases h
      have hn : v.size = u.size := by
        rw [Exact, hs] at hu
        rw [Exact] at hv
        omega
      rw [if_neg hvs, if_neg (by omega)]
      exact ⟨_, rfl⟩

/-- The pairs of two exact nouns that conform are as many as the elements of the common shape. -/
theorem pairs_of_commonShape (hu : u.Exact) (hv : v.Exact) {verb : Text} {shape : List Int64}
    (h : commonShape verb u v = .ok shape) :
    ∃ ps, pairs u v = .ok ps ∧ ((shape = u.shape ∧ ps.size = u.size) ∨
      (shape = v.shape ∧ ps.size = v.size)) := by
  obtain ⟨ps, hps⟩ := exists_pairs hu hv h
  refine ⟨ps, hps, ?_⟩
  have hn := size_of_pairs hps
  unfold commonShape at h
  by_cases hus : u.isScalar
  · rw [if_pos hus] at h hn
    by_cases hvs : v.isScalar
    · have h1 := hu.size_eq_one hus
      have h2 := hv.size_eq_one hvs
      rw [if_pos hvs] at h
      split at h <;> cases h
      · exact .inr ⟨rfl, hn⟩
      · exact .inl ⟨rfl, by omega⟩
    · rw [if_neg hvs] at h
      cases h
      exact .inr ⟨rfl, hn⟩
  · rw [if_neg hus] at h hn
    refine .inl ⟨?_, hn⟩
    split at h
    · exact (Except.ok.inj h).symm
    · split at h
      · exact (Except.ok.inj h).symm
      · cases h

/-- Combining sound nouns pair by pair ends in an error or a sound noun. -/
theorem elementwise_safe {verb : Text} {f : Int64 → Int64 → Except ValueError Int64}
    (hu : u.Sound bound) (hv : v.Sound bound) : SafeOutcome bound (elementwise verb f u v) := by
  unfold elementwise
  cases hs : commonShape verb u v with
  | error e => exact True.intro
  | ok shape =>
    obtain ⟨ps, hp, hn⟩ := pairs_of_commonShape hu.exact hv.exact hs
    rw [hp]
    dsimp only
    cases hm : ps.mapM fun p ↦ f p.1 p.2 with
    | error e => exact True.intro
    | ok data =>
      have hd : data.size = ps.size := size_of_mapM hm
      rcases hn with ⟨rfl, hn⟩ | ⟨rfl, hn⟩
      · exact hu.congr rfl (hd.trans hn)
      · exact hv.congr rfl (hd.trans hn)

/-- The positions of the elements of a sound noun in another one are a sound noun. -/
theorem Sound.find (hu : u.Sound bound) (v : Noun) : (u.find v).Sound bound :=
  hu.congr rfl Array.size_map

/-! ### Sums -/

/-- The sum of two elements is refused exactly if it is no 64-bit integer. -/
theorem addElements_eq (x y : Int64) : addElements x y =
    if -0x8000000000000000 ≤ x.toInt + y.toInt ∧ x.toInt + y.toInt < 0x8000000000000000
    then .ok (x + y) else .error (.overflow x y) := by
  have hx := x.le_toInt
  have hx' := x.toInt_lt
  have hy := y.le_toInt
  have hy' := y.toInt_lt
  have hwrap : ((0 < y && x + y < x) || (y < 0 && x < x + y)) = true ↔
      ¬(-0x8000000000000000 ≤ x.toInt + y.toInt ∧ x.toInt + y.toInt < 0x8000000000000000) := by
    simp only [Bool.or_eq_true, Bool.and_eq_true, decide_eq_true_eq, Int64.lt_iff_toInt_lt,
      Int64.toInt_zero, Int64.toInt_add, Int.bmod]
    split <;> omega
  unfold addElements
  dsimp only
  by_cases h : -0x8000000000000000 ≤ x.toInt + y.toInt ∧ x.toInt + y.toInt < 0x8000000000000000
  · rw [if_pos h, if_neg fun hw ↦ hwrap.mp hw h]
  · rw [if_neg h, if_pos (hwrap.mpr h)]

/-- The sum of two scalars. -/
theorem add_scalar (x y : Int64) :
    (scalar x).add (scalar y) = ((addElements x y).map scalar).mapError .error := by
  have hs : commonShape [43] (scalar x) (scalar y) = .ok [] := rfl
  have hp : pairs (scalar x) (scalar y) = .ok #[(x, y)] :=
    congrArg Except.ok List.map_toArray
  have hm : #[(x, y)].mapM (fun p ↦ addElements p.1 p.2) = (addElements x y).map (#[·]) := by
    rw [Array.mapM_eq_mapM_toList, List.mapM_cons, List.mapM_nil]
    cases addElements x y with
    | error e => rfl
    | ok z => rfl
  rw [add, elementwise, hs, hp]
  dsimp only
  rw [hm]
  cases addElements x y with
  | error e => rfl
  | ok z => rfl

end Ravel.Noun
