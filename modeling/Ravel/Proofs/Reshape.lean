import Ravel.Proofs.Extent

/-!
# Reshape

The limit is compared with the running quotient, so that the count of the elements is exact for as
long as it is within the limit. What reshape gives is thereby a matter of the extent of the new
shape alone (`Noun.reshape_exact`).
-/

namespace Ravel.Noun

/-- For positive axes the count goes on exactly as long as the extent is within the limit. -/
theorem countWithin_eq {limit n : Int64} {shape : List Int64} (hs : ∀ d ∈ shape, 0 < d.toInt)
    (hn : 0 < n.toInt) (hl : n.toInt ≤ limit.toInt) :
    countWithin limit n shape =
      if n.toInt * extent shape ≤ limit.toInt then some (Int64.ofInt (n.toInt * extent shape))
      else none := by
  induction shape generalizing n with
  | nil => rw [countWithin, extent_nil, Int.mul_one, if_pos hl, Int64.ofInt_toInt]
  | cons d shape ih =>
    have hd : 0 < d.toInt := hs d List.mem_cons_self
    have ht : ∀ e ∈ shape, 0 < e.toInt := fun e he ↦ hs e (List.mem_cons_of_mem d he)
    have he : 0 < extent shape := extent_pos ht
    have hq : limit / d < n ↔ limit.toInt < n.toInt * d.toInt := by
      have hm : limit ≠ Int64.minValue := by
        rintro rfl
        rw [Int64.toInt_minValue] at hl
        omega
      rw [Int64.lt_iff_toInt_lt, Int64.toInt_div_of_ne_left _ _ hm,
        Int.tdiv_eq_ediv_of_nonneg (by omega), Int.ediv_lt_iff_lt_mul hd]
    rw [countWithin, extent_cons, ← Int.mul_assoc]
    have hnd : 0 < n.toInt * d.toInt := Int.mul_pos hn hd
    split
    · next h =>
      -- the remaining axes only enlarge a count that is too large already
      have hm : n.toInt * d.toInt * 1 ≤ n.toInt * d.toInt * extent shape :=
        Int.mul_le_mul_of_nonneg_left he (by omega)
      have hlt := hq.mp h
      rw [if_neg (by omega)]
    · next h =>
      have hle : n.toInt * d.toInt ≤ limit.toInt := by
        rw [hq] at h
        omega
      have hx : (n * d).toInt = n.toInt * d.toInt :=
        toInt_mul_of_lt (by omega) (Int.lt_of_le_of_lt hle limit.toInt_lt)
      rw [ih ht (by omega) (by omega), hx]

/-- The first `n` elements of a repetition are `n` elements. -/
@[simp]
theorem size_cycle (n : Nat) (data : Array Int64) : (cycle n data).size = n := by
  rw [cycle, Array.size_map, Array.size_range]

/-- Axes of which none is negative or zero are positive. -/
theorem axes_pos_of_not_contains {shape : List Int64} (hn : ∀ d ∈ shape, 0 ≤ d.toInt)
    (hz : ¬ shape.contains 0) : ∀ d ∈ shape, 0 < d.toInt := by
  intro d hd
  have h0 : d.toInt ≠ 0 := by
    intro h0
    rw [← Int64.toInt_zero, Int64.toInt_inj] at h0
    exact hz (List.contains_iff_mem.mpr (h0 ▸ hd))
  have := hn d hd
  omega

/-- What reshape makes of a list of axes, none of them negative. -/
theorem reshape_eq {limit : Int64} {u v : Noun} (hl : 0 < limit.toInt)
    (hs : limit.toInt ≤ storageLimit) (hr : u.rank ≤ 1) (hn : ∀ d ∈ u.data.toList, 0 ≤ d.toInt) :
    u.reshape limit v =
      if limit.toInt < extent u.data.toList then
        .error (.error (.reshapeTooLarge u.data.toList limit))
      else if 0 < extent u.data.toList ∧ v.data.isEmpty then
        .error (.error (.reshapeNothing u.data.toList))
      else .ok ⟨u.data.toList, cycle (extent u.data.toList).toNat v.data⟩ := by
  have hf : u.data.toList.find? (· < 0) = none := find?_negative_eq_none_iff.mpr hn
  have he := extent_nonneg hn
  have hc : (if u.data.toList.contains 0 then some 0 else countWithin limit 1 u.data.toList) =
      if limit.toInt < extent u.data.toList then none
      else some (Int64.ofInt (extent u.data.toList)) := by
    split
    · next hz =>
      rw [extent_eq_zero (List.contains_iff_mem.mp hz), if_neg (by omega)]
      rfl
    · next hz =>
      have hp := axes_pos_of_not_contains hn hz
      rw [countWithin_eq hp (by decide) (by rw [Int64.toInt_one]; omega), Int64.toInt_one,
        Int.one_mul]
      by_cases hlt : limit.toInt < extent u.data.toList
      · rw [if_pos hlt, if_neg (by omega)]
      · rw [if_neg hlt, if_pos (by omega)]
  unfold reshape
  rw [if_neg (by omega)]
  dsimp only
  rw [hf]
  dsimp only
  rw [hc]
  by_cases hlt : limit.toInt < extent u.data.toList
  · rw [if_pos hlt, if_pos hlt]
  · rw [if_neg hlt, if_neg hlt]
    have hlim := limit.toInt_lt
    have hx : (Int64.ofInt (extent u.data.toList)).toInt = extent u.data.toList :=
      Int64.toInt_ofInt_of_le (by omega) (by omega)
    have hst : isStorable (Int64.ofInt (extent u.data.toList)) = true := by
      rw [isStorable, hx, Bool.and_eq_true, decide_eq_true_eq, decide_eq_true_eq]
      omega
    dsimp only
    rw [hst, hx]
    simp only [Int64.lt_iff_toInt_lt, hx, Int64.toInt_zero, Bool.and_eq_true, decide_eq_true_eq,
      Bool.not_true, Bool.false_eq_true, ite_false]

/-- The result of a reshape has the listed axes, whatever the limit. -/
theorem shape_of_reshape {limit : Int64} {u v r : Noun} (h : u.reshape limit v = .ok r) :
    r.shape = u.data.toList := by
  unfold reshape at h
  split at h
  · cases h
  · dsimp only at h
    split at h
    · cases h
    · split at h
      · cases h
      · split at h
        · cases h
        · split at h
          · cases h
          · cases h
            rfl

/-- Reshape ends in an error or a sound noun. -/
theorem reshape_safe {limit : Int64} {bound : Nat} {u v : Noun} (hl : 0 < limit.toInt)
    (hb : limit.toInt ≤ bound) (hs : limit.toInt ≤ storageLimit) :
    SafeOutcome bound (u.reshape limit v) := by
  by_cases hr : 1 < u.rank
  · rw [reshape, if_pos hr]
    exact True.intro
  · cases hf : u.data.toList.find? (· < 0) with
    | some n =>
      unfold reshape
      rw [if_neg hr]
      dsimp only
      rw [hf]
      exact True.intro
    | none =>
      have hn : ∀ d ∈ u.data.toList, 0 ≤ d.toInt := find?_negative_eq_none_iff.mp hf
      have he := extent_nonneg hn
      rw [reshape_eq hl hs (by omega) hn]
      split
      · exact True.intro
      · split
        · exact True.intro
        · refine ⟨?_, fun d hd ↦ hn d (List.mem_of_mem_tail hd), ?_⟩
          · rw [Exact, size, size_cycle]
            exact (Int.toNat_of_nonneg he).symm
          · rw [size, size_cycle]
            omega

/-! ### What reshape accepts -/

/-- The left operand lists no shape: it is no vector, or it has a negative element. -/
def ListsNoShape (u : Noun) : Prop := 1 < u.rank ∨ ∃ d ∈ u.data.toList, d.toInt < 0

/-- The shape that the left operand lists has elements, and more of them than the limit allows. -/
def ExceedsLimit (limit : Int64) (u : Noun) : Prop :=
  0 ∉ u.data.toList ∧ limit.toInt < extent u.data.toList

/-- There is nothing to fill a shape that has elements. -/
def LacksElements (u v : Noun) : Prop := extent u.data.toList ≠ 0 ∧ v.size = 0

instance (u : Noun) : Decidable u.ListsNoShape := inferInstanceAs (Decidable (_ ∨ _))

instance (limit : Int64) (u : Noun) : Decidable (u.ExceedsLimit limit) :=
  inferInstanceAs (Decidable (_ ∧ _))

instance (u v : Noun) : Decidable (u.LacksElements v) := inferInstanceAs (Decidable (_ ∧ _))

section Outcome

variable {limit : Int64} {u v : Noun}

private theorem not_listsNoShape_iff :
    ¬ u.ListsNoShape ↔ u.rank ≤ 1 ∧ ∀ d ∈ u.data.toList, 0 ≤ d.toInt := by
  simp [ListsNoShape]

private theorem reshape_of_listsNoShape (h : u.ListsNoShape) :
    FailsWith .invalidShape (u.reshape limit v) := by
  unfold reshape
  split
  · exact ⟨_, rfl, rfl⟩
  · next hr =>
    obtain ⟨d, hd, hneg⟩ := h.resolve_left hr
    cases hf : u.data.toList.find? (· < 0) with
    | some n => exact ⟨_, by dsimp only; rw [hf], rfl⟩
    | none =>
      have := find?_negative_eq_none_iff.mp hf d hd
      omega

private theorem exceedsLimit_iff (hl : 0 < limit.toInt) :
    u.ExceedsLimit limit ↔ limit.toInt < extent u.data.toList := by
  refine ⟨fun h ↦ h.2, fun h ↦ ⟨fun hz ↦ ?_, h⟩⟩
  rw [extent_eq_zero hz] at h
  omega

private theorem reshape_of_exceedsLimit (hl : 0 < limit.toInt) (hs : limit.toInt ≤ storageLimit)
    (hu : ¬ u.ListsNoShape) (h : u.ExceedsLimit limit) :
    FailsWith .sizeLimitExceeded (u.reshape limit v) := by
  obtain ⟨hr, hn⟩ := not_listsNoShape_iff.mp hu
  rw [reshape_eq hl hs hr hn, if_pos h.2]
  exact ⟨_, rfl, rfl⟩

private theorem reshape_of_lacksElements (hl : 0 < limit.toInt) (hs : limit.toInt ≤ storageLimit)
    (hu : ¬ u.ListsNoShape) (hle : ¬ u.ExceedsLimit limit) (h : u.LacksElements v) :
    FailsWith .invalidArgument (u.reshape limit v) := by
  obtain ⟨hr, hn⟩ := not_listsNoShape_iff.mp hu
  obtain ⟨hne, hv⟩ := h
  have he := extent_nonneg hn
  have hempty : v.data.isEmpty = true := Array.isEmpty_iff_size_eq_zero.mpr hv
  rw [exceedsLimit_iff hl] at hle
  rw [reshape_eq hl hs hr hn, if_neg hle, if_pos ⟨by omega, hempty⟩]
  exact ⟨_, rfl, rfl⟩

/-- The elements of a repetition come round again. -/
theorem getElem?_cycle {n i : Nat} {data : Array Int64} (hi : i < n) (hd : 0 < data.size) :
    (cycle n data)[i]? = data[i % data.size]? := by
  have hm : i % data.size < data.size := Nat.mod_lt i hd
  simp [cycle, hi, Array.getD, hm]

private theorem reshape_of_accepted (hl : 0 < limit.toInt) (hs : limit.toInt ≤ storageLimit)
    (hu : ¬ u.ListsNoShape) (hle : ¬ u.ExceedsLimit limit) (h : ¬ u.LacksElements v) :
    ∃ r, u.reshape limit v = .ok r ∧ r.shape = u.data.toList ∧
      r.size = extent u.data.toList ∧ ∀ i < r.size, r.data[i]? = v.data[i % v.size]? := by
  obtain ⟨hr, hn⟩ := not_listsNoShape_iff.mp hu
  have he := extent_nonneg hn
  have hv : ¬ (0 < extent u.data.toList ∧ v.data.isEmpty = true) := by
    rintro ⟨hpos, hempty⟩
    exact h ⟨by omega, Array.isEmpty_iff_size_eq_zero.mp hempty⟩
  rw [exceedsLimit_iff hl] at hle
  refine ⟨⟨u.data.toList, cycle (extent u.data.toList).toNat v.data⟩, ?_, rfl, ?_, ?_⟩
  · rw [reshape_eq hl hs hr hn, if_neg hle, if_neg hv]
  · rw [size, size_cycle, Int.toNat_of_nonneg he]
  · intro i hi
    rw [size, size_cycle] at hi
    have hpos : 0 < v.data.size := Nat.pos_of_ne_zero fun hz ↦
      hv ⟨by omega, Array.isEmpty_iff_size_eq_zero.mpr hz⟩
    exact getElem?_cycle hi hpos

/-- The kinds of errors that reshape can end in, and when. -/
private theorem reshape_failsWith_iff (hl : 0 < limit.toInt) (hs : limit.toInt ≤ storageLimit)
    {kind : ValueError.Kind} : FailsWith kind (u.reshape limit v) ↔
      (kind = .invalidShape ∧ u.ListsNoShape) ∨
      (kind = .sizeLimitExceeded ∧ ¬ u.ListsNoShape ∧ u.ExceedsLimit limit) ∨
      kind = .invalidArgument ∧ ¬ u.ListsNoShape ∧ ¬ u.ExceedsLimit limit ∧
        u.LacksElements v := by
  by_cases hshape : u.ListsNoShape
  · simp [hshape, (reshape_of_listsNoShape hshape).iff_eq]
  by_cases hlimit : u.ExceedsLimit limit
  · simp [hshape, hlimit, (reshape_of_exceedsLimit hl hs hshape hlimit).iff_eq]
  by_cases hlacks : u.LacksElements v
  · simp [hshape, hlimit, hlacks, (reshape_of_lacksElements hl hs hshape hlimit hlacks).iff_eq]
  · obtain ⟨r, hr, -⟩ := reshape_of_accepted hl hs hshape hlimit hlacks
    simp [hshape, hlimit, hlacks, hr, not_failsWith_ok]

private theorem reshape_eq_ok_iff (hl : 0 < limit.toInt) (hs : limit.toInt ≤ storageLimit) :
    (∃ r, u.reshape limit v = .ok r) ↔
      ¬ u.ListsNoShape ∧ ¬ u.ExceedsLimit limit ∧ ¬ u.LacksElements v := by
  constructor
  · rintro ⟨r, hr⟩
    have hno (kind : ValueError.Kind) : ¬ FailsWith kind (u.reshape limit v) := by
      rw [hr]
      exact not_failsWith_ok
    simp only [reshape_failsWith_iff hl hs] at hno
    have hshape : ¬ u.ListsNoShape := fun h ↦ hno .invalidShape (.inl ⟨rfl, h⟩)
    have hlimit : ¬ u.ExceedsLimit limit := fun h ↦
      hno .sizeLimitExceeded (.inr (.inl ⟨rfl, hshape, h⟩))
    exact ⟨hshape, hlimit, fun h ↦
      hno .invalidArgument (.inr (.inr ⟨rfl, hshape, hlimit, h⟩))⟩
  · rintro ⟨hshape, hlimit, hlacks⟩
    obtain ⟨r, hr, -⟩ := reshape_of_accepted hl hs hshape hlimit hlacks
    exact ⟨r, hr⟩

private theorem reshape_eq_ok_of_perm (hl : 0 < limit.toInt) (hs : limit.toInt ≤ storageLimit)
    {u' : Noun} (hr : u'.shape = u.shape) (hp : u'.data.toList.Perm u.data.toList) :
    (∃ r, u'.reshape limit v = .ok r) ↔ ∃ r, u.reshape limit v = .ok r := by
  rw [reshape_eq_ok_iff hl hs, reshape_eq_ok_iff hl hs]
  simp only [ListsNoShape, ExceedsLimit, LacksElements, rank, hr, hp.mem_iff, extent_perm hp]

/-- As long as counting goes on, the count is the extent of the axes so far. -/
private theorem toInt_of_countWithin (hl : 0 < limit.toInt) {shape : List Int64}
    (hp : ∀ d ∈ shape, 0 < d.toInt) {n : Int64} (h : countWithin limit 1 shape = some n) :
    n.toInt = extent shape := by
  have he := extent_pos hp
  have hlt := limit.toInt_lt
  rw [countWithin_eq hp (by decide) (by rw [Int64.toInt_one]; omega), Int64.toInt_one,
    Int.one_mul] at h
  split at h
  · cases h
    exact Int64.toInt_ofInt_of_le (by omega) (by omega)
  · cases h

/-- Reshape repeats the elements of the right operand up to the exact extent of the listed axes, or
fails with the first of three errors that applies. -/
theorem reshape_exact (hl : 1 ≤ limit.toInt) (hs : limit.toInt ≤ storageLimit) (hu : u.Exact) :
    (FailsWith .invalidShape (u.reshape limit v) ↔ u.ListsNoShape) ∧
    (FailsWith .sizeLimitExceeded (u.reshape limit v) ↔
      ¬ u.ListsNoShape ∧ u.ExceedsLimit limit) ∧
    (FailsWith .invalidArgument (u.reshape limit v) ↔
      ¬ u.ListsNoShape ∧ ¬ u.ExceedsLimit limit ∧ u.LacksElements v) ∧
    (¬ u.ListsNoShape → ¬ u.ExceedsLimit limit → ¬ u.LacksElements v →
      ∃ r, u.reshape limit v = .ok r ∧ r.shape = u.data.toList ∧
        r.size = extent u.data.toList ∧ (∀ i < r.size, r.data[i]? = v.data[i % v.size]?) ∧
        (u.size = 0 → r.rank = 0) ∧ (u.rank = 0 → r.rank = 1)) ∧
    (¬ u.ListsNoShape → 0 ∉ u.data.toList → ∀ axes n, axes <+: u.data.toList →
      countWithin limit 1 axes = some n → n.toInt = extent axes) ∧
    ∀ u' : Noun, u'.shape = u.shape → u'.data.toList.Perm u.data.toList →
      ((∃ r, u'.reshape limit v = .ok r) ↔ ∃ r, u.reshape limit v = .ok r) := by
  have hpos : 0 < limit.toInt := hl
  refine ⟨?_, ?_, ?_, ?_, ?_, fun u' hr hp ↦ reshape_eq_ok_of_perm hpos hs hr hp⟩
  · simp [reshape_failsWith_iff hpos hs]
  · simp [reshape_failsWith_iff hpos hs]
  · simp [reshape_failsWith_iff hpos hs]
  · intro hshape hlimit hlacks
    obtain ⟨r, hr, hrs, hsize, hdata⟩ := reshape_of_accepted hpos hs hshape hlimit hlacks
    have hrank : r.rank = u.size := by
      rw [rank, hrs]
      exact Array.length_toList
    refine ⟨r, hr, hrs, hsize, hdata, fun h ↦ hrank.trans h, fun h ↦ hrank.trans ?_⟩
    have hscalar : u.shape = [] := List.length_eq_zero_iff.mp h
    rw [Exact, hscalar, extent_nil] at hu
    omega
  · intro hshape hz axes n haxes hn
    obtain ⟨-, hnonneg⟩ := not_listsNoShape_iff.mp hshape
    have hall := axes_pos_of_not_contains hnonneg (mt List.contains_iff_mem.mp hz)
    exact toInt_of_countWithin hpos (fun d hd ↦ hall d (haxes.subset hd)) hn

/-- The extent of 4294967296 4294967296 is zero modulo 2^64, and still above the limit. A zero axis
switches the limit off, and 2 2 takes four elements from three. -/
theorem reshape_exact_wrapping :
    FailsWith .sizeLimitExceeded ((vector #[4294967296, 4294967296]).reshape 4194304 (scalar 7)) ∧
    (∃ r, (vector #[9223372036854775807, 0]).reshape 4194304 (vector #[]) = .ok r ∧
      r.shape = [9223372036854775807, 0] ∧ r.size = 0) ∧
    ∃ r, (vector #[2, 2]).reshape 4194304 (vector #[5, 6, 7]) = .ok r ∧ r.shape = [2, 2] ∧
      r.data[3]? = some 5 := by
  have h (xs : Array Int64) (v : Noun) (hx : (vector xs).Exact) :=
    @reshape_exact 4194304 (vector xs) v (by decide) (by decide) hx
  refine ⟨?_, ?_, ?_⟩
  · exact (h #[4294967296, 4294967296] (scalar 7) rfl).2.1.mpr (by decide)
  · obtain ⟨r, hr, hshape, hsize, -⟩ := (h #[9223372036854775807, 0] (vector #[]) rfl).2.2.2.1
      (by decide) (by decide) (by decide)
    exact ⟨r, hr, hshape, Int.ofNat_inj.mp hsize⟩
  · obtain ⟨r, hr, hshape, hsize, hdata, -⟩ := (h #[2, 2] (vector #[5, 6, 7]) rfl).2.2.2.1
      (by decide) (by decide) (by decide)
    have hfour : r.size = 4 := Int.ofNat_inj.mp hsize
    exact ⟨r, hr, hshape, hdata 3 (by omega)⟩

end Outcome

end Ravel.Noun
