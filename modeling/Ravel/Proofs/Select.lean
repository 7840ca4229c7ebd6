import Ravel.Proofs.Extent

/-!
# Selecting items

`u { v` asks for as many elements as `u` has times the extent of an item of `v`. It counts them in
64-bit integers. The count is exact for every sound noun with elements; only for a noun without
items, whose items may be of any extent, it may wrap. If it wraps to a negative number the verb
faults (`select_fault`); in all other cases it ends in an error or a sound noun (`select_safe`). A
count that is a 64-bit integer is exact, and so is the selection then (`select_exact`).
-/

namespace Ravel.Noun

/-- A position that no item is at. -/
def isMissing (items k : Int64) : Bool := k < 0 || items ≤ k

/-- The item at a position: so many elements after those of the items before it. -/
def itemAt (itemSize : Nat) (data : Array Int64) (k : Int64) : List Int64 :=
  (data.toList.drop (k.toInt.toNat * itemSize)).take itemSize

/-- The exact count of the elements that `u { v` asks for is negative as a 64-bit integer. -/
def SelectOverflows (u v : Noun) : Prop :=
  0x8000000000000000 ≤ ((u.size : Int) * extent v.itemShape) % 0x10000000000000000

section Items

variable {items itemSize : Int64} {data : Array Int64}

/-- A position that is not missing lies between 0 and the number of items. -/
theorem isMissing_eq_false_iff {k : Int64} :
    isMissing items k = false ↔ 0 ≤ k.toInt ∧ k.toInt < items.toInt := by
  rw [isMissing, Bool.or_eq_false_iff, decide_eq_false_iff_not, decide_eq_false_iff_not,
    Int64.lt_iff_toInt_lt, Int64.le_iff_toInt_le, Int64.toInt_zero]
  omega

private theorem mul_add_le_of_not_isMissing {k : Int64} {n : Int} {size : Nat} (hz : 0 ≤ n)
    (hx : items.toInt * n = size) (hk : isMissing items k = false) : k.toInt * n + n ≤ size := by
  obtain ⟨h0, hlt⟩ := isMissing_eq_false_iff.mp hk
  have hm : (k.toInt + 1) * n ≤ items.toInt * n :=
    Int.mul_le_mul_of_nonneg_right (by omega) hz
  rw [Int.add_mul, Int.one_mul] at hm
  omega

/-- The item at a position that is not missing is a section of the elements. -/
private theorem sectionOf_item {k : Int64} (hz : 0 ≤ itemSize.toInt)
    (hx : items.toInt * itemSize.toInt = data.size) (hs : data.size < 0x8000000000000000)
    (hk : isMissing items k = false) :
    sectionOf data (k * itemSize) (k * itemSize + itemSize) =
      .ok (itemAt itemSize.toInt.toNat data k).toArray := by
  have hle := mul_add_le_of_not_isMissing hz hx hk
  obtain ⟨h0, -⟩ := isMissing_eq_false_iff.mp hk
  have hp : 0 ≤ k.toInt * itemSize.toInt := Int.mul_nonneg h0 hz
  have hstart : (k * itemSize).toInt = k.toInt * itemSize.toInt :=
    toInt_mul_of_lt hp (by omega)
  have hstop : (k * itemSize + itemSize).toInt = k.toInt * itemSize.toInt + itemSize.toInt := by
    rw [toInt_add_of_lt (by omega) (by omega), hstart]
  unfold sectionOf
  simp only [Int64.lt_iff_toInt_lt, hstart, hstop, Int64.toInt_zero, Bool.or_eq_true,
    decide_eq_true_eq]
  rw [if_neg (by omega), if_neg (by omega)]
  congr 1
  have hn : (k.toInt * itemSize.toInt).toNat = k.toInt.toNat * itemSize.toInt.toNat :=
    Int.toNat_mul h0 hz
  have hm : (k.toInt * itemSize.toInt + itemSize.toInt).toNat =
      k.toInt.toNat * itemSize.toInt.toNat + itemSize.toInt.toNat := by
    rw [Int.toNat_add hp hz, hn]
  rw [← Array.toList_inj, Array.toList_extract, List.extract_eq_take_drop, hm, hn,
    Nat.add_sub_cancel_left]
  rfl

/-- With an exact size of items, collecting them gives the items at all positions in order, or
names the first position that is missing. -/
private theorem collectItems_eq (hz : 0 ≤ itemSize.toInt)
    (hx : items.toInt * itemSize.toInt = data.size) (hs : data.size < 0x8000000000000000)
    (collected : Array Int64) (ks : List Int64) :
    collectItems items itemSize data collected ks =
      match ks.find? (isMissing items) with
      | some k => .error (.error (.itemOutOfRange k items))
      | none => .ok (collected ++ (ks.flatMap (itemAt itemSize.toInt.toNat data)).toArray) := by
  induction ks generalizing collected with
  | nil => simp [collectItems]
  | cons k rest ih =>
    rw [collectItems, List.find?_cons]
    cases hk : isMissing items k with
    | true =>
      rw [isMissing] at hk
      rw [if_pos hk]
    | false =>
      have hn : ¬ (decide (k < 0) || decide (items ≤ k)) = true := by
        rw [← isMissing, hk]
        exact Bool.false_ne_true
      rw [if_neg hn]
      dsimp only
      rw [sectionOf_item hz hx hs hk]
      dsimp only
      rw [ih]
      simp only [List.flatMap_cons, List.append_toArray, Array.append_assoc]

/-- Without items the first position is missing. -/
private theorem collectItems_of_no_items (h : items.toInt = 0) (k : Int64) (rest : List Int64) :
    collectItems items itemSize data #[] (k :: rest) =
      .error (.error (.itemOutOfRange k items)) := by
  have hk : isMissing items k = true := by
    cases hm : isMissing items k with
    | true => rfl
    | false =>
      have := isMissing_eq_false_iff.mp hm
      omega
  rw [isMissing] at hk
  rw [collectItems, if_pos hk]

private theorem length_itemAt {k : Int64} (hz : 0 ≤ itemSize.toInt)
    (hx : items.toInt * itemSize.toInt = data.size) (hk : isMissing items k = false) :
    (itemAt itemSize.toInt.toNat data k).length = itemSize.toInt.toNat := by
  have hle := mul_add_le_of_not_isMissing hz hx hk
  obtain ⟨h0, -⟩ := isMissing_eq_false_iff.mp hk
  have hp := Int.mul_nonneg h0 hz
  rw [itemAt, List.length_take, List.length_drop, Array.length_toList, ← Int.toNat_mul h0 hz]
  omega

/-- Items at positions that are not missing have as many elements as positions times an item. -/
private theorem length_flatMap_itemAt (hz : 0 ≤ itemSize.toInt)
    (hx : items.toInt * itemSize.toInt = data.size) {ks : List Int64}
    (hk : ks.find? (isMissing items) = none) :
    (ks.flatMap (itemAt itemSize.toInt.toNat data)).length =
      ks.length * itemSize.toInt.toNat := by
  induction ks with
  | nil => rw [List.flatMap_nil, List.length_nil, Nat.zero_mul]
  | cons k rest ih =>
    rw [List.find?_cons] at hk
    cases hm : isMissing items k with
    | true => rw [hm] at hk; cases hk
    | false =>
      rw [hm] at hk
      rw [List.flatMap_cons, List.length_append, length_itemAt hz hx hm, ih hk, List.length_cons,
        Nat.succ_mul, Nat.add_comm]

end Items

section Select

variable {limit : Int64} {u v : Noun}

private theorem toInt_count (u v : Noun) : (Int64.ofNat u.size * product v.itemShape).toInt =
    ((u.size : Int) * extent v.itemShape).bmod 0x10000000000000000 := by
  rw [Int64.toInt_mul, Int64.toInt_ofNat', toInt_product]
  exact Int.bmod_mul_bmod.trans Int.mul_bmod_bmod

private theorem selectOverflows_iff : SelectOverflows u v ↔
    ((u.size : Int) * extent v.itemShape).bmod 0x10000000000000000 < 0 := by
  unfold SelectOverflows Int.bmod
  dsimp only
  split <;> omega

/-- An exact noun has the elements of the items up to a position that is not missing. -/
theorem Exact.toNat_mul_add_le (h : v.Exact) (hz : 0 ≤ extent v.itemShape) {k : Int64}
    (hk : isMissing v.items k = false) :
    k.toInt.toNat * (extent v.itemShape).toNat + (extent v.itemShape).toNat ≤ v.size := by
  obtain ⟨h0, -⟩ := isMissing_eq_false_iff.mp hk
  have hle := mul_add_le_of_not_isMissing hz h.items_mul hk
  have hm : 0 ≤ k.toInt * extent v.itemShape := Int.mul_nonneg h0 hz
  rw [← Int.toNat_mul h0 hz]
  omega

/-- Selecting by the residue `n` of the exact count, under a limit that storage can be asked for. -/
theorem select_eq_of_count (hl : limit.toInt ≤ storageLimit) {n : Int}
    (hn : ((u.size : Int) * extent v.itemShape).bmod 0x10000000000000000 = n) :
    u.select limit v =
      if limit.toInt < n then
        .error (.error (.tooManyElements DyadicForm.from.name
          (Int64.ofNat u.size * product v.itemShape) limit))
      else if n < 0 then .error (.fault .capacityOutOfRange)
      else match collectItems v.items (product v.itemShape) v.data #[] u.data.toList with
        | .error e => .error e
        | .ok data => .ok ⟨u.shape ++ v.itemShape, data⟩ := by
  have hc := toInt_count u v
  rw [hn] at hc
  unfold select checkCount
  simp only [Int64.lt_iff_toInt_lt, hc]
  by_cases hlt : limit.toInt < n
  · rw [if_pos hlt, if_pos hlt]
    rfl
  · rw [if_neg hlt, if_neg hlt]
    have hst : isStorable (Int64.ofNat u.size * product v.itemShape) = decide (0 ≤ n) := by
      rw [isStorable, hc, Bool.and_eq_left_iff_imp]
      intro _
      rw [decide_eq_true_eq]
      omega
    by_cases h0 : n < 0
    · rw [if_pos h0, hst, decide_eq_false (by omega)]
      rfl
    · rw [if_neg h0, hst, decide_eq_true (by omega)]
      cases collectItems v.items (product v.itemShape) v.data #[] u.data.toList <;> rfl

/-- Selecting faults if the count overflows. -/
theorem select_fault (hl : limit.toInt ≤ storageLimit) (h0 : 0 ≤ limit.toInt)
    (h : SelectOverflows u v) : u.select limit v = .error (.fault .capacityOutOfRange) := by
  have hn := selectOverflows_iff.mp h
  rw [select_eq_of_count hl rfl, if_neg (by omega), if_pos hn]

/-- What selecting gives if the count and the size of an item are 64-bit integers. -/
theorem select_eq (hl : limit.toInt ≤ storageLimit) (hv : v.Exact)
    (hs : v.size < 0x8000000000000000) (h0 : 0 ≤ extent v.itemShape)
    (he : extent v.itemShape < 0x8000000000000000)
    (hc : (u.size : Int) * extent v.itemShape < 0x8000000000000000) :
    u.select limit v =
      if limit.toInt < u.size * extent v.itemShape then
        .error (.error (.tooManyElements DyadicForm.from.name
          (Int64.ofNat u.size * product v.itemShape) limit))
      else match u.data.toList.find? (isMissing v.items) with
        | some k => .error (.error (.itemOutOfRange k v.items))
        | none => .ok ⟨u.shape ++ v.itemShape,
            (u.data.toList.flatMap (itemAt (extent v.itemShape).toNat v.data)).toArray⟩ := by
  have hm : 0 ≤ (u.size : Int) * extent v.itemShape := Int.mul_nonneg (by omega) h0
  have hp := toInt_product_of_lt h0 he
  have hx : v.items.toInt * (product v.itemShape).toInt = v.data.size := by
    rw [hp]
    exact hv.items_mul
  rw [select_eq_of_count hl (Int.bmod_eq_of_le (by omega) (by omega)),
    collectItems_eq (by omega) hx hs, hp, if_neg (by omega : ¬ (u.size : Int) * _ < 0)]
  split
  · rfl
  · cases u.data.toList.find? (isMissing v.items) with
    | some k => rfl
    | none => simp only [Array.empty_append]

/-- Selecting from a noun without items whose count does not overflow gives no elements. -/
private theorem select_of_no_items (hl : limit.toInt ≤ storageLimit) (hi : v.items.toInt = 0)
    (h : ¬ SelectOverflows u v) :
    (∃ e, u.select limit v = .error (.error e)) ∨
      u.data = #[] ∧ u.select limit v = .ok ⟨u.shape ++ v.itemShape, #[]⟩ := by
  rw [selectOverflows_iff] at h
  rw [select_eq_of_count hl rfl, if_neg h]
  split
  · exact .inl ⟨_, rfl⟩
  · cases hd : u.data.toList with
    | nil => exact .inr ⟨Array.toList_eq_nil_iff.mp hd, rfl⟩
    | cons k rest =>
      rw [collectItems_of_no_items hi]
      exact .inl ⟨_, rfl⟩

/-- No axis after the first is negative in the shape of a selection. -/
theorem trailing_append (hu : ∀ d ∈ u.itemShape, 0 ≤ d.toInt)
    (hv : ∀ d ∈ v.itemShape, 0 ≤ d.toInt) :
    ∀ d ∈ (u.shape ++ v.itemShape).tail, 0 ≤ d.toInt := by
  intro d hd
  rw [List.tail_append] at hd
  split at hd
  · exact hv d (List.mem_of_mem_tail hd)
  · rcases List.mem_append.mp hd with hd | hd
    · exact hu d hd
    · exact hv d hd

/-- An item of a sound noun that has items is within the bound. -/
private theorem Sound.extent_itemShape_le_bound {bound : Nat} (hv : v.Sound bound)
    (hi : v.items.toInt ≠ 0) : extent v.itemShape ≤ bound := by
  by_cases hn : 0 < v.size
  · have := hv.extent_itemShape_le hn
    have := hv.size_le
    omega
  · have hm := hv.exact.items_mul
    have hz : extent v.itemShape = 0 :=
      (Int.mul_eq_zero.mp (by omega : v.items.toInt * extent v.itemShape = 0)).resolve_left hi
    omega

/-- Unless the count overflows, selecting by a sound noun from a sound noun ends in an error or a
sound noun. -/
theorem select_safe {bound : Nat} (hb : limit.toInt ≤ bound) (hB : bound ≤ 0x80000000)
    (hu : u.Sound bound) (hv : v.Sound bound) (h : ¬ SelectOverflows u v) :
    SafeOutcome bound (u.select limit v) := by
  have hl : limit.toInt ≤ storageLimit := by
    rw [storageLimit]
    omega
  have htrail := trailing_append hu.trailing hv.trailing
  have hvx := hv.exact.items_mul
  have h0 := extent_nonneg hv.trailing
  by_cases hi : v.items.toInt = 0
  · rcases select_of_no_items hl hi h with ⟨e, he⟩ | ⟨hd, he⟩
    · rw [he]
      exact True.intro
    · rw [he]
      have hz : extent u.shape = 0 := by
        have := hu.exact
        rw [Exact, size, hd] at this
        exact this
      refine ⟨?_, htrail, Nat.zero_le _⟩
      rw [Exact, extent_append, hz, Int.zero_mul]
      rfl
  · -- the items are so few and so small that every count is exact
    have he := hv.extent_itemShape_le_bound hi
    have hc : (u.size : Int) * extent v.itemShape ≤ 0x80000000 * 0x80000000 := by
      have := hu.size_le
      exact Int.mul_le_mul (by omega) (by omega) h0 (by omega)
    have hs := hv.size_le
    rw [select_eq hl hv.exact (by omega) h0 (by omega) (by omega)]
    split
    · exact True.intro
    · next hle =>
      cases hf : u.data.toList.find? (isMissing v.items) with
      | some k => exact True.intro
      | none =>
        have hp := toInt_product_of_lt h0 (by omega)
        have hsize : (u.data.toList.flatMap (itemAt (extent v.itemShape).toNat v.data)).length =
            u.size * (extent v.itemShape).toNat := by
          rw [← hp]
          exact length_flatMap_itemAt (by omega) (by rw [hp]; exact hvx) hf
        have hcount : ((u.size * (extent v.itemShape).toNat : Nat) : Int) =
            u.size * extent v.itemShape := by
          rw [Int.natCast_mul, Int.toNat_of_nonneg h0]
        refine ⟨?_, htrail, ?_⟩
        · rw [Exact, extent_append, hu.exact, ← hcount, ← hsize]
          rfl
        · rw [size, List.size_toArray, hsize]
          omega

/-- Of pieces of one length in a row, the `i`-th stands after `i` times that length. -/
private theorem take_drop_flatMap {α β : Type} {f : α → List β} {n : Nat} {xs : List α}
    (hf : ∀ x ∈ xs, (f x).length = n) {i : Nat} {x : α} (hx : xs[i]? = some x) :
    ((xs.flatMap f).drop (i * n)).take n = f x := by
  induction xs generalizing i with
  | nil => cases hx
  | cons y xs ih =>
    obtain ⟨hy, hxs⟩ := List.forall_mem_cons.mp hf
    rw [List.flatMap_cons]
    cases i with
    | zero =>
      rw [List.getElem?_cons_zero, Option.some_inj] at hx
      rw [Nat.zero_mul, List.drop_zero, List.take_left' hy, hx]
    | succ i =>
      rw [List.getElem?_cons_succ] at hx
      rw [Nat.succ_mul, Nat.add_comm, ← List.drop_drop, List.drop_left' hy]
      exact ih hxs hx

/-- All that `u { v` counts is a 64-bit integer: the elements of `v`, those of an item, and those of
the result. -/
structure CountsFit (u v : Noun) : Prop where
  exact : v.Exact
  nonneg : 0 ≤ extent v.itemShape
  size_lt : v.size < 0x8000000000000000
  item_lt : extent v.itemShape < 0x8000000000000000
  count_lt : (u.size : Int) * extent v.itemShape < 0x8000000000000000

namespace CountsFit

private theorem toInt_product (h : CountsFit u v) :
    (product v.itemShape).toInt = extent v.itemShape :=
  toInt_product_of_lt h.nonneg h.item_lt

private theorem items_mul_product (h : CountsFit u v) :
    v.items.toInt * (product v.itemShape).toInt = v.data.size := by
  rw [h.toInt_product]
  exact h.exact.items_mul

private theorem sectionOf_eq (h : CountsFit u v) {k : Int64} (hk : isMissing v.items k = false) :
    k.toInt.toNat * (extent v.itemShape).toNat + (extent v.itemShape).toNat ≤ v.size ∧
    sectionOf v.data (k * product v.itemShape) (k * product v.itemShape + product v.itemShape) =
      .ok (itemAt (extent v.itemShape).toNat v.data k).toArray := by
  have hp := h.toInt_product
  have hz : 0 ≤ (product v.itemShape).toInt := by rw [hp]; exact h.nonneg
  refine ⟨h.exact.toNat_mul_add_le h.nonneg hk, ?_⟩
  rw [sectionOf_item hz h.items_mul_product h.size_lt hk, hp]

private theorem select_of_lt (h : CountsFit u v) (hl : limit.toInt ≤ storageLimit)
    (hlt : limit.toInt < u.size * extent v.itemShape) :
    FailsWith .sizeLimitExceeded (u.select limit v) := by
  rw [select_eq hl h.exact h.size_lt h.nonneg h.item_lt h.count_lt, if_pos hlt]
  exact ⟨_, rfl, rfl⟩

private theorem select_of_missing (h : CountsFit u v) (hl : limit.toInt ≤ storageLimit)
    (hle : u.size * extent v.itemShape ≤ limit.toInt) {k : Int64}
    (hk : u.data.toList.find? (isMissing v.items) = some k) :
    u.select limit v = .error (.error (.itemOutOfRange k v.items)) := by
  rw [select_eq hl h.exact h.size_lt h.nonneg h.item_lt h.count_lt, if_neg (Int.not_lt.mpr hle),
    hk]

/-- If no position is missing the result consists of the items in order. -/
private theorem select_of_present (h : CountsFit u v) (hl : limit.toInt ≤ storageLimit)
    (hle : u.size * extent v.itemShape ≤ limit.toInt)
    (hk : u.data.toList.find? (isMissing v.items) = none) :
    ∃ r, u.select limit v = .ok r ∧ r.shape = u.shape ++ v.itemShape ∧
      r.size = u.size * (extent v.itemShape).toNat ∧ ∀ i k, u.data[i]? = some k →
        (r.data.toList.drop (i * (extent v.itemShape).toNat)).take (extent v.itemShape).toNat =
          itemAt (extent v.itemShape).toNat v.data k := by
  have hp := h.toInt_product
  have hz : 0 ≤ (product v.itemShape).toInt := by rw [hp]; exact h.nonneg
  refine ⟨⟨u.shape ++ v.itemShape,
    (u.data.toList.flatMap (itemAt (extent v.itemShape).toNat v.data)).toArray⟩, ?_, rfl, ?_,
    fun i k hi ↦ ?_⟩
  · rw [select_eq hl h.exact h.size_lt h.nonneg h.item_lt h.count_lt,
      if_neg (Int.not_lt.mpr hle), hk]
  · have hlength := length_flatMap_itemAt hz h.items_mul_product hk
    rw [hp] at hlength
    exact hlength
  · refine take_drop_flatMap (fun j hj ↦ ?_) (by rw [Array.getElem?_toList]; exact hi)
    have hj' : isMissing v.items j = false := by simpa using List.find?_eq_none.mp hk j hj
    have hlength := length_itemAt hz h.items_mul_product hj'
    rw [hp] at hlength
    exact hlength

/-- The kinds of errors that a selection can end in, and when. -/
theorem select_failsWith_iff (h : CountsFit u v) (hl : limit.toInt ≤ storageLimit)
    {kind : ValueError.Kind} : FailsWith kind (u.select limit v) ↔
      (kind = .sizeLimitExceeded ∧ limit.toInt < u.size * extent v.itemShape) ∨
      (kind = .indexOutOfRange ∧ u.size * extent v.itemShape ≤ limit.toInt ∧
        ∃ k ∈ u.data.toList, isMissing v.items k) := by
  by_cases hlt : limit.toInt < u.size * extent v.itemShape
  · simp [hlt, Int.not_le.mpr hlt, (h.select_of_lt hl hlt).iff_eq]
  have hle := Int.not_lt.mp hlt
  cases hk : u.data.toList.find? (isMissing v.items) with
  | some k =>
    have hfails : FailsWith .indexOutOfRange (u.select limit v) :=
      ⟨_, h.select_of_missing hl hle hk, rfl⟩
    have hmissing : ∃ k ∈ u.data.toList, isMissing v.items k :=
      ⟨k, List.mem_of_find?_eq_some hk, List.find?_some hk⟩
    simp only [hfails.iff_eq, hlt, hle, hmissing, and_false, and_true, false_or]
  | none =>
    obtain ⟨r, hr, -⟩ := h.select_of_present hl hle hk
    have hmissing : ¬ ∃ k ∈ u.data.toList, isMissing v.items k := by
      rintro ⟨k, hmem, hk'⟩
      exact List.find?_eq_none.mp hk k hmem hk'
    simp only [hr, not_failsWith_ok, hlt, hmissing, and_false, or_false]

private theorem select_ne_fault (h : CountsFit u v) (hl : limit.toInt ≤ storageLimit) (f : Fault) :
    u.select limit v ≠ .error (.fault f) := by
  rw [select_eq hl h.exact h.size_lt h.nonneg h.item_lt h.count_lt]
  split
  · nofun
  · split <;> nofun

end CountsFit

/-- Selecting gives the items at the positions one after the other, or fails for the count of
elements and else for the first position that is missing. -/
theorem select_exact (hl : limit.toInt ≤ storageLimit) (hv : v.Exact)
    (hn : ∀ d ∈ v.shape, 0 ≤ d.toInt) (hs : v.size < 0x8000000000000000)
    (he : extent v.itemShape < 0x8000000000000000)
    (hc : (u.size : Int) * extent v.itemShape < 0x8000000000000000) :
    let itemSize := (extent v.itemShape).toNat
    let fits := (u.size : Int) * extent v.itemShape ≤ limit.toInt
    (FailsWith .sizeLimitExceeded (u.select limit v) ↔ ¬ fits) ∧
    (FailsWith .indexOutOfRange (u.select limit v) ↔
      fits ∧ ∃ k ∈ u.data.toList, isMissing v.items k) ∧
    (∀ before k after, u.data.toList = before ++ k :: after →
      (∀ j ∈ before, isMissing v.items j = false) → isMissing v.items k → fits →
        u.select limit v = .error (.error (.itemOutOfRange k v.items))) ∧
    (fits → (∀ k ∈ u.data.toList, isMissing v.items k = false) →
      ∃ r, u.select limit v = .ok r ∧ r.shape = u.shape ++ v.itemShape ∧
        r.size = u.size * itemSize ∧ ∀ i k, u.data[i]? = some k →
          (r.data.toList.drop (i * itemSize)).take itemSize =
            (v.data.toList.drop (k.toInt.toNat * itemSize)).take itemSize) ∧
    (∀ f, u.select limit v ≠ .error (.fault f)) ∧
    ∀ k, isMissing v.items k = false →
      k.toInt.toNat * itemSize + itemSize ≤ v.size ∧
      sectionOf v.data (k * product v.itemShape) (k * product v.itemShape + product v.itemShape) =
        .ok ((v.data.toList.drop (k.toInt.toNat * itemSize)).take itemSize).toArray := by
  intro itemSize fits
  have h : CountsFit u v :=
    ⟨hv, extent_nonneg fun d hd ↦ hn d (List.mem_of_mem_tail hd), hs, he, hc⟩
  refine ⟨?_, ?_, ?_, ?_, h.select_ne_fault hl, fun k hk ↦ h.sectionOf_eq hk⟩
  · simp [h.select_failsWith_iff hl, fits]
  · simp [h.select_failsWith_iff hl, fits]
  · intro before k after hdata hbefore hk hfits
    refine h.select_of_missing hl hfits (List.find?_eq_some_iff_append.mpr ?_)
    exact ⟨hk, before, after, hdata, fun j hj ↦ by rw [hbefore j hj]; rfl⟩
  · intro hfits hk
    refine h.select_of_present hl hfits (List.find?_eq_none.mpr fun k hmem ↦ ?_)
    rw [hk k hmem]
    exact Bool.false_ne_true

/-- The items 1 and 0 of a matrix of two rows; a row is a block of three elements. Position 2 is
missing, unless the limit is met first. -/
theorem select_exact_rows :
    let rows : Noun := ⟨[2, 3], #[10, 11, 12, 20, 21, 22]⟩
    (∃ r, (vector #[1, 0]).select 6 rows = .ok r ∧ r.shape = [2, 3] ∧ r.size = 6 ∧
      (r.data.toList.drop 3).take 3 = [10, 11, 12]) ∧
    (vector #[1, 2, 3]).select 9 rows = .error (.error (.itemOutOfRange 2 2)) ∧
    FailsWith .sizeLimitExceeded ((vector #[1, 2, 3]).select 8 rows) := by
  intro rows
  have haxes : ∀ d ∈ rows.shape, 0 ≤ d.toInt := by simp [rows]
  have h (xs : Array Int64) (limit : Int64) (hl : limit.toInt ≤ storageLimit)
      (hc : ((vector xs).size : Int) * extent rows.itemShape < 0x8000000000000000) :=
    select_exact hl (u := vector xs) (v := rows) rfl haxes (by decide) (by decide) hc
  refine ⟨?_, ?_, ?_⟩
  · obtain ⟨r, hr, hshape, hsize, hdata⟩ := (h #[1, 0] 6 (by decide) (by decide)).2.2.2.1
      (by decide) (by simp [vector, items, rows, isMissing])
    exact ⟨r, hr, hshape, hsize, hdata 1 0 rfl⟩
  · exact (h #[1, 2, 3] 9 (by decide) (by decide)).2.2.1 [1] 2 [3] rfl
      (by simp [items, rows, isMissing]) rfl (by decide)
  · exact (h #[1, 2, 3] 8 (by decide) (by decide)).1.mpr (by decide)

end Select

end Ravel.Noun
