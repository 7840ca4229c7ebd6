import Ravel.Proofs.Tally

/-!
# Joined nouns

Append joins nouns whose items have one shape if the limit admits the elements of both
(`Noun.append_eq_ok_iff`). Joining is associative, sums of first axes that wrap included, and a part
is within every limit that the whole is within: of three nouns in a row it does not matter which two
are appended first (`Noun.append_associative`). The items of an append are those of the first noun
and then those of the second, in the elements too: a position selects from one of the two
(`Noun.select_append`).
-/

namespace Ravel

/-- The source `(a),(b),(c)`. -/
def Text.appendOfThree (a b c : Text) : Text :=
  Expr.parenthesized a ++ 44 :: (Expr.parenthesized b ++ 44 :: Expr.parenthesized c)

/-- The source `((a),(b)),(c)`. -/
def Text.appendToAppend (a b c : Text) : Text :=
  Expr.parenthesized (Expr.parenthesized a ++ 44 :: Expr.parenthesized b) ++
    44 :: Expr.parenthesized c

namespace Noun

variable {limit : Int64} {u v w r : Noun}

/-! ### Association -/

private theorem Exact.product_eq (h : u.Exact) : product u.shape = Int64.ofNat u.size := by
  rw [← Int64.toInt_inj, toInt_product, h, Int64.toInt_ofNat']

/-- Append joins nouns exactly if their items have one shape and the limit admits the elements of
both. -/
theorem append_eq_ok_iff (hu : product u.shape = Int64.ofNat u.size)
    (hv : product v.shape = Int64.ofNat v.size) (hs : u.size + v.size < 0x8000000000000000) :
    u.append limit v = .ok r ↔
      v.itemShape = u.itemShape ∧ (u.size + v.size : Int) ≤ limit.toInt ∧ r = u.joined v := by
  rw [append_eq hs]
  cases hshape : appendShape u v with
  | error e =>
    refine ⟨nofun, fun h ↦ ?_⟩
    rw [(appendShape_eq_ok_iff hu hv).mpr ⟨h.1, rfl⟩] at hshape
    cases hshape
  | ok shape =>
    obtain ⟨hitem, rfl⟩ := (appendShape_eq_ok_iff hu hv).mp hshape
    dsimp only
    split
    · next hlt => exact ⟨nofun, fun h ↦ absurd h.2.1 (Int.not_le.mpr hlt)⟩
    · next hle =>
      rw [Except.ok.injEq, eq_comm]
      exact ⟨fun h ↦ ⟨hitem, Int.not_lt.mp hle, h⟩, fun h ↦ h.2.2⟩

section Association

variable (hu : product u.shape = Int64.ofNat u.size) (hv : product v.shape = Int64.ofNat v.size)
  (hw : product w.shape = Int64.ofNat w.size)
  (hs : u.size + v.size + w.size < 0x8000000000000000)
include hu hv hw hs

/-- Three nouns are appended from the left if their items have one shape and all three are within
the limit. -/
private theorem append_append_left_eq_ok_iff :
    (∃ a, u.append limit v = .ok a ∧ a.append limit w = .ok r) ↔
      (v.itemShape = u.itemShape ∧ w.itemShape = u.itemShape) ∧
        (u.size + v.size + w.size : Int) ≤ limit.toInt ∧ r = (u.joined v).joined w := by
  constructor
  · rintro ⟨a, ha, hr⟩
    obtain ⟨hvu, -, rfl⟩ := (append_eq_ok_iff hu hv (by omega)).mp ha
    obtain ⟨hwu, hle, hr⟩ := (append_eq_ok_iff (product_joined hu hv hvu) hw
      (by rw [size_joined]; omega)).mp hr
    rw [size_joined] at hle
    exact ⟨⟨hvu, hwu⟩, by omega, hr⟩
  · rintro ⟨⟨hvu, hwu⟩, hle, hr⟩
    refine ⟨u.joined v, ?_, ?_⟩
    · exact (append_eq_ok_iff hu hv (by omega)).mpr ⟨hvu, by omega, rfl⟩
    · refine (append_eq_ok_iff (product_joined hu hv hvu) hw (by rw [size_joined]; omega)).mpr
        ⟨hwu, ?_, hr⟩
      rw [size_joined]
      omega

/-- They are appended from the right under the same condition: the last two are within the limit if
all three are. -/
private theorem append_append_right_eq_ok_iff :
    (∃ b, v.append limit w = .ok b ∧ u.append limit b = .ok r) ↔
      (v.itemShape = u.itemShape ∧ w.itemShape = u.itemShape) ∧
        (u.size + v.size + w.size : Int) ≤ limit.toInt ∧ r = u.joined (v.joined w) := by
  constructor
  · rintro ⟨b, hb, hr⟩
    obtain ⟨hwv, -, rfl⟩ := (append_eq_ok_iff hv hw (by omega)).mp hb
    obtain ⟨hvu, hle, hr⟩ := (append_eq_ok_iff hu (product_joined hv hw hwv)
      (by rw [size_joined]; omega)).mp hr
    rw [size_joined] at hle
    exact ⟨⟨hvu, hwv.trans hvu⟩, by omega, hr⟩
  · rintro ⟨⟨hvu, hwu⟩, hle, hr⟩
    have hwv : w.itemShape = v.itemShape := hwu.trans hvu.symm
    refine ⟨v.joined w, ?_, ?_⟩
    · exact (append_eq_ok_iff hv hw (by omega)).mpr ⟨hwv, by omega, rfl⟩
    · refine (append_eq_ok_iff hu (product_joined hv hw hwv) (by rw [size_joined]; omega)).mpr
        ⟨hvu, ?_, hr⟩
      rw [size_joined]
      omega

private theorem append_append_iff :
    (∃ a, u.append limit v = .ok a ∧ a.append limit w = .ok r) ↔
      ∃ b, v.append limit w = .ok b ∧ u.append limit b = .ok r := by
  rw [append_append_left_eq_ok_iff hu hv hw hs, append_append_right_eq_ok_iff hu hv hw hs,
    joined_assoc]

end Association

private theorem appendShape_of_rank_le_one (hu : u.rank ≤ 1) (hv : v.rank ≤ 1) :
    appendShape u v = .ok [Int64.ofNat (u.size + v.size)] := by
  unfold appendShape
  rw [shapeAsItems_eq, shapeAsItems_eq, itemShape_of_rank_le_one hu, itemShape_of_rank_le_one hv]

/-- On either side of a scalar or a vector the empty vector adds nothing. -/
private theorem append_empty (hr : u.rank ≤ 1) (hl : (u.size : Int) ≤ limit.toInt) :
    u.append limit (vector #[]) = .ok u.ravel ∧ (vector #[]).append limit u = .ok u.ravel := by
  have hlt := limit.toInt_lt
  have hempty : (vector #[]).size = 0 := rfl
  constructor
  · rw [append_eq (by omega), appendShape_of_rank_le_one hr Nat.le.refl]
    dsimp only
    rw [if_neg (by omega), hempty, Nat.add_zero, vector, Array.append_empty]
    rfl
  · rw [append_eq (by omega), appendShape_of_rank_le_one Nat.le.refl hr]
    dsimp only
    rw [if_neg (by omega), hempty, Nat.zero_add, vector, Array.empty_append]
    rfl

end Noun

/-! ### Sources in a row -/

/-- An append of two expressions has the value that the append of their values is. -/
private theorem Expr.value_append_eq_ok_iff {limit : Int64} {left right : Expr} {r : Noun} :
    (Expr.dyad left 44 right).value limit = .ok r ↔
      ∃ u v, left.value limit = .ok u ∧ right.value limit = .ok v ∧ u.append limit v = .ok r := by
  rw [value]
  cases right.value limit with
  | error e => simp
  | ok v =>
    cases left.value limit with
    | error e => simp
    | ok u =>
      have happly : Verb.apply limit (some u) 44 v = .ok r ↔ u.append limit v = .ok r :=
        mapError_eq_ok_iff
      simp [happly]

namespace Settings

variable {s : Settings} {a b c : Text} {x y z e : Expr} {u v w r : Noun}

private theorem Reads.eq_of_appendOfThree (ha : s.Reads a x) (hb : s.Reads b y) (hc : s.Reads c z)
    (h : s.Reads (Text.appendOfThree a b c) e) : e = .dyad x 44 (.dyad y 44 z) := by
  obtain ⟨i, -, hx⟩ := ha.spells
  obtain ⟨j, -, hy⟩ := hb.spells
  obtain ⟨k, -, hz⟩ := hc.spells
  obtain ⟨n, -, he⟩ := h.spells
  exact (he.unique (hx.paren.dyad rfl (hy.paren.dyad rfl hz.paren.single))).2

private theorem Reads.eq_of_appendToAppend (ha : s.Reads a x) (hb : s.Reads b y) (hc : s.Reads c z)
    (h : s.Reads (Text.appendToAppend a b c) e) : e = .dyad (.dyad x 44 y) 44 z := by
  obtain ⟨i, -, hx⟩ := ha.spells
  obtain ⟨j, -, hy⟩ := hb.spells
  obtain ⟨k, -, hz⟩ := hc.spells
  obtain ⟨n, -, he⟩ := h.spells
  exact (he.unique ((hx.paren.dyad rfl hy.paren.single).paren.dyad rfl hz.paren.single)).2

private theorem Reads.run_eq_ok_iff (h : s.Reads a e) :
    (s.run a).result = .ok r ↔ e.value s.maxElements = .ok r := by
  rw [run_of_reads h]
  exact mapError_eq_ok_iff

/-- Three sources with results, appended in a row, run to the same noun in both groupings. -/
private theorem run_appendOfThree_iff (hs : u.size + v.size + w.size < 0x8000000000000000)
    (hu : u.Exact) (hv : v.Exact) (hw : w.Exact) (ha : (s.run a).result = .ok u)
    (hb : (s.run b).result = .ok v) (hc : (s.run c).result = .ok w) {e' : Expr}
    (h : s.Reads (Text.appendOfThree a b c) e) (h' : s.Reads (Text.appendToAppend a b c) e') :
    (s.run (Text.appendOfThree a b c)).result = .ok r ↔
      (s.run (Text.appendToAppend a b c)).result = .ok r := by
  obtain ⟨x, hx, hxu⟩ := Settings.run_eq_ok_iff.mp ha
  obtain ⟨y, hy, hyv⟩ := Settings.run_eq_ok_iff.mp hb
  obtain ⟨z, hz, hzw⟩ := Settings.run_eq_ok_iff.mp hc
  obtain rfl := hx.eq_of_appendOfThree hy hz h
  obtain rfl := hx.eq_of_appendToAppend hy hz h'
  rw [h.run_eq_ok_iff, h'.run_eq_ok_iff]
  have hright : (Expr.dyad x 44 (.dyad y 44 z)).value s.maxElements = .ok r ↔
      ∃ b, v.append s.maxElements w = .ok b ∧ u.append s.maxElements b = .ok r := by
    simp [Expr.value_append_eq_ok_iff, hxu, hyv, hzw]
  have hleft : (Expr.dyad (.dyad x 44 y) 44 z).value s.maxElements = .ok r ↔
      ∃ a, u.append s.maxElements v = .ok a ∧ a.append s.maxElements w = .ok r := by
    simp [Expr.value_append_eq_ok_iff, hxu, hyv, hzw]
  rw [hright, hleft, Noun.append_append_iff hu.product_eq hv.product_eq hw.product_eq hs]

end Settings

namespace Noun

variable {limit : Int64} {u v w : Noun}

/-- Append is associative on success, for nouns and for sources, and the empty vector does no more
than make a scalar a vector. -/
theorem append_associative (hu : u.Exact) (hv : v.Exact) (hw : w.Exact)
    (hs : u.size + v.size + w.size < 0x8000000000000000) :
    (∀ r, (∃ a, u.append limit v = .ok a ∧ a.append limit w = .ok r) ↔
      ∃ b, v.append limit w = .ok b ∧ u.append limit b = .ok r) ∧
    (∀ (s : Settings) (a b c : Text) (e e' : Expr),
      (s.run a).result = .ok u → (s.run b).result = .ok v → (s.run c).result = .ok w →
      s.Reads (Text.appendOfThree a b c) e → s.Reads (Text.appendToAppend a b c) e' →
      ∀ r, (s.run (Text.appendOfThree a b c)).result = .ok r ↔
        (s.run (Text.appendToAppend a b c)).result = .ok r) ∧
    ∀ a : Noun, a.rank ≤ 1 → (a.size : Int) ≤ limit.toInt →
      (scalar 0).iota limit = .ok (vector #[]) ∧
        a.append limit (vector #[]) = .ok a.ravel ∧ (vector #[]).append limit a = .ok a.ravel := by
  refine ⟨?nouns, ?sources, ?empty⟩
  case nouns =>
    intro r
    exact append_append_iff hu.product_eq hv.product_eq hw.product_eq hs
  case sources =>
    intro s a b c e e' ha hb hc h h' r
    exact Settings.run_appendOfThree_iff hs hu hv hw ha hb hc h h'
  case empty =>
    intro a hr hl
    exact ⟨iota_zero (by omega), append_empty hr hl⟩

/-- Two rows with no row between them, and a scalar. -/
theorem append_associative_rows :
    (∃ a, (⟨[1, 2], #[1, 2]⟩ : Noun).append 4 ⟨[0, 2], #[]⟩ = .ok a ∧
      a.append 4 ⟨[1, 2], #[3, 4]⟩ = .ok ⟨[2, 2], #[1, 2, 3, 4]⟩) ∧
    (({} : Settings).run (Text.ofString "((1 2#1 2),(0 2#0)),(1 2#3 4)")).result =
      .ok ⟨[2, 2], #[1, 2, 3, 4]⟩ ∧
    (scalar 7).append 4 (vector #[]) = .ok (vector #[7]) := by
  obtain ⟨hnouns, hsources, hempty⟩ := @append_associative 4 ⟨[1, 2], #[1, 2]⟩ ⟨[0, 2], #[]⟩
    ⟨[1, 2], #[3, 4]⟩ rfl rfl rfl (by decide)
  refine ⟨(hnouns _).mpr ⟨⟨[1, 2], #[3, 4]⟩, rfl, rfl⟩, ?_,
    (hempty (scalar 7) (by decide) (by decide)).2.1⟩
  refine (hsources {} (Text.ofString "1 2#1 2") (Text.ofString "0 2#0")
    (Text.ofString "1 2#3 4") _ _ ?_ ?_ ?_ ⟨rfl, _, rfl, rfl⟩ ⟨rfl, _, rfl, rfl⟩ _).mp ?_
  all_goals with_unfolding_all rfl

/-! ### Selecting from an append -/

/-- The positions of `k`, counted from the position `start` on. -/
def countedFrom (start : Int64) (k : Noun) : Noun := ⟨k.shape, k.data.map (· - start)⟩

section Blocks

variable {itemSize : Nat} {xs ys : Array Int64} {i : Int64}

private theorem itemAt_append_left (h : i.toInt.toNat * itemSize + itemSize ≤ xs.size) :
    itemAt itemSize (xs ++ ys) i = itemAt itemSize xs i := by
  rw [itemAt, itemAt, Array.toList_append, List.drop_append_of_le_length,
    List.take_append_of_le_length]
  · rw [List.length_drop, Array.length_toList]
    omega
  · rw [Array.length_toList]
    omega

private theorem itemAt_append_right {n : Nat} {j : Int64} (hx : xs.size = n * itemSize)
    (hi : i.toInt.toNat = n + j.toInt.toNat) :
    itemAt itemSize (xs ++ ys) i = itemAt itemSize ys j := by
  rw [itemAt, itemAt, Array.toList_append, hi, Nat.add_mul, ← hx, ← Array.length_toList,
    List.drop_length_add_append]

end Blocks

section Positions

variable {k a : Noun} (hl : limit.toInt ≤ 0x80000000) (ha : a.Exact)
  (hs : a.size < 0x8000000000000000) (he : 1 ≤ extent a.itemShape)
  (hk : (k.size : Int) * extent a.itemShape ≤ limit.toInt)
include hl ha hs he hk

/-- What positions ask for within a small limit is counted exactly if there are any. -/
private theorem countsFit_of_le (hn : 0 < k.size) : CountsFit k a where
  exact := ha
  nonneg := by omega
  size_lt := hs
  item_lt := by
    have hle : 1 * extent a.itemShape ≤ k.size * extent a.itemShape :=
      Int.mul_le_mul_of_nonneg_right (by omega) (by omega)
    omega
  count_lt := by omega

/-- Positions that are not missing select their items in order, within a small limit. -/
private theorem select_eq_items (hp : ∀ i ∈ k.data, isMissing a.items i = false) :
    k.select limit a = .ok ⟨k.shape ++ a.itemShape,
      (k.data.toList.flatMap (itemAt (extent a.itemShape).toNat a.data)).toArray⟩ := by
  have hstorage : limit.toInt ≤ storageLimit := Int.le_trans hl (by decide)
  rcases Nat.eq_zero_or_pos k.size with hz | hpos
  · -- without positions an item may have more elements than a 64-bit integer counts
    have hcount : ((k.size : Int) * extent a.itemShape).bmod 0x10000000000000000 = 0 := by
      rw [hz, Int.natCast_zero, Int.zero_mul]
      rfl
    have hdata : k.data = #[] := Array.eq_empty_of_size_eq_zero hz
    have h0 : 0 ≤ limit.toInt := by
      rw [hz, Int.natCast_zero, Int.zero_mul] at hk
      exact hk
    rw [select_eq_of_count hstorage hcount, if_neg (by omega), if_neg (by omega), hdata]
    rfl
  · have h := countsFit_of_le hl ha hs he hk hpos
    have hnone : k.data.toList.find? (isMissing a.items) = none := by
      rw [List.find?_eq_none]
      intro i hi
      rw [hp i (Array.mem_toList_iff.mp hi)]
      exact Bool.false_ne_true
    rw [select_eq hstorage h.exact h.size_lt h.nonneg h.item_lt h.count_lt,
      if_neg (Int.not_lt.mpr hk), hnone]

private theorem select_failsWith_of_missing {i : Int64} (hi : i ∈ k.data)
    (hm : isMissing a.items i) :
    FailsWith .indexOutOfRange (k.select limit a) := by
  have hstorage : limit.toInt ≤ storageLimit := Int.le_trans hl (by decide)
  have hpos : 0 < k.size := Array.size_pos_of_mem hi
  have h := countsFit_of_le hl ha hs he hk hpos
  exact (h.select_failsWith_iff hstorage).mpr
    (.inr ⟨rfl, hk, i, Array.mem_toList_iff.mpr hi, hm⟩)

end Positions

section Joined

variable (hu : u.Exact) (hv : v.Exact) (hs : u.size + v.size < 0x8000000000000000)
  (he : 1 ≤ extent u.itemShape) (hitem : v.itemShape = u.itemShape)

private theorem Exact.items_mul_of_eq (h : v.Exact) (hitem : v.itemShape = u.itemShape) :
    v.items.toInt * extent u.itemShape = v.size := by
  rw [← hitem]
  exact h.items_mul

include hu hv hs he hitem

private theorem toInt_items_joined : (u.joined v).items.toInt = u.items.toInt + v.items.toInt := by
  rw [items_joined]
  exact toInt_add_of_mul_eq he hu.items_mul (hv.items_mul_of_eq hitem) hs

private theorem exact_joined : (u.joined v).Exact := by
  rw [Exact, extent_shape, toInt_items_joined hu hv hs he hitem, itemShape_joined, Int.add_mul,
    hu.items_mul, hv.items_mul_of_eq hitem, size_joined, Int.natCast_add]

variable {k : Noun} (hl : limit.toInt ≤ 0x80000000)
  (hk : (k.size : Int) * extent u.itemShape ≤ limit.toInt)
include hl hk

private theorem select_joined
    (hp : ∀ i ∈ k.data, 0 ≤ i.toInt ∧ i.toInt < u.items.toInt + v.items.toInt) :
    k.select limit (u.joined v) = .ok ⟨k.shape ++ u.itemShape,
      (k.data.toList.flatMap (itemAt (extent u.itemShape).toNat (u.data ++ v.data))).toArray⟩ := by
  refine select_eq_items hl (exact_joined hu hv hs he hitem) (by rw [size_joined]; exact hs) he hk
    fun i hi ↦ ?_
  rw [isMissing_eq_false_iff, toInt_items_joined hu hv hs he hitem]
  exact hp i hi

/-- Positions of items of the first noun select from it. -/
private theorem select_joined_left (hp : ∀ i ∈ k.data, 0 ≤ i.toInt ∧ i.toInt < u.items.toInt) :
    ∃ r, k.select limit (u.joined v) = .ok r ∧ k.select limit u = .ok r := by
  have hv0 := (bounds_of_mul_eq he (hv.items_mul_of_eq hitem)).1
  have hpresent (i : Int64) (hi : i ∈ k.data) : isMissing u.items i = false :=
    isMissing_eq_false_iff.mpr (hp i hi)
  refine ⟨_, select_joined hu hv hs he hitem hl hk fun i hi ↦ ?_, ?_⟩
  · have := hp i hi
    omega
  · rw [select_eq_items hl hu (by omega) he hk hpresent]
    congr 3
    refine List.flatMap_congr fun i hi ↦ (itemAt_append_left ?_).symm
    exact hu.toNat_mul_add_le (by omega) (hpresent i (Array.mem_toList_iff.mp hi))

/-- Positions after the items of the first noun select from the second one. -/
private theorem select_joined_right (hp : ∀ i ∈ k.data,
      u.items.toInt ≤ i.toInt ∧ i.toInt < u.items.toInt + v.items.toInt) :
    ∃ r, k.select limit (u.joined v) = .ok r ∧
      (k.countedFrom u.items).select limit v = .ok r := by
  have hu0 := (bounds_of_mul_eq he hu.items_mul).1
  have hdiff (i : Int64) (hi : i ∈ k.data) : (i - u.items).toInt = i.toInt - u.items.toInt := by
    have := hp i hi
    have := i.toInt_lt
    rw [Int64.toInt_sub]
    exact Int.bmod_eq_of_le (by omega) (by omega)
  have hsize : (k.countedFrom u.items).size = k.size := Array.size_map
  have hpresent : ∀ j ∈ (k.countedFrom u.items).data, isMissing v.items j = false := by
    intro j hj
    obtain ⟨i, hi, rfl⟩ := Array.mem_map.mp hj
    have := hp i hi
    rw [isMissing_eq_false_iff, hdiff i hi]
    omega
  refine ⟨_, select_joined hu hv hs he hitem hl hk fun i hi ↦ ?_, ?_⟩
  · have := hp i hi
    omega
  · rw [select_eq_items hl hv (by omega) (by rw [hitem]; exact he)
      (by rw [hitem, hsize]; exact hk) hpresent, hitem]
    congr 3
    rw [countedFrom, Array.toList_map, List.flatMap_map]
    have hblocks : u.data.size = u.items.toInt.toNat * (extent u.itemShape).toNat := by
      rw [← Int.toNat_mul hu0 (by omega), hu.items_mul]
      rfl
    refine List.flatMap_congr fun i hi ↦ (itemAt_append_right hblocks ?_).symm
    have hmem : i ∈ k.data := Array.mem_toList_iff.mp hi
    have := hp i hmem
    rw [hdiff i hmem]
    omega

end Joined

/-- A position selects from an append what it selects from the first noun or, counted on from there,
from the second, and is out of range otherwise. -/
theorem select_append {k : Noun} (hl : limit.toInt ≤ 0x80000000) (hu : u.Exact) (hv : v.Exact)
    (he : 1 ≤ extent u.itemShape) (h : u.append limit v = .ok w)
    (hs : w.size < 0x8000000000000000)
    (hk : (k.size : Int) * extent u.itemShape ≤ limit.toInt) :
    ((∀ i ∈ k.data, 0 ≤ i.toInt ∧ i.toInt < u.items.toInt) →
      ∃ r, k.select limit w = .ok r ∧ k.select limit u = .ok r) ∧
    ((∀ i ∈ k.data, u.items.toInt ≤ i.toInt ∧ i.toInt < u.items.toInt + v.items.toInt) →
      ∃ r, k.select limit w = .ok r ∧ (k.countedFrom u.items).select limit v = .ok r) ∧
    ∀ i ∈ k.data, ¬ (0 ≤ i.toInt ∧ i.toInt < u.items.toInt + v.items.toInt) →
      FailsWith .indexOutOfRange (k.select limit w) := by
  obtain ⟨rfl, hitem⟩ := append_eq_ok hu.product_eq hv.product_eq h
  rw [size_joined] at hs
  refine ⟨?left, ?right, ?missing⟩
  case left => exact select_joined_left hu hv hs he hitem hl hk
  case right => exact select_joined_right hu hv hs he hitem hl hk
  case missing =>
    intro i hi hmissing
    refine select_failsWith_of_missing hl (exact_joined hu hv hs he hitem)
      (by rw [size_joined]; exact hs) he hk hi ?_
    rw [← toInt_items_joined hu hv hs he hitem, ← isMissing_eq_false_iff] at hmissing
    exact eq_true_of_ne_false hmissing

/-- Of the rows of a matrix and one more, position 2 is that of the last one. -/
theorem select_append_rows :
    let rows : Noun := ⟨[2, 2], #[1, 2, 3, 4]⟩
    let row : Noun := ⟨[1, 2], #[5, 6]⟩
    let both : Noun := ⟨[3, 2], #[1, 2, 3, 4, 5, 6]⟩
    (∃ r, (vector #[1, 0]).select 6 both = .ok r ∧ (vector #[1, 0]).select 6 rows = .ok r) ∧
    (∃ r, (scalar 2).select 6 both = .ok r ∧ (scalar 0).select 6 row = .ok r) ∧
    FailsWith .indexOutOfRange ((vector #[0, 3]).select 6 both) := by
  intro rows row both
  have h (k : Noun) (hk : (k.size : Int) * 2 ≤ 6) :=
    select_append (k := k) (u := rows) (v := row) (w := both) (by decide : Int64.toInt 6 ≤ _) rfl
      rfl (by decide) rfl (by decide) hk
  have hcounted : (scalar 2).countedFrom rows.items = scalar 0 := by
    simp [countedFrom, scalar, items, rows]
  refine ⟨?_, ?_, ?_⟩
  · exact (h (vector #[1, 0]) (by decide)).1 (by simp [vector, items, rows])
  · rw [← hcounted]
    exact (h (scalar 2) (by decide)).2.1 (by simp [scalar, items, rows, row])
  · exact (h (vector #[0, 3]) (by decide)).2.2 3 (by simp [vector]) (by decide)

end Noun

end Ravel
