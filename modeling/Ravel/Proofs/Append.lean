import Ravel.Proofs.Extent

/-!
# Append

The items of two nouns one after the other. The first axis of the result is the sum of the first
axes, in 64-bit integers: it is exact for nouns with elements, and it does not matter for the
number of elements if an item has none.
-/

namespace Ravel.Noun

private theorem extent_shapeAsItems (a : Noun) : extent a.shapeAsItems = extent a.shape := by
  unfold shapeAsItems
  cases a.shape with
  | nil => rfl
  | cons d shape => rfl

/-- With a scalar counted as a vector of one element, a shape is the number of items and the shape
of an item. -/
theorem shapeAsItems_eq (a : Noun) : a.shapeAsItems = a.items :: a.itemShape := by
  unfold shapeAsItems items itemShape
  cases a.shape with
  | nil => rfl
  | cons d shape => rfl

/-- The items of `u` followed by those of `v`, whatever their shapes and numbers are. -/
def joined (u v : Noun) : Noun := ⟨(u.items + v.items) :: u.itemShape, u.data ++ v.data⟩

/-- The items of two nouns one after the other are as many as theirs together. -/
@[simp]
theorem items_joined (u v : Noun) : (u.joined v).items = u.items + v.items := rfl

/-- Items put together have the shape of the first ones. -/
@[simp]
theorem itemShape_joined (u v : Noun) : (u.joined v).itemShape = u.itemShape := rfl

/-- The elements of two nouns one after the other are as many as theirs together. -/
@[simp]
theorem size_joined (u v : Noun) : (u.joined v).size = u.size + v.size := Array.size_append

/-- It does not matter which two of three nouns are put together first. -/
theorem joined_assoc (u v w : Noun) : (u.joined v).joined w = u.joined (v.joined w) := by
  simp [joined, items, itemShape, Int64.add_assoc, Array.append_assoc]

variable {limit : Int64} {bound : Nat} {u v : Noun}

/-- What append gives for nouns whose elements can be counted. -/
theorem append_eq (h : u.size + v.size < 0x8000000000000000) :
    u.append limit v =
      match appendShape u v with
      | .error e => .error (.error e)
      | .ok shape =>
        if limit.toInt < u.size + v.size then
          .error (.error (.tooManyElements DyadicForm.append.name
            (Int64.ofNat u.size + Int64.ofNat v.size) limit))
        else .ok ⟨shape, u.data ++ v.data⟩ := by
  have hu : (Int64.ofNat u.size).toInt = u.size := Int64.toInt_ofNat_of_lt (by omega)
  have hv : (Int64.ofNat v.size).toInt = v.size := Int64.toInt_ofNat_of_lt (by omega)
  have hc : (Int64.ofNat u.size + Int64.ofNat v.size).toInt = u.size + v.size := by
    rw [toInt_add_of_lt (by omega) (by omega), hu, hv]
  unfold append checkCount
  cases appendShape u v with
  | error e => rfl
  | ok shape =>
    simp only [Int64.lt_iff_toInt_lt, hc]
    split <;> rfl

/-- There are no more items than elements if an item has any. -/
theorem bounds_of_mul_eq {m n : Int} {p : Nat} (hn : 1 ≤ n) (h : m * n = p) : 0 ≤ m ∧ m ≤ p := by
  have hpos : 0 ≤ m := by
    refine Int.nonneg_of_mul_nonneg_left (b := n) ?_ (by omega)
    omega
  have hle : m * 1 ≤ m * n := Int.mul_le_mul_of_nonneg_left hn hpos
  omega

/-- First axes that stand for few elements add up exactly, unless an item has no elements. -/
theorem toInt_add_of_mul_eq {m n : Int64} {e : Int} {p q : Nat} (he : 1 ≤ e)
    (hm : m.toInt * e = p) (hn : n.toInt * e = q) (hpq : p + q < 0x8000000000000000) :
    (m + n).toInt = m.toInt + n.toInt := by
  have := bounds_of_mul_eq he hm
  have := bounds_of_mul_eq he hn
  exact toInt_add_of_lt (by omega) (by omega)

private theorem toInt_add_mul_extent {m n : Int64} {shape : List Int64} {p q : Nat}
    (h0 : 0 ≤ extent shape) (hm : m.toInt * extent shape = p) (hn : n.toInt * extent shape = q)
    (hpq : p + q < 0x8000000000000000) : (m + n).toInt * extent shape = p + q := by
  by_cases hz : extent shape = 0
  · rw [hz, Int.mul_zero] at hm hn ⊢
    omega
  · rw [toInt_add_of_mul_eq (by omega) hm hn hpq, Int.add_mul, hm, hn]

/-- The shape of an append stands for the elements of both nouns. -/
private theorem extent_appendShape (hu : u.Sound bound) (hv : v.Sound bound)
    (hs : u.size + v.size < 0x8000000000000000) {shape : List Int64}
    (h : appendShape u v = .ok shape) :
    extent shape = u.size + v.size ∧ ∀ d ∈ shape.tail, 0 ≤ d.toInt := by
  have hut : ∀ d ∈ u.shapeAsItems.tail, 0 ≤ d.toInt := by
    rw [shapeAsItems_eq]
    exact hu.trailing
  have hux := (extent_shapeAsItems u).trans hu.exact
  have hvx := (extent_shapeAsItems v).trans hv.exact
  unfold appendShape at h
  split at h
  · cases h
    rw [extent_cons, extent_nil, Int.mul_one, Int64.toInt_ofNat_of_lt (by omega)]
    exact ⟨rfl, fun d hd ↦ absurd hd List.not_mem_nil⟩
  · next m us n vs _ hm hn =>
    rw [hm] at hut hux
    rw [hn] at hvx
    split at h
    · next he =>
      cases h
      subst he
      rw [extent_cons] at hux hvx
      exact ⟨toInt_add_mul_extent (extent_nonneg hut) hux hvx hs, hut⟩
    · cases h
  · cases h

/-- Append of sound nouns ends in an error or a sound noun. -/
theorem append_safe (hb : limit.toInt ≤ bound) (hB : bound ≤ 0x80000000) (hu : u.Sound bound)
    (hv : v.Sound bound) : SafeOutcome bound (u.append limit v) := by
  have hs : u.size + v.size < 0x8000000000000000 := by
    have := hu.size_le
    have := hv.size_le
    omega
  rw [append_eq hs]
  cases ha : appendShape u v with
  | error e => exact True.intro
  | ok shape =>
    obtain ⟨hx, ht⟩ := extent_appendShape hu hv hs ha
    have hn : (⟨shape, u.data ++ v.data⟩ : Noun).size = u.size + v.size := Array.size_append
    dsimp only
    split
    · exact True.intro
    · next hle =>
      refine ⟨?_, ht, ?_⟩
      · rw [Exact, hn, hx]
        omega
      · omega

end Ravel.Noun
