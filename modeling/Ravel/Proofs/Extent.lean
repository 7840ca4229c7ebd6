import Ravel.Verb.Dyadic

/-!
# The extent of a shape

A shape stands for as many elements as the product of its axes, taken over the integers: its
extent. The verbs count in 64-bit integers and so know an extent only modulo 2^64
(`toInt_product`). A noun is exact if its elements are as many as its extent. An exact noun without
elements may have axes of any length, so that the extent of its items need not be a 64-bit integer.
The check of a shape against given elements counts modulo 2^64 as well, and so lets a noun pass that
is not exact (`Noun.ofShape_exact_iff`).
-/

namespace Ravel

/-- The number of elements that a shape stands for: the product of its axes, 1 without axes. -/
def extent : List Int64 → Int
  | [] => 1
  | d :: shape => d.toInt * extent shape

/-- Without axes there is one element. -/
@[simp]
theorem extent_nil : extent [] = 1 := rfl

/-- One more axis multiplies the extent by its length. -/
@[simp]
theorem extent_cons (d : Int64) (shape : List Int64) :
    extent (d :: shape) = d.toInt * extent shape := rfl

/-- The extent of two rows of axes is the product of their extents. -/
theorem extent_append (s t : List Int64) : extent (s ++ t) = extent s * extent t := by
  induction s with
  | nil => rw [List.nil_append, extent_nil, Int.one_mul]
  | cons d s ih => rw [List.cons_append, extent_cons, extent_cons, ih, Int.mul_assoc]

/-- The extent does not depend on the order of the axes. -/
theorem extent_perm {s t : List Int64} (h : s.Perm t) : extent s = extent t := by
  induction h with
  | nil => rfl
  | cons d _ ih => rw [extent_cons, extent_cons, ih]
  | swap d e s => rw [extent_cons, extent_cons, extent_cons, extent_cons, Int.mul_left_comm]
  | trans _ _ ih ih' => rw [ih, ih']

/-- A shape without negative axes has no negative extent. -/
theorem extent_nonneg {shape : List Int64} (h : ∀ d ∈ shape, 0 ≤ d.toInt) : 0 ≤ extent shape := by
  induction shape with
  | nil => decide
  | cons d shape ih =>
    rw [extent_cons]
    exact Int.mul_nonneg (h d List.mem_cons_self) (ih fun e he ↦ h e (List.mem_cons_of_mem d he))

/-- A shape of positive axes has a positive extent. -/
theorem extent_pos {shape : List Int64} (h : ∀ d ∈ shape, 0 < d.toInt) : 0 < extent shape := by
  induction shape with
  | nil => decide
  | cons d shape ih =>
    rw [extent_cons]
    exact Int.mul_pos (h d List.mem_cons_self) (ih fun e he ↦ h e (List.mem_cons_of_mem d he))

/-- An axis of a shape with a positive extent is positive if no axis is negative. -/
theorem pos_of_extent_pos {shape : List Int64} (h : ∀ d ∈ shape, 0 ≤ d.toInt)
    (hp : 0 < extent shape) : ∀ d ∈ shape, 0 < d.toInt := by
  induction shape with
  | nil => exact fun d hd ↦ absurd hd List.not_mem_nil
  | cons d shape ih =>
    have hd : 0 ≤ d.toInt := h d List.mem_cons_self
    have ht : ∀ e ∈ shape, 0 ≤ e.toInt := fun e he ↦ h e (List.mem_cons_of_mem d he)
    have hn : d.toInt ≠ 0 ∧ extent shape ≠ 0 := by
      rw [← not_or, ← Int.mul_eq_zero, ← extent_cons]
      omega
    have hs : 0 ≤ extent shape := extent_nonneg ht
    intro e he
    rcases List.mem_cons.mp he with rfl | he
    · omega
    · exact ih ht (by omega) e he

/-- A shape with a zero axis stands for no elements, however long its other axes. -/
theorem extent_eq_zero {shape : List Int64} (h : (0 : Int64) ∈ shape) : extent shape = 0 := by
  induction shape with
  | nil => exact absurd h List.not_mem_nil
  | cons d shape ih =>
    rw [extent_cons]
    rcases List.mem_cons.mp h with rfl | h
    · rw [Int64.toInt_zero, Int.zero_mul]
    · rw [ih h, Int.mul_zero]

/-- The 64-bit product of the axes is the residue of the extent. -/
theorem toInt_product (shape : List Int64) :
    (Noun.product shape).toInt = (extent shape).bmod 0x10000000000000000 := by
  have hfold (n : Int64) : (shape.foldl (· * ·) n).toInt =
      (n.toInt * extent shape).bmod 0x10000000000000000 := by
    induction shape generalizing n with
    | nil => rw [List.foldl_nil, extent_nil, Int.mul_one, Int64.toInt_bmod]
    | cons d shape ih =>
      rw [List.foldl_cons, ih, Int64.toInt_mul, Int.bmod_mul_bmod, extent_cons, Int.mul_assoc]
  rw [Noun.product, hfold, Int64.toInt_one, Int.one_mul]

/-- The 64-bit product of the axes is the extent if that is a 64-bit integer. -/
theorem toInt_product_of_lt {shape : List Int64} (h0 : 0 ≤ extent shape)
    (hl : extent shape < 0x8000000000000000) : (Noun.product shape).toInt = extent shape := by
  rw [toInt_product]
  exact Int.bmod_eq_of_le (by omega) (by omega)

/-- A product that is a 64-bit integer does not wrap. -/
theorem toInt_mul_of_lt {a b : Int64} (hn : 0 ≤ a.toInt * b.toInt)
    (hl : a.toInt * b.toInt < 0x8000000000000000) : (a * b).toInt = a.toInt * b.toInt := by
  rw [Int64.toInt_mul]
  exact Int.bmod_eq_of_le (by omega) (by omega)

/-- A sum that is a 64-bit integer does not wrap. -/
theorem toInt_add_of_lt {a b : Int64} (hn : 0 ≤ a.toInt + b.toInt)
    (hl : a.toInt + b.toInt < 0x8000000000000000) : (a + b).toInt = a.toInt + b.toInt := by
  rw [Int64.toInt_add]
  exact Int.bmod_eq_of_le (by omega) (by omega)

private theorem bmod_eq_count_iff {n : Int} {count : Nat} (hn : 0 ≤ n)
    (hc : count < 0x8000000000000000) :
    n.bmod 0x10000000000000000 = count ↔
      n = count ∨ count < n ∧ 0x10000000000000000 ∣ n - count := by
  rw [Int.bmod_def]
  omega

namespace Noun

/-- The elements of a noun are as many as its shape says. -/
def Exact (a : Noun) : Prop := extent a.shape = a.size

/-- What the evaluation keeps true of every noun: it is exact, no axis after the first is negative,
and its elements are within a bound. The first axis of a noun without elements may be negative,
since the sum of two first axes wraps. -/
structure Sound (bound : Nat) (a : Noun) : Prop where
  exact : a.Exact
  trailing : ∀ d ∈ a.itemShape, 0 ≤ d.toInt
  size_le : a.size ≤ bound

/-- The end of a computation that keeps to the invariant: a sound noun or an error, no fault. -/
def SafeOutcome {ε : Type} (bound : Nat) : Except (Halt ε) Noun → Prop
  | .ok a => a.Sound bound
  | .error (.error _) => True
  | .error (.fault _) => False

/-- The end of a computation in an error of a kind. -/
def FailsWith (kind : ValueError.Kind) (outcome : Except (Halt ValueError) Noun) : Prop :=
  ∃ e, outcome = .error (.error e) ∧ e.kind = kind

/-- A computation ends in an error of one kind only. -/
theorem FailsWith.iff_eq {kind kind' : ValueError.Kind}
    {outcome : Except (Halt ValueError) Noun} (h : FailsWith kind outcome) :
    FailsWith kind' outcome ↔ kind' = kind := by
  obtain ⟨e, rfl, rfl⟩ := h
  constructor
  · rintro ⟨e', he, rfl⟩
    cases he
    rfl
  · rintro rfl
    exact ⟨e, rfl, rfl⟩

/-- A result is no failure. -/
theorem not_failsWith_ok {kind : ValueError.Kind} {r : Noun} : ¬ FailsWith kind (.ok r) := by
  rintro ⟨e, he, -⟩
  cases he

variable {bound : Nat} {a : Noun}

/-- The extent of a noun is that of an item as often as there are items. -/
theorem extent_shape (a : Noun) : extent a.shape = a.items.toInt * extent a.itemShape := by
  unfold items itemShape
  cases a.shape with
  | nil => rfl
  | cons d shape => rw [extent_cons, List.tail_cons]

/-- The elements of an exact noun are those of an item as often as there are items. -/
theorem Exact.items_mul (h : a.Exact) : a.items.toInt * extent a.itemShape = a.size := by
  rw [← extent_shape]
  exact h

/-- A scalar or a vector has items without axes. -/
theorem itemShape_of_rank_le_one (h : a.rank ≤ 1) : a.itemShape = [] := by
  rw [itemShape, ← List.length_eq_zero_iff, List.length_tail]
  exact Nat.sub_eq_zero_of_le h

/-- Soundness depends on the shape and the number of elements only. -/
theorem Sound.congr {b : Noun} (h : a.Sound bound) (hs : b.shape = a.shape)
    (hn : b.size = a.size) : b.Sound bound where
  exact := by rw [Exact, hs, hn]; exact h.exact
  trailing := by rw [itemShape, hs]; exact h.trailing
  size_le := by rw [hn]; exact h.size_le

/-- A noun is a scalar if it has no axes or one axis of length one. -/
theorem isScalar_iff (a : Noun) : a.isScalar ↔ a.shape = [] ∨ a.shape = [1] := by
  unfold isScalar
  split
  · next hs => simp [hs]
  · next n hs => simp [hs]
  · next hnil hone =>
    refine ⟨nofun, ?_⟩
    rintro (hs | hs)
    · exact absurd hs hnil
    · exact absurd hs (hone 1)

/-- A scalar or a vector of one element has one element. -/
theorem Exact.size_eq_one (h : a.Exact) (hs : a.isScalar) : a.size = 1 := by
  unfold Exact at h
  rcases a.isScalar_iff.mp hs with hn | hn
  · rw [hn, extent_nil] at h
    omega
  · rw [hn, extent_cons, extent_nil, Int64.toInt_one] at h
    omega

/-- The items of a sound noun with elements are of positive number and extent. -/
private theorem Sound.items_pos (h : a.Sound bound) (hn : 0 < a.size) :
    0 < a.items.toInt ∧ 0 < extent a.itemShape := by
  have he := h.exact.items_mul
  have hp : 0 < a.items.toInt * extent a.itemShape := by omega
  have hi := extent_nonneg h.trailing
  have hz : extent a.itemShape ≠ 0 := by
    intro hz
    rw [hz, Int.mul_zero] at hp
    omega
  exact ⟨Int.pos_of_mul_pos_left hp (by omega), by omega⟩

/-- The axes of a sound noun with elements are positive. -/
theorem Sound.axes_pos (h : a.Sound bound) (hn : 0 < a.size) : ∀ d ∈ a.shape, 0 < d.toInt := by
  obtain ⟨hi, he⟩ := h.items_pos hn
  unfold items itemShape at *
  have ht := h.trailing
  unfold itemShape at ht
  cases hs : a.shape with
  | nil => exact fun d hd ↦ absurd hd List.not_mem_nil
  | cons n shape =>
    rw [hs] at hi he ht
    intro d hd
    rcases List.mem_cons.mp hd with rfl | hd
    · exact hi
    · exact pos_of_extent_pos ht he d hd

/-- An item of a sound noun with elements is no larger than the noun. -/
theorem Sound.extent_itemShape_le (h : a.Sound bound) (hn : 0 < a.size) :
    extent a.itemShape ≤ a.size := by
  obtain ⟨hi, he⟩ := h.items_pos hn
  have hx := h.exact.items_mul
  have hm : 1 * extent a.itemShape ≤ a.items.toInt * extent a.itemShape :=
    Int.mul_le_mul_of_nonneg_right (by omega) (by omega)
  omega

/-! ### Nouns of a shape and elements -/

section OfShape

variable {shape : List Int64} {data : Array Int64}

/-- No axis is found to be negative exactly if none is. -/
theorem find?_negative_eq_none_iff {shape : List Int64} :
    shape.find? (· < 0) = none ↔ ∀ d ∈ shape, 0 ≤ d.toInt := by
  rw [List.find?_eq_none]
  refine forall_congr' fun d ↦ forall_congr' fun _ ↦ ?_
  rw [decide_eq_true_eq, Int64.lt_iff_toInt_lt, Int64.toInt_zero]
  omega

/-- A shape is taken with its elements if no axis is negative and the elements are as many as its
extent modulo 2^64. -/
private theorem ofShape_eq_ok_iff {a : Noun} : ofShape shape data = .ok a ↔
    (∀ d ∈ shape, 0 ≤ d.toInt) ∧ (extent shape).bmod 0x10000000000000000 = data.size ∧
      a = ⟨shape, data⟩ := by
  rw [← toInt_product, ← find?_negative_eq_none_iff]
  unfold ofShape
  cases shape.find? (· < 0) with
  | some n => simp
  | none =>
    by_cases hsize : (product shape).toInt = data.size
    · simp [hsize, eq_comm]
    · simp [hsize]

/-- A shape that is not taken is refused as invalid. -/
private theorem kind_of_ofShape {e : ValueError} (h : ofShape shape data = .error e) :
    e.kind = .invalidShape := by
  unfold ofShape at h
  split at h
  · cases h
    rfl
  · split at h
    · cases h
    · cases h
      rfl

end OfShape

/-- A shape is taken exactly if no axis is negative and its extent is the number of the elements
modulo 2^64. -/
theorem ofShape_exact_iff (shape : List Int64) (data : Array Int64) :
    (∀ a, ofShape shape data = .ok a ↔
      (∀ d ∈ shape, 0 ≤ d.toInt) ∧ (extent shape).bmod 0x10000000000000000 = data.size ∧
        a = ⟨shape, data⟩) ∧
    ((∀ a, ofShape shape data ≠ .ok a) →
      ∃ e, ofShape shape data = .error e ∧ e.kind = .invalidShape) ∧
    (data.size < 0x8000000000000000 →
      (((∃ a, ofShape shape data = .ok a) ↔
          (∀ d ∈ shape, 0 ≤ d.toInt) ∧ extent shape = data.size) ↔
        ¬ ((∀ d ∈ shape, 0 ≤ d.toInt) ∧ data.size < extent shape ∧
          0x10000000000000000 ∣ extent shape - data.size))) := by
  refine ⟨fun a ↦ ofShape_eq_ok_iff, ?refused, ?exact⟩
  case refused =>
    intro hnone
    cases h : ofShape shape data with
    | ok a => exact absurd h (hnone a)
    | error e => exact ⟨e, rfl, kind_of_ofShape h⟩
  case exact =>
    intro hsize
    have htaken : (∃ a, ofShape shape data = .ok a) ↔
        (∀ d ∈ shape, 0 ≤ d.toInt) ∧ (extent shape).bmod 0x10000000000000000 = data.size := by
      simp [ofShape_eq_ok_iff]
    rw [htaken]
    by_cases haxes : ∀ d ∈ shape, 0 ≤ d.toInt
    · rw [bmod_eq_count_iff (extent_nonneg haxes) hsize]
      simp only [eq_true haxes, true_and]
      omega
    · simp only [eq_false haxes, false_and, not_false_eq_true]

/-- A zero axis between the two longest leaves no elements, and an extent of 2^63 is refused. -/
theorem ofShape_exact_iff_long_axes :
    ofShape [9223372036854775807, 0, 9223372036854775807] #[] =
      .ok ⟨[9223372036854775807, 0, 9223372036854775807], #[]⟩ ∧
    (∃ e, ofShape [4611686018427387904, 2] #[] = .error e ∧ e.kind = .invalidShape) ∧
    ((∃ a, ofShape [4611686018427387904, 2] #[] = .ok a) ↔
      (∀ d ∈ [(4611686018427387904 : Int64), 2], 0 ≤ d.toInt) ∧
        extent [4611686018427387904, 2] = 0) := by
  refine ⟨?_, ?_, ?_⟩
  · apply ((ofShape_exact_iff _ _).1 _).mpr
    refine ⟨?_, by decide, rfl⟩
    simp only [List.mem_cons, List.not_mem_nil, or_false]
    rintro d (rfl | rfl | rfl) <;> decide
  · exact (ofShape_exact_iff _ _).2.1 nofun
  · apply ((ofShape_exact_iff _ #[]).2.2 (by decide)).mpr
    rintro ⟨-, -, hdvd⟩
    revert hdvd
    decide

/-- The extent of 2^32 rows of 2^32 elements is 2^64, and the shape is taken with no elements. -/
theorem ofShape_wraps :
    ofShape [4294967296, 4294967296] #[] = .ok ⟨[4294967296, 4294967296], #[]⟩ ∧
    extent [4294967296, 4294967296] = 18446744073709551616 := by
  constructor
  · rfl
  · decide

end Noun

end Ravel
