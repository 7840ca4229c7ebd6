import Ravel.Proofs.Run

/-!
# Elements counted modulo 2^64

Shapes and counts are 64-bit integers that wrap. Under small limits every noun is exact
(`Settings.Makes.exact_and_bounded`). Under any limits at all, the wrapping product of the axes of a
noun is still the number of its elements modulo 2^64, and no axis after the first is negative
(`Noun.Counted`): products and sums of residues are residues of products and sums, so that every
verb keeps this (`Verb.keeps_counted`).
-/

namespace Ravel

namespace Noun

/-- The axes of a noun multiply up to the number of its elements modulo 2^64, and none after the
first is negative. -/
structure Counted (a : Noun) : Prop where
  product_eq : product a.shape = Int64.ofNat a.size
  trailing : ∀ d ∈ a.itemShape, 0 ≤ d.toInt

/-! ### Products of axes -/

@[simp]
private theorem product_nil : product [] = 1 := rfl

@[simp]
private theorem product_cons (d : Int64) (shape : List Int64) :
    product (d :: shape) = d * product shape := by
  have hswap : product (d :: shape) = shape.foldl (· * ·) (d * 1) := by
    rw [Int64.mul_comm]
    rfl
  rw [hswap, List.foldl_assoc]
  rfl

private theorem product_append (s t : List Int64) : product (s ++ t) = product s * product t := by
  induction s with
  | nil => rw [List.nil_append, product_nil, Int64.one_mul]
  | cons d s ih => rw [List.cons_append, product_cons, product_cons, ih, Int64.mul_assoc]

private theorem product_eq_zero {shape : List Int64} (h : (0 : Int64) ∈ shape) :
    product shape = 0 := by
  rw [← Int64.toInt_inj, toInt_product, extent_eq_zero h]
  rfl

private theorem product_of_isScalar {a : Noun} (h : a.isScalar) : product a.shape = 1 := by
  rcases a.isScalar_iff.mp h with hs | hs
  · rw [hs, product_nil]
  · rw [hs, product_cons, product_nil, Int64.one_mul]

private theorem ofNat_toNat_toInt {n : Int64} (h : 0 ≤ n.toInt) :
    Int64.ofNat n.toInt.toNat = n := by
  rw [← Int64.ofInt_eq_ofNat, Int.toNat_of_nonneg h, Int64.ofInt_toInt]

/-! ### What each verb makes -/

private theorem counted_scalar (x : Int64) : (scalar x).Counted :=
  ⟨rfl, fun _ hd ↦ absurd hd List.not_mem_nil⟩

private theorem counted_vector (xs : Array Int64) : (vector xs).Counted := by
  refine ⟨?_, fun _ hd ↦ absurd hd List.not_mem_nil⟩
  rw [vector, product_cons, product_nil, Int64.mul_one]
  rfl

variable {limit : Int64} {u v a : Noun}

private theorem counted_of_iota (h : u.iota limit = .ok a) : a.Counted := by
  unfold iota at h
  split at h
  · cases h
  · split at h
    · cases h
    · next n _ =>
      split at h
      · cases h
      · next h0 =>
        unfold checkCount at h
        split at h
        · cases h
        · cases hs : isStorable n with
          | false => rw [hs] at h; cases h
          | true =>
            rw [hs] at h
            cases h
            have hn : 0 ≤ n.toInt := by
              rw [Int64.lt_iff_toInt_lt, Int64.toInt_zero] at h0
              omega
            refine ⟨?_, fun _ hd ↦ absurd hd List.not_mem_nil⟩
            rw [product_cons, product_nil, Int64.mul_one, size, Array.size_map, Array.size_range,
              ofNat_toNat_toInt hn]

private theorem counted_of_elementwise {verb : Text} {f : Int64 → Int64 → Except ValueError Int64}
    (hu : u.Counted) (hv : v.Counted) (h : elementwise verb f u v = .ok a) : a.Counted := by
  unfold elementwise at h
  cases hs : commonShape verb u v with
  | error e => rw [hs] at h; cases h
  | ok shape =>
    cases hp : pairs u v with
    | error e => rw [hs, hp] at h; cases h
    | ok ps =>
      rw [hs, hp] at h
      dsimp only at h
      cases hm : ps.mapM fun p ↦ f p.1 p.2 with
      | error e => rw [hm] at h; cases h
      | ok data =>
        rw [hm] at h
        cases h
        have hsize := (size_of_mapM hm).trans (size_of_pairs hp)
        unfold commonShape at hs
        split at hs
        · next hus =>
          rw [if_pos hus] at hsize
          have hone := product_of_isScalar hus
          split at hs
          · next hvs =>
            have hone' := product_of_isScalar hvs
            split at hs <;> cases hs
            · exact ⟨by rw [hv.product_eq, ← hsize]; rfl, hv.trailing⟩
            · refine ⟨?_, hu.trailing⟩
              rw [hone, ← hone', hv.product_eq, ← hsize]
              rfl
          · cases hs
            exact ⟨by rw [hv.product_eq, ← hsize]; rfl, hv.trailing⟩
        · next hus =>
          rw [if_neg hus] at hsize
          have hshape : shape = u.shape := by
            split at hs
            · exact (Except.ok.inj hs).symm
            · split at hs
              · exact (Except.ok.inj hs).symm
              · cases hs
          subst hshape
          exact ⟨by rw [hu.product_eq, ← hsize]; rfl, hu.trailing⟩

private theorem Counted.find (hu : u.Counted) (v : Noun) : (u.find v).Counted := by
  refine ⟨?_, hu.trailing⟩
  have hsize : (u.find v).size = u.size := Array.size_map
  rw [hsize]
  exact hu.product_eq

/-- Counting multiplies the axes, whatever the limit. -/
private theorem countWithin_eq_foldl {n m : Int64} {shape : List Int64}
    (h : countWithin limit n shape = some m) : m = shape.foldl (· * ·) n := by
  induction shape generalizing n with
  | nil => exact (Option.some.inj h).symm
  | cons d shape ih =>
    rw [countWithin] at h
    split at h
    · cases h
    · exact ih h

private theorem counted_of_reshape (h : u.reshape limit v = .ok a) : a.Counted := by
  unfold reshape at h
  split at h
  · cases h
  · dsimp only at h
    cases hf : u.data.toList.find? (· < 0) with
    | some n => rw [hf] at h; cases h
    | none =>
      rw [hf] at h
      dsimp only at h
      split at h
      · cases h
      · next n hn =>
        have hproduct : product u.data.toList = n := by
          split at hn
          · next hz =>
            cases hn
            exact product_eq_zero (List.contains_iff_mem.mp hz)
          · exact (countWithin_eq_foldl hn).symm
        split at h
        · cases h
        · cases hs : isStorable n with
          | false => rw [hs] at h; cases h
          | true =>
            rw [hs] at h
            cases h
            have h0 : 0 ≤ n.toInt := by
              rw [isStorable, Bool.and_eq_true, decide_eq_true_eq] at hs
              exact hs.1
            refine ⟨?_, fun d hd ↦
              find?_negative_eq_none_iff.mp hf d (List.mem_of_mem_tail hd)⟩
            rw [size, size_cycle, ofNat_toNat_toInt h0, hproduct]

/-- A section of a given length has that length. -/
private theorem size_of_sectionOf {data item : Array Int64} {start itemSize : Int64}
    (h : sectionOf data start (start + itemSize) = .ok item) :
    0 ≤ itemSize.toInt ∧ item.size = itemSize.toInt.toNat := by
  unfold sectionOf at h
  split at h
  · cases h
  · next hstop =>
    split at h
    · cases h
    · next hstart =>
      cases h
      simp only [Bool.or_eq_true, decide_eq_true_eq, Int64.lt_iff_toInt_lt, Int64.toInt_zero,
        not_or] at hstop hstart
      -- a sum that wrapped would be negative, and such an end is refused
      have hsum : (start + itemSize).toInt = start.toInt + itemSize.toInt := by
        have hlt := start.toInt_lt
        have hle := itemSize.le_toInt
        have hlt' := itemSize.toInt_lt
        rw [Int64.toInt_add] at hstop ⊢
        unfold Int.bmod at hstop ⊢
        dsimp only at hstop ⊢
        split at hstop <;> omega
      rw [Array.size_extract, hsum]
      rw [hsum] at hstop hstart
      omega

/-- Collecting adds an item for each position. -/
private theorem size_of_collectItems {items itemSize : Int64} {data collected r : Array Int64}
    {ks : List Int64} (h : collectItems items itemSize data collected ks = .ok r) :
    r.size = collected.size + ks.length * itemSize.toInt.toNat ∧
      (ks ≠ [] → 0 ≤ itemSize.toInt) := by
  induction ks generalizing collected with
  | nil =>
    cases h
    exact ⟨by rw [List.length_nil, Nat.zero_mul, Nat.add_zero], fun hne ↦ absurd rfl hne⟩
  | cons k ks ih =>
    rw [collectItems] at h
    split at h
    · cases h
    · dsimp only at h
      cases hs : sectionOf data (k * itemSize) (k * itemSize + itemSize) with
      | error f => rw [hs] at h; cases h
      | ok item =>
        rw [hs] at h
        obtain ⟨h0, hitem⟩ := size_of_sectionOf hs
        obtain ⟨hsize, -⟩ := ih h
        refine ⟨?_, fun _ ↦ h0⟩
        rw [hsize, Array.size_append, hitem, List.length_cons, Nat.succ_mul]
        omega

private theorem counted_of_select (hu : u.Counted) (hv : v.Counted) (h : u.select limit v = .ok a) :
    a.Counted := by
  unfold select checkCount at h
  dsimp only at h
  split at h
  · cases h
  · cases hs : isStorable (Int64.ofNat u.size * product v.itemShape) with
    | false => rw [hs] at h; cases h
    | true =>
      rw [hs] at h
      cases hc : collectItems v.items (product v.itemShape) v.data #[] u.data.toList with
      | error e => rw [hc] at h; cases h
      | ok data =>
        rw [hc] at h
        cases h
        obtain ⟨hsize, hitem⟩ := size_of_collectItems hc
        have hcount : Int64.ofNat data.size = Int64.ofNat u.size * product v.itemShape := by
          rw [hsize, Array.size_empty, Nat.zero_add, Int64.ofNat_mul, Array.length_toList]
          cases hd : u.data.toList with
          | nil =>
            have hz : u.size = 0 := by rw [size, ← Array.length_toList, hd, List.length_nil]
            rw [← size, hz]
            exact Int64.zero_mul.trans Int64.zero_mul.symm
          | cons k ks =>
            rw [ofNat_toNat_toInt (hitem (by rw [hd]; exact List.cons_ne_nil k ks))]
            rfl
        refine ⟨?_, trailing_append hu.trailing hv.trailing⟩
        rw [product_append, hu.product_eq]
        exact hcount.symm

private theorem product_shape (a : Noun) : product a.shape = a.items * product a.itemShape := by
  unfold items itemShape
  cases a.shape with
  | nil => rfl
  | cons d shape => rw [product_cons, List.tail_cons]

/-- Nouns are joined if their items have one shape. The first axis is the wrapping sum of the
numbers of items, for vectors too, whose axis is made from the elements. -/
theorem appendShape_eq_ok_iff (hu : product u.shape = Int64.ofNat u.size)
    (hv : product v.shape = Int64.ofNat v.size) {shape : List Int64} :
    appendShape u v = .ok shape ↔
      v.itemShape = u.itemShape ∧ shape = (u.items + v.items) :: u.itemShape := by
  unfold appendShape
  rw [shapeAsItems_eq, shapeAsItems_eq]
  split
  · next m n hm hn =>
    obtain ⟨-, hum⟩ := List.cons_eq_cons.mp hm
    obtain ⟨-, hvn⟩ := List.cons_eq_cons.mp hn
    have hcount (a : Noun) (ha : product a.shape = Int64.ofNat a.size) (hitem : a.itemShape = []) :
        Int64.ofNat a.size = a.items := by
      rw [← ha, product_shape, hitem, product_nil, Int64.mul_one]
    rw [Int64.ofNat_add, hcount u hu hum, hcount v hv hvn, hum, hvn, Except.ok.injEq, eq_comm]
    exact ⟨fun h ↦ ⟨rfl, h⟩, fun h ↦ h.2⟩
  · next m us n vs _ hm hn =>
    obtain ⟨rfl, rfl⟩ := List.cons_eq_cons.mp hm
    obtain ⟨rfl, rfl⟩ := List.cons_eq_cons.mp hn
    split
    · next he =>
      rw [Except.ok.injEq, eq_comm]
      exact ⟨fun h ↦ ⟨he.symm, h⟩, fun h ↦ h.2⟩
    · next he => exact ⟨nofun, fun h ↦ absurd h.1.symm he⟩
  · next hne => exact absurd rfl (hne _ _ _ _ rfl)

/-- An append has the sum of the items, each of the shape that the items of both nouns have, and the
elements of both. -/
theorem append_eq_ok (hu : product u.shape = Int64.ofNat u.size)
    (hv : product v.shape = Int64.ofNat v.size) (h : u.append limit v = .ok a) :
    a = u.joined v ∧ v.itemShape = u.itemShape := by
  unfold append at h
  cases hs : appendShape u v with
  | error e => rw [hs] at h; cases h
  | ok shape =>
    obtain ⟨hitem, rfl⟩ := (appendShape_eq_ok_iff hu hv).mp hs
    rw [hs] at h
    unfold checkCount at h
    dsimp only at h
    split at h
    · cases h
    · cases h
      exact ⟨rfl, hitem⟩

/-- Nouns whose elements are counted modulo 2^64 are so when they are joined. -/
theorem product_joined (hu : product u.shape = Int64.ofNat u.size)
    (hv : product v.shape = Int64.ofNat v.size) (h : v.itemShape = u.itemShape) :
    product (u.joined v).shape = Int64.ofNat (u.joined v).size := by
  calc product (u.joined v).shape
      = u.items * product u.itemShape + v.items * product u.itemShape := by
        rw [joined, product_cons, Int64.add_mul]
    _ = product u.shape + product v.shape := by rw [product_shape, product_shape, h]
    _ = Int64.ofNat (u.joined v).size := by rw [hu, hv, size_joined, Int64.ofNat_add]

private theorem counted_of_append (hu : u.Counted) (hv : v.Counted) (h : u.append limit v = .ok a) :
    a.Counted := by
  obtain ⟨rfl, hitem⟩ := append_eq_ok hu.product_eq hv.product_eq h
  exact ⟨product_joined hu.product_eq hv.product_eq hitem, hu.trailing⟩

end Noun

/-! ### What a run makes -/

variable {limit : Int64}

private theorem MonadicForm.counted_of_apply {form : MonadicForm} {u a : Noun} (hu : u.Counted)
    (h : form.apply limit u = .ok a) : a.Counted := by
  cases form with
  | identity => cases h; exact hu
  | iota => exact Noun.counted_of_iota h
  | tally => cases h; exact Noun.counted_scalar _
  | ravel => cases h; exact Noun.counted_vector _
  | box => cases h; exact hu

private theorem DyadicForm.counted_of_apply {form : DyadicForm} {u v a : Noun} (hu : u.Counted)
    (hv : v.Counted) (h : form.apply limit u v = .ok a) : a.Counted := by
  cases form with
  | add => exact Noun.counted_of_elementwise hu hv h
  | find => cases h; exact hu.find v
  | reshape => exact Noun.counted_of_reshape h
  | «from» => exact Noun.counted_of_select hu hv h
  | append => exact Noun.counted_of_append hu hv h
  | lessThan =>
    rw [apply, Noun.lessThan] at h
    exact Noun.counted_of_elementwise hu hv h

/-- Every verb keeps the count of the elements, under any limit. -/
theorem Verb.keeps_counted (limit : Int64) : Keeps limit Noun.Counted := by
  intro left mark right a hl hr h
  unfold apply at h
  cases left with
  | none =>
    dsimp only at h
    cases hm : monadic? mark with
    | none => rw [hm] at h; cases h
    | some form =>
      rw [hm] at h
      exact form.counted_of_apply hr (mapError_eq_ok_iff.mp h)
  | some u =>
    dsimp only at h
    cases hm : dyadic? mark with
    | none => rw [hm] at h; cases h
    | some form =>
      rw [hm] at h
      exact form.counted_of_apply (hl u rfl) hr (mapError_eq_ok_iff.mp h)

/-- The elements of every noun that a run makes are as many as its axes say, modulo 2^64, whatever
the settings and the source are. -/
theorem Settings.Makes.counted {s : Settings} {source : Text} {a : Noun} (h : s.Makes source a) :
    a.Counted := by
  refine h.of_keeps (Verb.keeps_counted s.maxElements) fun t ht hl b hb ↦ ?_
  obtain ⟨-, ⟨x, rfl⟩ | ⟨xs, rfl⟩⟩ := Noun.ofLiteral_of_mem_tokens ht hl hb
  · exact Noun.counted_scalar x
  · exact Noun.counted_vector xs

end Ravel
