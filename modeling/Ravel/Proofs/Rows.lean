import Mathlib.Data.List.Basic
import Ravel.Proofs.Display

/-!
# The rows of a display

The display of a noun of rank two or more is laid out block by block, from the first axis on. It
amounts to the rows along the last axis, in row-major order: each row is its elements in columns of
one width, and between two rows there are as many line feeds as there are axes of rows from the
outermost one whose coordinate changes on (`Noun.layout_eq_rows`, `Noun.display_exact`).
-/

namespace Ravel

private theorem flatMap_range_mul {α : Type} (n m : Nat) (f : Nat → List α) :
    (List.range (n * m)).flatMap f =
      (List.range n).flatMap fun b ↦ (List.range m).flatMap fun i ↦ f (b * m + i) := by
  induction n with
  | zero => simp
  | succ n ih =>
    rw [Nat.succ_mul, List.range_add, List.flatMap_append, ih, List.range_succ,
      List.flatMap_append, List.flatMap_map, List.flatMap_singleton]

/-- What stands before a row of parts belongs to the first one. -/
private theorem append_flatMap_range {α : Type} {n : Nat} {lead : List α} {f g : Nat → List α}
    (hn : 0 < n) (hfirst : lead ++ f 0 = g 0) (hrest : ∀ i < n, i ≠ 0 → f i = g i) :
    lead ++ (List.range n).flatMap f = (List.range n).flatMap g := by
  obtain ⟨n, rfl⟩ := Nat.exists_eq_add_one_of_ne_zero (Nat.ne_of_gt hn)
  rw [List.range_succ_eq_map, List.flatMap_cons, List.flatMap_cons, ← List.append_assoc, hfirst]
  congr 1
  refine List.flatMap_congr fun i hi ↦ ?_
  obtain ⟨j, hj, rfl⟩ := List.mem_map.mp hi
  exact hrest _ (Nat.succ_lt_succ (List.mem_range.mp hj)) (Nat.succ_ne_zero j)

namespace Text

/-- Parts with a separator between each two: before each but the first. -/
private theorem join_map_range (separator : Text) (n : Nat) (f : Nat → Text) :
    join separator ((List.range n).map f) =
      (List.range n).flatMap fun i ↦ (if i = 0 then [] else separator) ++ f i := by
  have hcons (s : Text) (parts : List Text) :
      join separator (s :: parts) = s ++ parts.flatMap (separator ++ ·) := by
    unfold join
    induction parts generalizing s with
    | nil => simp
    | cons t parts ih =>
      rw [List.intercalate_cons_cons, ih, List.flatMap_cons]
      simp
  cases n with
  | zero => rfl
  | succ n =>
    rw [List.range_succ_eq_map, List.map_cons, hcons, List.flatMap_cons, List.map_map,
      List.flatMap_map, List.flatMap_map]
    simp

/-- Parts of one length, with a byte between each two. -/
private theorem length_join {b : UInt8} {width : Nat} {parts : List Text} (hne : parts ≠ [])
    (hp : ∀ s ∈ parts, s.length = width) :
    (join [b] parts).length + 1 = parts.length * (width + 1) := by
  unfold join
  induction parts with
  | nil => exact absurd rfl hne
  | cons s parts ih =>
    obtain ⟨hs, hrest⟩ := List.forall_mem_cons.mp hp
    cases parts with
    | nil => simp [hs]
    | cons t parts =>
      have := ih (List.cons_ne_nil t parts) hrest
      rw [List.intercalate_cons_cons, List.length_append, List.length_append, hs,
        List.length_singleton, List.length_cons, Nat.succ_mul]
      omega

private theorem ofInt64_ne_nil (x : Int64) : ofInt64 x ≠ [] := by
  unfold ofInt64 ofInt
  split
  · exact List.cons_ne_nil _ _
  · exact ofNat_ne_nil _

private theorem times_newline (n : Nat) : times n newline = List.replicate n 10 := by
  simp [times, newline]

end Text

namespace Noun

/-! ### Coordinates -/

/-- The coordinates of a position in row-major order, one along each axis: that along the last axis
changes fastest. -/
def coordinates : List Int64 → Nat → List Nat
  | [], _ => []
  | _ :: axes, i => i / (extent axes).toNat :: coordinates axes (i % (extent axes).toNat)

/-- The outermost axis along which coordinates differ. -/
def outermostChange : List Nat → List Nat → Nat
  | x :: xs, y :: ys => if x = y then outermostChange xs ys + 1 else 0
  | _, _ => 0

/-- The line feeds before the row at a position: none before the first row, and else one for each
axis of the rows from the outermost one that changes on. -/
def lineFeeds (axes : List Int64) (i : Nat) : Nat :=
  if i = 0 then 0
  else axes.length - outermostChange (coordinates axes (i - 1)) (coordinates axes i)

section Coordinates

variable {n : Int64} {axes : List Int64}

@[simp]
private theorem length_coordinates (axes : List Int64) (i : Nat) :
    (coordinates axes i).length = axes.length := by
  induction axes generalizing i with
  | nil => rfl
  | cons n axes ih => rw [coordinates, List.length_cons, ih, List.length_cons]

private theorem coordinates_cons {b i : Nat} (hi : i < (extent axes).toNat) :
    coordinates (n :: axes) (b * (extent axes).toNat + i) = b :: coordinates axes i := by
  rw [coordinates, Nat.mul_comm, Nat.mul_add_div (by omega), Nat.mul_add_mod,
    Nat.div_eq_of_lt hi, Nat.mod_eq_of_lt hi, Nat.add_zero]

private theorem lineFeeds_cons {b i : Nat} (hi : i < (extent axes).toNat) :
    lineFeeds (n :: axes) (b * (extent axes).toNat + i) =
      if i = 0 then if b = 0 then 0 else axes.length + 1 else lineFeeds axes i := by
  unfold lineFeeds
  rw [coordinates_cons hi]
  by_cases h0 : i = 0
  · subst h0
    cases b with
    | zero => simp
    | succ b =>
      -- the row before is the last one of the block before
      have hlast : (b + 1) * (extent axes).toNat + 0 =
          b * (extent axes).toNat + ((extent axes).toNat - 1) + 1 := by
        rw [Nat.succ_mul]
        omega
      rw [hlast, Nat.add_sub_cancel, coordinates_cons (by omega), outermostChange,
        if_neg (Nat.succ_ne_zero _), if_neg (by omega : b ≠ b + 1)]
      simp
  · have hbefore : b * (extent axes).toNat + i - 1 = b * (extent axes).toNat + (i - 1) := by
      omega
    rw [hbefore, coordinates_cons (by omega), outermostChange, if_neg (by omega), if_neg h0,
      if_neg h0, if_pos rfl, List.length_cons]
    omega

/-- Different coordinates differ along the outermost axis that changes, and agree along those before
it. -/
private theorem outermostChange_spec {xs ys : List Nat} (hl : xs.length = ys.length)
    (hne : xs ≠ ys) :
    outermostChange xs ys < xs.length ∧
      xs[outermostChange xs ys]? ≠ ys[outermostChange xs ys]? ∧
      ∀ k < outermostChange xs ys, xs[k]? = ys[k]? := by
  induction xs generalizing ys with
  | nil => exact absurd (List.length_eq_zero_iff.mp hl.symm).symm hne
  | cons x xs ih =>
    cases ys with
    | nil => cases hl
    | cons y ys =>
      rw [outermostChange]
      by_cases hxy : x = y
      · subst hxy
        obtain ⟨hlt, hdiff, hsame⟩ := ih (Nat.succ.inj hl) fun h ↦ hne (by rw [h])
        rw [if_pos rfl]
        refine ⟨Nat.succ_lt_succ hlt, hdiff, fun k hk ↦ ?_⟩
        cases k with
        | zero => rfl
        | succ k => exact hsame k (Nat.lt_of_succ_lt_succ hk)
      · rw [if_neg hxy]
        refine ⟨Nat.zero_lt_succ _, ?_, fun k hk ↦ absurd hk (Nat.not_lt_zero k)⟩
        simpa using hxy

/-- Positions within the extent of the axes have different coordinates. -/
private theorem coordinates_inj (hp : ∀ d ∈ axes, 0 < d.toInt) {i j : Nat}
    (hi : i < (extent axes).toNat) (hj : j < (extent axes).toNat)
    (h : coordinates axes i = coordinates axes j) : i = j := by
  induction axes generalizing i j with
  | nil =>
    rw [extent_nil] at hi hj
    omega
  | cons n axes ih =>
    obtain ⟨-, hrest⟩ := List.forall_mem_cons.mp hp
    have hpos := extent_pos hrest
    rw [coordinates, coordinates, List.cons.injEq] at h
    have hmod := ih hrest (Nat.mod_lt i (by omega)) (Nat.mod_lt j (by omega)) h.2
    rw [← Nat.div_add_mod i (extent axes).toNat, ← Nat.div_add_mod j (extent axes).toNat, h.1, hmod]

end Coordinates

/-! ### Rows -/

/-- A number filled up with blanks on its left to a width. -/
def aligned (width : Nat) (x : Int64) : Text :=
  List.replicate (width - (Text.ofInt64 x).length) 32 ++ Text.ofInt64 x

/-- The row at a position: so many elements after those of the rows before, aligned and with single
blanks between them. -/
def rowAt (width cols : Nat) (data : Array Int64) (i : Nat) : Text :=
  Text.join [32] (((data.toList.drop (i * cols)).take cols).map (aligned width))

private theorem blocksOf_eq_map_range {α : Type} (size count : Nat) (xs : List α) :
    blocksOf size count xs =
      (List.range count).map fun b ↦ (xs.drop (b * size)).take size := by
  induction count generalizing xs with
  | zero => rfl
  | succ count ih =>
    rw [blocksOf, ih, List.range_succ_eq_map, List.map_cons, List.map_map]
    congr 1
    · simp
    · refine List.map_congr_left fun b _ ↦ ?_
      rw [Function.comp_apply, List.drop_drop, Nat.succ_mul, Nat.add_comm]

private theorem take_drop_take_drop {α : Type} {m size cols start : Nat} (h : m + cols ≤ size)
    (xs : List α) :
    ((((xs.drop start).take size).drop m).take cols) = (xs.drop (start + m)).take cols := by
  rw [List.drop_take, List.take_take, List.drop_drop, Nat.min_eq_left (by omega)]

private theorem layout_cons {width : Nat} {axes : List Int64} (ha : axes ≠ []) (n cols : Int64)
    (cells : List Text) :
    layout width (n :: (axes ++ [cols])) cells =
      Text.join (Text.times (axes.length + 1) Text.newline)
        ((blocksOf (cells.length / n.toInt).toNat n.toInt.toNat cells).map
          fun block ↦ layout width (axes ++ [cols]) block) := by
  obtain ⟨m, axes, rfl⟩ := List.exists_cons_of_ne_nil ha
  cases axes with
  | nil => rfl
  | cons m' axes => simp [layout]

/-- Cells that are as many as the shape says are laid out row by row, with line feeds before each
row but the first. -/
theorem layout_eq_rows {width : Nat} {axes : List Int64} {cols : Int64} {cells : List Text}
    (ha : axes ≠ []) (hp : ∀ d ∈ axes ++ [cols], 0 < d.toInt)
    (hc : extent (axes ++ [cols]) = cells.length) :
    layout width (axes ++ [cols]) cells =
      (List.range (extent axes).toNat).flatMap fun i ↦
        List.replicate (lineFeeds axes i) 10 ++
          rowText width ((cells.drop (i * cols.toInt.toNat)).take cols.toInt.toNat) := by
  induction axes generalizing cells with
  | nil => exact absurd rfl ha
  | cons n axes ih =>
    by_cases hrest : axes = []
    · subst hrest
      have hfeeds (i : Nat) : lineFeeds [n] i = if i = 0 then 0 else 1 := by
        simpa using @lineFeeds_cons n [] i 0 Nat.one_pos
      rw [List.singleton_append, layout, blocksOf_eq_map_range, List.map_map, Text.join_map_range,
        extent_cons, extent_nil, Int.mul_one]
      refine List.flatMap_congr fun i _ ↦ ?_
      rw [hfeeds]
      split <;> rfl
    · rw [List.cons_append] at hp hc ⊢
      obtain ⟨hn, haxes⟩ := List.forall_mem_cons.mp hp
      obtain ⟨hdiv, hlen⟩ := length_eq_blocks hp hc
      have hcols : 0 < cols.toInt := haxes cols (by simp)
      have hpos := extent_pos fun d hd ↦ haxes d (List.mem_append_left _ hd)
      -- a block has as many rows as the other axes say, of `cols` cells each
      have hsize : (extent (axes ++ [cols])).toNat =
          (extent axes).toNat * cols.toInt.toNat := by
        rw [extent_append, extent_cons, extent_nil, Int.mul_one,
          Int.toNat_mul (by omega) (by omega)]
      have hrows : (extent (n :: axes)).toNat = n.toInt.toNat * (extent axes).toNat := by
        rw [extent_cons, Int.toNat_mul (by omega) (by omega)]
      rw [layout_cons hrest, hdiv, blocksOf_eq_map_range, List.map_map, Text.join_map_range, hrows,
        flatMap_range_mul, Text.times_newline]
      refine List.flatMap_congr fun b hb ↦ ?_
      rw [Function.comp_apply, ih hrest haxes]
      · have hrow (i : Nat) (hi : i < (extent axes).toNat) :
            ((((cells.drop (b * (extent (axes ++ [cols])).toNat)).take
              (extent (axes ++ [cols])).toNat).drop (i * cols.toInt.toNat)).take
                cols.toInt.toNat) =
              (cells.drop ((b * (extent axes).toNat + i) * cols.toInt.toNat)).take
                cols.toInt.toNat := by
          have hle : (i + 1) * cols.toInt.toNat ≤ (extent axes).toNat * cols.toInt.toNat :=
            Nat.mul_le_mul_right _ hi
          rw [Nat.succ_mul] at hle
          rw [take_drop_take_drop (by omega), hsize, Nat.add_mul, Nat.mul_assoc]
        refine append_flatMap_range (by omega) ?_ fun i hi h0 ↦ ?_
        · rw [hrow 0 (by omega), lineFeeds_cons (by omega), if_pos rfl]
          split <;> rfl
        · rw [hrow i hi, lineFeeds_cons hi, if_neg h0]
      · refine extent_eq_length_of_mem_blocks hp hc ?_
        rw [hdiv, blocksOf_eq_map_range]
        exact List.mem_map_of_mem hb

/-! ### Widths and ends -/

/-- The width of cells is the length of the longest one, if there are cells and none is empty. -/
private theorem cellWidth_spec {cells : List Text} (hne : cells ≠ []) (hc : ∀ s ∈ cells, s ≠ []) :
    (∀ s ∈ cells, s.length ≤ cellWidth cells) ∧ ∃ s ∈ cells, s.length = cellWidth cells := by
  have hfold (w : Nat) :
      w ≤ cells.foldl (fun w s ↦ max w s.length) w ∧
      (∀ s ∈ cells, s.length ≤ cells.foldl (fun w s ↦ max w s.length) w) ∧
      (cells.foldl (fun w s ↦ max w s.length) w = w ∨
        ∃ s ∈ cells, s.length = cells.foldl (fun w s ↦ max w s.length) w) := by
    clear hne hc
    induction cells generalizing w with
    | nil => simp
    | cons t cells ih =>
      obtain ⟨hle, hall, hwidth⟩ := ih (max w t.length)
      rw [List.foldl_cons]
      refine ⟨by omega, ?_, ?_⟩
      · intro s hs
        rcases List.mem_cons.mp hs with rfl | hs
        · omega
        · exact hall s hs
      · rcases hwidth with hw | ⟨s, hs, hw⟩
        · rcases Nat.le_total w t.length with hwt | hwt
          · exact .inr ⟨t, List.mem_cons_self, by omega⟩
          · exact .inl (by omega)
        · exact .inr ⟨s, List.mem_cons_of_mem t hs, hw⟩
  obtain ⟨-, hall, hwidth⟩ := hfold 1
  refine ⟨hall, ?_⟩
  rcases hwidth with h1 | hwidth
  · obtain ⟨s, hs⟩ := List.exists_mem_of_ne_nil cells hne
    have hpos := List.length_pos_iff.mpr (hc s hs)
    have hle := hall s hs
    exact ⟨s, hs, by rw [cellWidth]; omega⟩
  · exact hwidth

/-- The width of the cells of numbers is the length of the longest decimal form. -/
private theorem cellWidth_map_ofInt64 {data : Array Int64} (hn : 0 < data.size) :
    (∀ x ∈ data, (Text.ofInt64 x).length ≤ cellWidth (data.toList.map Text.ofInt64)) ∧
      ∃ x ∈ data, (Text.ofInt64 x).length = cellWidth (data.toList.map Text.ofInt64) := by
  have hne : data.toList.map Text.ofInt64 ≠ [] := by
    rw [← List.length_pos_iff, List.length_map, Array.length_toList]
    exact hn
  have hcells : ∀ s ∈ data.toList.map Text.ofInt64, s ≠ [] := by
    intro s hs
    obtain ⟨x, -, rfl⟩ := List.mem_map.mp hs
    exact Text.ofInt64_ne_nil x
  obtain ⟨hall, s, hs, hlongest⟩ := cellWidth_spec hne hcells
  refine ⟨fun x hx ↦ hall _ (List.mem_map_of_mem (Array.mem_toList_iff.mpr hx)), ?_⟩
  obtain ⟨x, hx, rfl⟩ := List.mem_map.mp hs
  exact ⟨x, Array.mem_toList_iff.mp hx, hlongest⟩

section Row

variable {width cols : Nat} {data : Array Int64} {i : Nat}

private theorem length_aligned {x : Int64} (h : (Text.ofInt64 x).length ≤ width) :
    (aligned width x).length = width := by
  rw [aligned, List.length_append, List.length_replicate]
  omega

/-- The row at a position has all its elements, each in as many bytes as the width, and blanks
between them. -/
private theorem length_rowAt (hw : ∀ x ∈ data, (Text.ofInt64 x).length ≤ width) (hc : 0 < cols)
    (hi : (i + 1) * cols ≤ data.size) :
    (rowAt width cols data i).length = cols * (width + 1) - 1 := by
  have hlen : (((data.toList.drop (i * cols)).take cols).map (aligned width)).length = cols := by
    rw [Nat.succ_mul] at hi
    rw [List.length_map, List.length_take, List.length_drop, Array.length_toList]
    omega
  have hne : ((data.toList.drop (i * cols)).take cols).map (aligned width) ≠ [] := by
    rw [← List.length_pos_iff, hlen]
    exact hc
  have hall : ∀ s ∈ ((data.toList.drop (i * cols)).take cols).map (aligned width),
      s.length = width := by
    intro s hs
    obtain ⟨x, hx, rfl⟩ := List.mem_map.mp hs
    have hmem : x ∈ data :=
      Array.mem_toList_iff.mp (List.mem_of_mem_drop (List.mem_of_mem_take hx))
    exact length_aligned (hw x hmem)
  have hjoin := Text.length_join (b := 32) hne hall
  rw [hlen] at hjoin
  rw [rowAt]
  omega

/-- A row is on one line. -/
private theorem not_mem_rowAt : (10 : UInt8) ∉ rowAt width cols data i := by
  have hall : ∀ b ∈ rowAt width cols data i, (b != 10) = true := by
    refine Text.forall_mem_join (List.forall_mem_singleton.mpr rfl) fun s hs b hb ↦ ?_
    obtain ⟨x, -, rfl⟩ := List.mem_map.mp hs
    rcases List.mem_append.mp hb with hb | hb
    · rw [List.eq_of_mem_replicate hb]
      rfl
    · rw [bne_iff_ne]
      rintro rfl
      rcases Text.isDigit_or_eq_minus hb with hd | hd
      · exact absurd hd (by decide)
      · exact absurd hd (by decide)
  intro h
  exact absurd (hall 10 h) (by decide)

end Row

/-- Rows with line feeds before all but the first one start and end as the first and the last
row. -/
private theorem ends_of_rows {feeds : Nat → Nat} {row : Nat → Text} {n : Nat} (hn : 0 < n)
    (hfirst : feeds 0 = 0) (hrow : ∀ i < n, row i ≠ [] ∧ 10 ∉ row i) :
    ((List.range n).flatMap fun i ↦ List.replicate (feeds i) 10 ++ row i).head? ≠ some 10 ∧
      ((List.range n).flatMap fun i ↦ List.replicate (feeds i) 10 ++ row i).getLast? ≠
        some 10 := by
  obtain ⟨n, rfl⟩ := Nat.exists_eq_add_one_of_ne_zero (Nat.ne_of_gt hn)
  constructor
  · obtain ⟨hne, hno⟩ := hrow 0 hn
    rw [List.range_succ_eq_map, List.flatMap_cons, hfirst, List.replicate_zero, List.nil_append,
      List.head?_append_of_ne_nil _ hne]
    exact fun h ↦ hno (List.mem_of_head? h)
  · obtain ⟨hne, hno⟩ := hrow n (Nat.lt_succ_self n)
    rw [List.range_succ, List.flatMap_append, List.flatMap_singleton, ← List.append_assoc,
      List.getLast?_append_of_ne_nil _ hne]
    exact fun h ↦ hno (List.mem_of_getLast? h)

section Display

variable {a : Noun} {axes : List Int64} {cols : Int64}

private theorem rows_mul_cols (he : a.Exact) (hshape : a.shape = axes ++ [cols])
    (hp : ∀ d ∈ axes ++ [cols], 0 < d.toInt) :
    (extent axes).toNat * cols.toInt.toNat = a.size := by
  have hpos := extent_pos fun d hd ↦ hp d (List.mem_append_left _ hd)
  have hcols : 0 < cols.toInt := hp cols (by simp)
  rw [Exact, hshape, extent_append, extent_cons, extent_nil, Int.mul_one] at he
  rw [← Int.toNat_mul (by omega) (by omega), he, Int.toNat_natCast]

/-- A noun with elements and two or more axes is displayed by laying its elements out. -/
private theorem display_eq_layOut (hn : 0 < a.size) (hr : 2 ≤ a.rank) :
    a.display = layOut (cellWidth (a.data.toList.map Text.ofInt64)) a.shape
      (a.data.toList.map Text.ofInt64) := by
  have hempty : ¬ a.data.isEmpty = true := by
    rw [Array.isEmpty_iff_size_eq_zero]
    exact Nat.ne_of_gt hn
  have hscalar : ¬ a.isScalar = true := by
    rw [isScalar_iff]
    rintro (h | h)
    · rw [rank, h] at hr
      exact absurd hr (by decide)
    · rw [rank, h] at hr
      exact absurd hr (by decide)
  unfold display
  rw [if_neg hempty, if_neg hscalar]
  split
  · next n h =>
    rw [rank, h] at hr
    exact absurd hr (Nat.not_succ_le_self 1)
  · rfl

/-- A noun with elements and two or more axes is displayed in rows, in columns of the width of its
cells. -/
private theorem display_eq_rows (he : a.Exact) (hn : 0 < a.size) (hr : 2 ≤ a.rank)
    (hshape : a.shape = axes ++ [cols]) (hp : ∀ d ∈ axes ++ [cols], 0 < d.toInt) :
    a.display = .ok ((List.range (extent axes).toNat).flatMap fun i ↦
      List.replicate (lineFeeds axes i) 10 ++
        rowAt (cellWidth (a.data.toList.map Text.ofInt64)) cols.toInt.toNat a.data i) := by
  have haxes : axes ≠ [] := by
    rintro rfl
    rw [rank, hshape] at hr
    exact absurd hr (by simp)
  have hcells : extent (axes ++ [cols]) = (a.data.toList.map Text.ofInt64).length := by
    rw [List.length_map, Array.length_toList, ← hshape]
    exact he
  obtain ⟨text, htext⟩ : ∃ text, layOut (cellWidth (a.data.toList.map Text.ofInt64))
      (axes ++ [cols]) (a.data.toList.map Text.ofInt64) = .ok text := exists_layOut hp hcells
  rw [display_eq_layOut hn hr, hshape, htext, layOut_eq_ok htext, layout_eq_rows haxes hp hcells]
  congr 2
  funext i
  rw [rowText, rowAt, ← List.map_drop, ← List.map_take, List.map_map]
  rfl

/-- Between two rows there is a coordinate that changes, so that there are line feeds. -/
private theorem lineFeeds_spec (hp : ∀ d ∈ axes, 0 < d.toInt) {i : Nat} (h0 : 0 < i)
    (hi : i < (extent axes).toNat) :
    ∃ j < axes.length, lineFeeds axes i = axes.length - j ∧
      (coordinates axes (i - 1))[j]? ≠ (coordinates axes i)[j]? ∧
      ∀ k < j, (coordinates axes (i - 1))[k]? = (coordinates axes i)[k]? := by
  have hne : coordinates axes (i - 1) ≠ coordinates axes i := by
    intro h
    have := coordinates_inj hp (by omega) hi h
    omega
  obtain ⟨hlt, hchange, hsame⟩ := outermostChange_spec (by simp) hne
  rw [length_coordinates] at hlt
  exact ⟨_, hlt, by rw [lineFeeds, if_neg (by omega)], hchange, hsame⟩

/-- The display of a noun is its rows of padded elements, set apart by a line feed for each axis
from the outermost one that changes. -/
theorem display_exact (he : a.Exact) (hs : ∀ d ∈ a.shape, 0 ≤ d.toInt) (hn : 0 < a.size)
    (hr : 2 ≤ a.rank) (hshape : a.shape = axes ++ [cols]) :
    let rows := (extent axes).toNat
    let columns := cols.toInt.toNat
    rows * columns = a.size ∧
    ∃ text width, a.display = .ok text ∧
      text = (List.range rows).flatMap (fun i ↦
        List.replicate (lineFeeds axes i) 10 ++ rowAt width columns a.data i) ∧
      (∀ x ∈ a.data, (Text.ofInt64 x).length ≤ width) ∧
      (∃ x ∈ a.data, (Text.ofInt64 x).length = width) ∧
      (∀ i < rows, (rowAt width columns a.data i).length = columns * (width + 1) - 1 ∧
        10 ∉ rowAt width columns a.data i) ∧
      (lineFeeds axes 0 = 0 ∧ text.head? ≠ some 10 ∧ text.getLast? ≠ some 10) ∧
      ∀ i, 0 < i → i < rows → ∃ j < a.rank - 1, lineFeeds axes i = a.rank - 1 - j ∧
        (coordinates axes (i - 1))[j]? ≠ (coordinates axes i)[j]? ∧
        ∀ k < j, (coordinates axes (i - 1))[k]? = (coordinates axes i)[k]? := by
  intro rows columns
  have hp : ∀ d ∈ axes ++ [cols], 0 < d.toInt := by
    rw [← hshape]
    refine pos_of_extent_pos hs ?_
    rw [he]
    omega
  have hleading : ∀ d ∈ axes, 0 < d.toInt := fun d hd ↦ hp d (List.mem_append_left _ hd)
  have hcount : rows * columns = a.size := rows_mul_cols he hshape hp
  have hcolumns : 0 < columns := by
    have := hp cols (by simp)
    omega
  have hrows : 0 < rows := by
    have := extent_pos hleading
    omega
  have hrank : a.rank - 1 = axes.length := by
    rw [rank, hshape, List.length_append, List.length_singleton, Nat.add_sub_cancel]
  obtain ⟨hwidth, hlongest⟩ := cellWidth_map_ofInt64 hn
  have hrow (i : Nat) (hi : i < rows) :
      (rowAt (cellWidth (a.data.toList.map Text.ofInt64)) columns a.data i).length =
        columns * (cellWidth (a.data.toList.map Text.ofInt64) + 1) - 1 := by
    refine length_rowAt hwidth hcolumns (Nat.le_trans (Nat.mul_le_mul_right columns hi) ?_)
    exact Nat.le_of_eq hcount
  refine ⟨hcount, _, _, display_eq_rows he hn hr hshape hp, rfl, hwidth, hlongest,
    fun i hi ↦ ⟨hrow i hi, not_mem_rowAt⟩, ⟨rfl, ?ends⟩, ?between⟩
  case ends =>
    refine ends_of_rows hrows rfl fun i hi ↦ ⟨?_, not_mem_rowAt⟩
    obtain ⟨x, -, hx⟩ := hlongest
    have hpos := List.length_pos_iff.mpr (Text.ofInt64_ne_nil x)
    have hbytes : 1 * 2 ≤ columns * (cellWidth (a.data.toList.map Text.ofInt64) + 1) :=
      Nat.mul_le_mul hcolumns (by omega)
    rw [← List.length_pos_iff, hrow i hi]
    omega
  case between =>
    intro i h0 hi
    rw [hrank]
    exact lineFeeds_spec hleading h0 hi

/-- Two planes of two rows, with a negative number that sets the width: two line feeds between the
planes, one between the rows of a plane. -/
theorem display_exact_planes :
    let a : Noun := ⟨[2, 2, 2], #[1, 2, 3, 4, 5, -6, 7, 8]⟩
    ∃ text, a.display = .ok text ∧ text = Text.ofString " 1  2\n 3  4\n\n 5 -6\n 7  8" ∧
      text.head? ≠ some 10 ∧ text.getLast? ≠ some 10 := by
  intro a
  obtain ⟨-, text, width, hd, rfl, hle, ⟨x, hx, hw⟩, -, ⟨-, hhead, hlast⟩, -⟩ :=
    @display_exact a [2, 2] 2 rfl (by simp [a]) (by decide) (by decide) rfl
  refine ⟨_, hd, ?_, hhead, hlast⟩
  have hall : a.data.toList.all (fun x ↦ (Text.ofInt64 x).length ≤ 2) = true := by decide
  have hlow : 2 ≤ width := hle (-6) (by simp [a])
  have hhigh := of_decide_eq_true (List.all_eq_true.mp hall x (Array.mem_toList_iff.mpr hx))
  have hwidth : width = 2 := by omega
  rw [hwidth]
  rfl

end Display

end Noun

end Ravel
