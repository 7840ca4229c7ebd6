import Ravel.Noun.Display
import Ravel.Proofs.Elementwise
import Ravel.Proofs.Numerals

/-!
# The display of sound nouns

Laying cells out is a fault if a row lacks cells, and else it gives the rows and blocks that the
shape says (`Noun.layOut_eq_ok`). A sound noun has the cells that its rows and blocks need, so that
its display is no fault (`Noun.Sound.display`). Every display is made of digits, minus signs, blanks
and line feeds (`Noun.figures_of_display`).
-/

namespace Ravel

namespace Text

/-- A byte of a displayed number or of what stands between two of them. -/
def isFigure (b : UInt8) : Bool := isDigit b || b == 45 || b == 32 || b == 10

/-- A text that is made of figures. -/
def Figures (s : Text) : Prop := ∀ b ∈ s, isFigure b

/-- What is true of the bytes of some parts and of a separator is true of the bytes of the parts
with the separator between them. -/
theorem forall_mem_join {p : UInt8 → Bool} {separator : Text} {parts : List Text}
    (hs : ∀ b ∈ separator, p b) (hp : ∀ s ∈ parts, ∀ b ∈ s, p b) :
    ∀ b ∈ join separator parts, p b := by
  unfold join
  induction parts with
  | nil => exact fun b hb ↦ absurd hb List.not_mem_nil
  | cons s parts ih =>
    obtain ⟨hfirst, hrest⟩ := List.forall_mem_cons.mp hp
    cases parts with
    | nil => rwa [List.intercalate_singleton]
    | cons t parts =>
      rw [List.intercalate_cons_cons]
      intro b hb
      simp only [List.mem_append] at hb
      rcases hb with (hb | hb) | hb
      · exact hfirst b hb
      · exact hs b hb
      · exact ih hrest b hb

/-- Figures do not start as the text of an error. -/
theorem Figures.not_error_isPrefix {s : Text} (h : s.Figures) : ¬ ofString "Error: " <+: s := by
  intro hp
  have hm : (69 : UInt8) ∈ s := hp.subset List.mem_cons_self
  exact absurd (h 69 hm) (by decide)

/-- The bytes of a decimal form are digits and perhaps a minus sign. -/
theorem isDigit_or_eq_minus {n : Int64} {b : UInt8} (hb : b ∈ ofInt64 n) : isDigit b ∨ b = 45 := by
  unfold ofInt64 ofInt at hb
  split at hb
  · rcases List.mem_cons.mp hb with rfl | hb
    · exact .inr rfl
    · exact .inl (isDigit_of_mem_ofNat hb)
  · exact .inl (isDigit_of_mem_ofNat hb)

private theorem figures_ofInt64 (n : Int64) : (ofInt64 n).Figures := by
  intro b hb
  rcases isDigit_or_eq_minus hb with hd | rfl
  · rw [isFigure, hd, Bool.true_or, Bool.true_or, Bool.true_or]
  · decide

end Text

namespace Noun

/-! ### Rows and blocks -/

/-- The next `count` blocks of `size` members each. -/
def blocksOf {α : Type} (size : Nat) : (count : Nat) → List α → List (List α)
  | 0, _ => []
  | count + 1, xs => xs.take size :: blocksOf size count (xs.drop size)

section Blocks

variable {α : Type} {size count : Nat} {xs block : List α}

/-- What blocks hold is held by what they are cut from. -/
theorem mem_of_mem_blocksOf (hb : block ∈ blocksOf size count xs) {x : α} (hx : x ∈ block) :
    x ∈ xs := by
  induction count generalizing xs with
  | zero => exact absurd hb List.not_mem_nil
  | succ count ih =>
    rcases List.mem_cons.mp hb with rfl | hb
    · exact List.mem_of_mem_take hx
    · exact List.mem_of_mem_drop (ih hb)

/-- Members that are as many as the blocks need are all in the blocks, in their order. -/
theorem flatten_blocksOf (h : xs.length = count * size) :
    (blocksOf size count xs).flatten = xs := by
  induction count generalizing xs with
  | zero =>
    rw [Nat.zero_mul] at h
    rw [List.eq_nil_of_length_eq_zero h]
    rfl
  | succ count ih =>
    rw [Nat.succ_mul] at h
    rw [blocksOf, List.flatten_cons, ih (by rw [List.length_drop]; omega), List.take_append_drop]

/-- Members that are as many as the blocks need fill every block. -/
private theorem length_of_mem_blocksOf (h : xs.length = count * size)
    (hb : block ∈ blocksOf size count xs) : block.length = size := by
  induction count generalizing xs with
  | zero => exact absurd hb List.not_mem_nil
  | succ count ih =>
    rw [Nat.succ_mul] at h
    rcases List.mem_cons.mp hb with rfl | hb
    · rw [List.length_take]
      omega
    · exact ih (by rw [List.length_drop]; omega) hb

end Blocks

/-- The line that shows a row of cells. -/
def rowText (width : Nat) (row : List Text) : Text := Text.join [32] (row.map (padded width))

/-- The text that shows cells in a shape of two or more axes, if each row has its cells. -/
def layout (width : Nat) : List Int64 → List Text → Text
  | [], _ => []
  | [_], _ => []
  | [rows, cols], cells =>
    Text.join Text.newline
      ((blocksOf cols.toInt.toNat rows.toInt.toNat cells).map (rowText width))
  | n :: axis :: next :: rest, cells =>
    Text.join (Text.times (rest.length + 2) Text.newline)
      ((blocksOf (cells.length / n.toInt).toNat n.toInt.toNat cells).map
        fun block ↦ layout width (axis :: next :: rest) block)

variable {width cols total size : Nat}

/-- Rows that are laid out are the lines of the blocks of cells. -/
private theorem layRows_eq_ok {laid cells lines : List Text} {rows index : Nat}
    (h : layRows width cols total laid rows index cells = .ok lines) :
    lines = laid.reverse ++ (blocksOf cols rows cells).map (rowText width) := by
  induction rows generalizing laid index cells with
  | zero =>
    cases h
    exact (List.append_nil _).symm
  | succ rows ih =>
    rw [layRows] at h
    split at h
    · cases h
    · rw [ih h, List.reverse_cons, List.append_assoc]
      rfl

/-- Rows that have their cells are laid out. -/
private theorem exists_layRows {laid cells : List Text} {rows index : Nat}
    (hc : cells.length = rows * cols) :
    ∃ lines, layRows width cols total laid rows index cells = .ok lines := by
  induction rows generalizing laid index cells with
  | zero => exact ⟨laid.reverse, rfl⟩
  | succ rows ih =>
    rw [Nat.succ_mul] at hc
    have hrow : (cells.take cols).length = cols := by rw [List.length_take]; omega
    rw [layRows, if_neg (by omega)]
    exact ih (by rw [List.length_drop]; omega)

variable {layBlock : List Text → Except Fault Text}

/-- Blocks that are laid out are laid out one by one. -/
private theorem layBlocks_eq_ok {text : List Text → Text}
    (hb : ∀ cells block, layBlock cells = .ok block → block = text cells)
    {laid cells blocks : List Text} {count : Nat}
    (h : layBlocks layBlock size laid count cells = .ok blocks) :
    blocks = laid.reverse ++ (blocksOf size count cells).map text := by
  induction count generalizing laid cells with
  | zero =>
    cases h
    exact (List.append_nil _).symm
  | succ count ih =>
    rw [layBlocks] at h
    cases hc : layBlock (cells.take size) with
    | error f => rw [hc] at h; cases h
    | ok block =>
      rw [hc] at h
      rw [ih h, List.reverse_cons, List.append_assoc, hb _ _ hc]
      rfl

/-- Blocks are laid out if each of them is. -/
private theorem exists_layBlocks {laid cells : List Text} {count : Nat}
    (hb : ∀ block ∈ blocksOf size count cells, ∃ text, layBlock block = .ok text) :
    ∃ blocks, layBlocks layBlock size laid count cells = .ok blocks := by
  induction count generalizing laid cells with
  | zero => exact ⟨laid.reverse, rfl⟩
  | succ count ih =>
    obtain ⟨block, hblock⟩ := hb _ List.mem_cons_self
    rw [layBlocks, hblock]
    exact ih fun rest hr ↦ hb rest (List.mem_cons_of_mem _ hr)

/-- Cells that are laid out are laid out as the shape says. -/
theorem layOut_eq_ok {shape : List Int64} {cells : List Text} {text : Text}
    (h : layOut width shape cells = .ok text) : text = layout width shape cells := by
  fun_induction layout width shape cells generalizing text with
  | case1 cells => cases h; rfl
  | case2 n cells => cases h; rfl
  | case3 rows cols cells =>
    rw [layOut] at h
    cases hl : layRows width cols.toInt.toNat cells.length [] rows.toInt.toNat 0 cells with
    | error f => rw [hl] at h; cases h
    | ok lines =>
      rw [hl] at h
      cases h
      rw [layRows_eq_ok hl]
      rfl
  | case4 n axis next rest cells ih =>
    rw [layOut] at h
    split at h
    · cases h
    · dsimp only at h
      cases hl : layBlocks (layOut width (axis :: next :: rest))
          (cells.length / n.toInt : Int).toNat [] n.toInt.toNat cells with
      | error f => rw [hl] at h; cases h
      | ok blocks =>
        rw [hl] at h
        cases h
        rw [layBlocks_eq_ok (fun cells _ hx ↦ ih cells hx) hl]
        rfl

section Cells

variable {n : Int64} {shape : List Int64} {cells : List Text}

/-- The cells of a shape fill as many blocks as its first axis says with as many cells as its other
axes say. -/
theorem length_eq_blocks (hp : ∀ d ∈ n :: shape, 0 < d.toInt)
    (hc : extent (n :: shape) = cells.length) :
    (cells.length / n.toInt : Int) = extent shape ∧
      cells.length = n.toInt.toNat * (extent shape).toNat := by
  obtain ⟨hn, hs⟩ := List.forall_mem_cons.mp hp
  have hpos := extent_pos hs
  rw [extent_cons] at hc
  have hmul := Int.toNat_mul (Int.le_of_lt hn) (Int.le_of_lt hpos)
  refine ⟨?_, by omega⟩
  rw [← hc, Int.mul_ediv_cancel_left _ (by omega)]

/-- Each block of the cells of a shape has the cells of the other axes. -/
theorem extent_eq_length_of_mem_blocks (hp : ∀ d ∈ n :: shape, 0 < d.toInt)
    (hc : extent (n :: shape) = cells.length) {block : List Text}
    (hb : block ∈ blocksOf (cells.length / n.toInt : Int).toNat n.toInt.toNat cells) :
    extent shape = block.length := by
  obtain ⟨hdiv, hlen⟩ := length_eq_blocks hp hc
  have hpos := extent_pos (List.forall_mem_cons.mp hp).2
  rw [hdiv] at hb
  rw [length_of_mem_blocksOf hlen hb]
  omega

/-- The blocks of the cells of a shape are all of the cells. -/
theorem flatten_blocks (hp : ∀ d ∈ n :: shape, 0 < d.toInt)
    (hc : extent (n :: shape) = cells.length) :
    (blocksOf (cells.length / n.toInt : Int).toNat n.toInt.toNat cells).flatten = cells := by
  obtain ⟨hdiv, hlen⟩ := length_eq_blocks hp hc
  rw [hdiv, flatten_blocksOf hlen]

end Cells

/-- Cells that are as many as the shape says are laid out. -/
theorem exists_layOut {shape : List Int64} {cells : List Text} (hp : ∀ d ∈ shape, 0 < d.toInt)
    (hc : extent shape = cells.length) : ∃ text, layOut width shape cells = .ok text := by
  fun_induction layout width shape cells with
  | case1 cells => exact ⟨[], rfl⟩
  | case2 n cells => exact ⟨[], rfl⟩
  | case3 rows cols cells =>
    obtain ⟨-, hlen⟩ := length_eq_blocks hp hc
    rw [extent_cons, extent_nil, Int.mul_one] at hlen
    obtain ⟨lines, hl⟩ : ∃ lines, layRows width cols.toInt.toNat cells.length [] rows.toInt.toNat 0
        cells = .ok lines := exists_layRows hlen
    rw [layOut, hl]
    exact ⟨_, rfl⟩
  | case4 n axis next rest cells ih =>
    obtain ⟨hn, hs⟩ := List.forall_mem_cons.mp hp
    have hz : n ≠ 0 := by rintro rfl; cases hn
    obtain ⟨blocks, hb⟩ : ∃ blocks, layBlocks (layOut width (axis :: next :: rest))
        (cells.length / n.toInt : Int).toNat [] n.toInt.toNat cells = .ok blocks :=
      exists_layBlocks fun block hb ↦ ih block hs (extent_eq_length_of_mem_blocks hp hc hb)
    rw [layOut, if_neg hz]
    dsimp only
    rw [hb]
    exact ⟨_, rfl⟩

/-- The displays of nouns: nothing, one number, numbers on a line, or numbers laid out. -/
theorem display_cases {a : Noun} {text : Text} (h : a.display = .ok text) :
    (a.data.isEmpty ∧ text = []) ∨
    (a.isScalar ∧ ∃ x, a.element 0 = .ok x ∧ text = Text.ofInt64 x) ∨
    ((∃ n, a.shape = [n]) ∧ text = Text.ofInt64s a.data.toList) ∨
    (2 ≤ a.rank ∧ ∃ width, text = layout width a.shape (a.data.toList.map Text.ofInt64)) := by
  unfold display at h
  split at h
  · next he =>
    cases h
    exact .inl ⟨he, rfl⟩
  · split at h
    · next hs =>
      cases hx : a.element 0 with
      | error f => rw [hx] at h; cases h
      | ok x =>
        rw [hx] at h
        cases h
        exact .inr (.inl ⟨hs, x, rfl, rfl⟩)
    · next hs =>
      split at h
      · next n hn =>
        cases h
        exact .inr (.inr (.inl ⟨⟨n, hn⟩, rfl⟩))
      · next hn =>
        refine .inr (.inr (.inr ⟨?_, _, layOut_eq_ok h⟩))
        unfold isScalar at hs
        unfold rank
        match hshape : a.shape with
        | [] => simp [hshape] at hs
        | [n] => exact absurd hshape (hn n)
        | _ :: _ :: rest => exact Nat.le_add_left 2 rest.length

/-! ### The bytes of a display -/

/-- The element at a position is one of the elements. -/
theorem mem_of_element {a : Noun} {index : Int} {x : Int64} (h : a.element index = .ok x) :
    x ∈ a.data := by
  unfold element at h
  split at h
  · cases h
  · split at h
    · next hx =>
      cases h
      exact Array.mem_of_getElem? hx
    · cases h

section Bytes

variable {p : UInt8 → Bool} {cells row : List Text}

private theorem forall_mem_rowText (hp : p 32) (h : ∀ s ∈ row, ∀ b ∈ s, p b) :
    ∀ b ∈ rowText width row, p b := by
  refine Text.forall_mem_join (by simpa using hp) fun s hs b hb ↦ ?_
  obtain ⟨cell, hm, rfl⟩ := List.mem_map.mp hs
  rcases List.mem_append.mp hb with hb | hb
  · rw [List.eq_of_mem_replicate hb]
    exact hp
  · exact h cell hm b hb

/-- What is true of blanks, of line feeds and of the bytes of cells is true of the bytes of the text
that they are laid out as. -/
private theorem forall_mem_layout {shape : List Int64} (hp : p 32) (hn : p 10)
    (h : ∀ s ∈ cells, ∀ b ∈ s, p b) : ∀ b ∈ layout width shape cells, p b := by
  fun_induction layout width shape cells with
  | case1 cells => exact fun b hb ↦ absurd hb List.not_mem_nil
  | case2 n cells => exact fun b hb ↦ absurd hb List.not_mem_nil
  | case3 rows cols cells =>
    refine Text.forall_mem_join (by simpa [Text.newline] using hn) fun s hs ↦ ?_
    obtain ⟨row, hr, rfl⟩ := List.mem_map.mp hs
    exact forall_mem_rowText hp fun cell hc ↦ h cell (mem_of_mem_blocksOf hr hc)
  | case4 n axis next rest cells ih =>
    refine Text.forall_mem_join (fun b hb ↦ ?_) fun s hs ↦ ?_
    · have hb : b = 10 := by simpa [Text.times, Text.newline] using hb
      rw [hb]
      exact hn
    · obtain ⟨block, hb, rfl⟩ := List.mem_map.mp hs
      exact ih block fun cell hc ↦ h cell (mem_of_mem_blocksOf hb hc)

/-- What is true of blanks, of line feeds and of the bytes of the elements is true of the bytes of
the display of a noun. -/
theorem forall_mem_display {a : Noun} {text : Text} (hp : p 32) (hn : p 10)
    (h : ∀ x ∈ a.data, ∀ b ∈ Text.ofInt64 x, p b) (hd : a.display = .ok text) :
    ∀ b ∈ text, p b := by
  have hcells : ∀ s ∈ a.data.toList.map Text.ofInt64, ∀ b ∈ s, p b := by
    intro s hs
    obtain ⟨x, hx, rfl⟩ := List.mem_map.mp hs
    exact h x (Array.mem_toList_iff.mp hx)
  rcases display_cases hd with ⟨-, rfl⟩ | ⟨-, x, hx, rfl⟩ | ⟨-, rfl⟩ | ⟨-, width, rfl⟩
  · exact fun b hb ↦ absurd hb List.not_mem_nil
  · exact h x (mem_of_element hx)
  · exact Text.forall_mem_join (by simpa using hp) hcells
  · exact forall_mem_layout hp hn hcells

end Bytes

/-- What displays a noun is made of figures. -/
theorem figures_of_display {a : Noun} {text : Text} (h : a.display = .ok text) : text.Figures :=
  forall_mem_display rfl rfl (fun x _ ↦ Text.figures_ofInt64 x) h

/-- A sound noun is displayed with figures. -/
theorem Sound.display {bound : Nat} {a : Noun} (h : a.Sound bound) :
    ∃ text, a.display = .ok text ∧ text.Figures := by
  have hex : ∃ text, a.display = .ok text := by
    unfold Noun.display
    split
    · exact ⟨[], rfl⟩
    · next hne =>
      split
      · next hs =>
        obtain ⟨x, hx⟩ := h.exact.element_zero hs
        rw [hx]
        exact ⟨_, rfl⟩
      · split
        · exact ⟨_, rfl⟩
        · have hn : 0 < a.size := by
            rw [Array.isEmpty_iff_size_eq_zero] at hne
            exact Nat.pos_of_ne_zero hne
          refine exists_layOut (h.axes_pos hn) ?_
          rw [List.length_map, Array.length_toList]
          exact h.exact
  obtain ⟨text, ht⟩ := hex
  exact ⟨text, ht, figures_of_display ht⟩

end Noun

end Ravel
