import Identicon.Raster
import Mathlib

/-!
# Filling a square

Where every pixel has a byte, a square is filled with these bytes row by row from the top, whatever
the order in which the steps of the rows take place.

Each step reads and writes what belongs to its own row alone. The invariant (`Progress`) therefore
says of each row that its pixels up to the next column are written, and a step moves the next column
of one row by one. After as many steps as a row has pixels the row is full, and the steps that
follow the given order are enough for all rows.
-/

namespace Identicon

variable {ε : Type} {side : ℕ} {pixel : ℕ → ℕ → Except ε UInt8} {byte : ℕ → ℕ → UInt8}

/-- The bytes of a square row by row. -/
def squareOf (side : ℕ) (byte : ℕ → ℕ → UInt8) : Array UInt8 :=
  (Array.range (side * side)).map fun i => byte (i % side) (i / side)

theorem size_squareOf (side : ℕ) (byte : ℕ → ℕ → UInt8) :
    (squareOf side byte).size = side * side := by
  rw [squareOf, Array.size_map, Array.size_range]

/-- The place of a pixel lies in the rectangle. -/
theorem row_mul_add_lt {width height row px : ℕ} (hrow : row < height) (hpx : px < width) :
    row * width + px < height * width := by
  calc row * width + px < row * width + width := by omega
    _ = (row + 1) * width := by ring
    _ ≤ height * width := Nat.mul_le_mul_right width hrow

theorem row_mul_add_mod {row px : ℕ} (hpx : px < side) : (row * side + px) % side = px := by
  rw [Nat.mul_add_mod_self_right, Nat.mod_eq_of_lt hpx]

theorem row_mul_add_div {row px : ℕ} (hpx : px < side) : (row * side + px) / side = row := by
  rw [Nat.mul_comm, Nat.mul_add_div (by omega), Nat.div_eq_of_lt hpx, Nat.add_zero]

theorem getElem?_squareOf {row px : ℕ} (hrow : row < side) (hpx : px < side) :
    (squareOf side byte)[row * side + px]? = some (byte px row) := by
  rw [squareOf, Array.getElem?_map, Array.getElem?_range, if_pos (row_mul_add_lt hrow hpx),
    Option.map_some, row_mul_add_mod hpx, row_mul_add_div hpx]

/-- Every byte of a square is that of a pixel. -/
theorem exists_of_mem_squareOf {b : UInt8} (h : b ∈ squareOf side byte) :
    ∃ px < side, ∃ row < side, byte px row = b := by
  obtain ⟨i, hi, rfl⟩ := Array.mem_map.mp h
  rw [Array.mem_range] at hi
  have hside : 0 < side := Nat.pos_of_mul_pos_left (by omega : 0 < side * side)
  exact ⟨i % side, Nat.mod_lt i hside, i / side, Nat.div_lt_of_lt_mul hi, rfl⟩

/-- A filled square is known by its pixels. -/
theorem eq_squareOf {bytes : Array UInt8} (hsize : bytes.size = side * side)
    (h : ∀ row < side, ∀ px < side, bytes[row * side + px]? = some (byte px row)) :
    bytes = squareOf side byte := by
  apply Array.ext_getElem?
  intro i
  by_cases hi : i < side * side
  · have hside : 0 < side := Nat.pos_of_mul_pos_left (by omega : 0 < side * side)
    have hrow : i / side < side := Nat.div_lt_of_lt_mul hi
    have hpx : i % side < side := Nat.mod_lt i hside
    have hplace : i / side * side + i % side = i := Nat.div_add_mod' i side
    have hleft := h _ hrow _ hpx
    have hright : (squareOf side byte)[i / side * side + i % side]? = _ :=
      getElem?_squareOf hrow hpx
    rw [hplace] at hleft hright
    rw [hleft, hright]
  · rw [Array.getElem?_eq_none (by omega), Array.getElem?_eq_none (by rw [size_squareOf]; omega)]

/-! ## Row by row -/

theorem mapM_eq_ok {α β : Type} {f : α → Except ε β} {g : α → β} {l : List α}
    (h : ∀ a ∈ l, f a = .ok (g a)) : l.mapM f = .ok (l.map g) := by
  induction l with
  | nil => rfl
  | cons a l ih =>
    rw [List.mapM_cons, h a List.mem_cons_self, ih fun b hb => h b (List.mem_cons_of_mem a hb)]
    rfl

theorem fillRowByRow_eq (hpixel : ∀ px < side, ∀ py < side, pixel px py = .ok (byte px py)) :
    fillRowByRow side pixel = .ok (squareOf side byte) := by
  have hlist : (List.range (side * side)).mapM (fun i => pixel (i % side) (i / side)) =
      .ok ((List.range (side * side)).map fun i => byte (i % side) (i / side)) := by
    apply mapM_eq_ok
    intro i hi
    rw [List.mem_range] at hi
    have hside : 0 < side := Nat.pos_of_mul_pos_left (by omega : 0 < side * side)
    exact hpixel _ (Nat.mod_lt i hside) _ (Nat.div_lt_of_lt_mul hi)
  rw [fillRowByRow, Array.mapM_eq_mapM_toList, Array.toList_range, hlist, squareOf,
    ← List.toArray_range, List.map_toArray]
  rfl

/-! ## In any order -/

namespace RowsInProgress

/-- The next column of a row; a row that does not exist counts as full. -/
def column (work : RowsInProgress) (side row : ℕ) : ℕ :=
  work.columns[row]?.getD side

/-- Every row is full. -/
def Finished (side : ℕ) (work : RowsInProgress) : Prop :=
  ∀ row < side, work.columns[row]? = some side

theorem column_start (side row : ℕ) :
    (start side).column side row = if row < side then 0 else side := by
  rw [column, start, Array.getElem?_replicate]
  split <;> rfl

/-- The work so far: of each row, the pixels up to the next column are written. -/
structure Progress (side : ℕ) (byte : ℕ → ℕ → UInt8) (work : RowsInProgress) : Prop where
  size_bytes : work.bytes.size = side * side
  size_columns : work.columns.size = side
  column_le : ∀ row, work.column side row ≤ side
  written : ∀ row < side, ∀ px < work.column side row,
    work.bytes[row * side + px]? = some (byte px row)

theorem progress_start (side : ℕ) (byte : ℕ → ℕ → UInt8) : Progress side byte (start side) := by
  refine ⟨Array.size_replicate, Array.size_replicate, ?_, ?_⟩
  · intro row
    rw [column_start]
    split <;> omega
  · intro row hrow px hpx
    rw [column_start, if_pos hrow] at hpx
    omega

variable {work : RowsInProgress} {row px : ℕ}

theorem Progress.getElem?_columns (h : Progress side byte work) (hrow : row < side) :
    work.columns[row]? = some (work.column side row) := by
  have hin : row < work.columns.size := by
    rw [h.size_columns]
    exact hrow
  rw [column, Array.getElem?_eq_getElem hin, Option.getD_some]

theorem Progress.finished_iff (h : Progress side byte work) :
    work.Finished side ↔ ∀ row < side, work.column side row = side := by
  apply forall₂_congr
  intro row hrow
  rw [h.getElem?_columns hrow, Option.some.injEq]

/-- When all rows are full, all bytes are written. -/
theorem Progress.bytes_eq (h : Progress side byte work) (hfinished : work.Finished side) :
    work.bytes = squareOf side byte := by
  apply eq_squareOf h.size_bytes
  intro row hrow px hpx
  apply h.written row hrow
  rw [h.finished_iff.mp hfinished row hrow]
  exact hpx

/-- The work after a row has written a byte in a column. -/
def write (work : RowsInProgress) (side row px : ℕ) (b : UInt8) : RowsInProgress :=
  ⟨work.bytes.setIfInBounds (row * side + px) b, work.columns.setIfInBounds row (px + 1)⟩

theorem column_write (hrow : row < work.columns.size) (b : UInt8) (r : ℕ) :
    (work.write side row px b).column side r =
      if r = row then px + 1 else work.column side r := by
  rw [column, write, Array.getElem?_setIfInBounds]
  by_cases hr : row = r
  · rw [if_pos hr, if_pos hrow, if_pos hr.symm, Option.getD_some]
  · rw [if_neg hr, if_neg (Ne.symm hr), column]

/-- Writing the next byte of a row keeps what is written and adds one pixel to it. -/
theorem Progress.write (h : Progress side byte work) (hrow : row < side)
    (hcolumn : work.column side row = px) (hpx : px < side) :
    Progress side byte (work.write side row px (byte px row)) := by
  have hnext : ∀ r, (work.write side row px (byte px row)).column side r = _ :=
    column_write (by rw [h.size_columns]; exact hrow) (byte px row)
  refine ⟨?_, ?_, ?_, ?_⟩
  · rw [RowsInProgress.write, Array.size_setIfInBounds, h.size_bytes]
  · rw [RowsInProgress.write, Array.size_setIfInBounds, h.size_columns]
  · intro r
    rw [hnext]
    have hle := h.column_le r
    split <;> omega
  · intro r hr q hq
    have hplace : row * side + px < work.bytes.size := by
      rw [h.size_bytes]
      exact row_mul_add_lt hrow hpx
    have hq' : q < side := hq.trans_le (by rw [hnext]; have := h.column_le r; split <;> omega)
    rw [RowsInProgress.write, Array.getElem?_setIfInBounds, if_pos hplace]
    by_cases hsame : row * side + px = r * side + q
    · -- different rows and columns have different places
      obtain ⟨rfl, rfl⟩ : row = r ∧ px = q := by
        have hdiv := congrArg (· / side) hsame
        have hmod := congrArg (· % side) hsame
        simp only [row_mul_add_div hpx, row_mul_add_div hq', row_mul_add_mod hpx,
          row_mul_add_mod hq'] at hdiv hmod
        exact ⟨hdiv, hmod⟩
      rw [if_pos rfl]
    · rw [if_neg hsame]
      apply h.written r hr
      rw [hnext] at hq
      split_ifs at hq with heq
      · subst heq
        have hne : q ≠ px := fun he => hsame (by rw [he])
        omega
      · exact hq

/-- A step writes the next pixel of its row, if there is one, and does not fail. -/
theorem step_spec (hpixel : ∀ px < side, ∀ py < side, pixel px py = .ok (byte px py))
    (h : Progress side byte work) (row : ℕ) :
    ∃ next, step side pixel work row = .ok next ∧ Progress side byte next ∧
      ∀ r, next.column side r =
        if r = row then min side (work.column side r + 1) else work.column side r := by
  by_cases hfull : work.column side row = side
  · -- a full row and one that does not exist leave the work alone
    refine ⟨work, ?_, h, ?_⟩
    · rw [step]
      cases hcol : work.columns[row]? with
      | none => rfl
      | some px =>
        have hpx : px = side := by simpa [column, hcol] using hfull
        simp [hpx]
    · intro r
      split
      · subst_vars
        omega
      · rfl
  · have hle := h.column_le row
    have hrow : row < side := by
      by_contra hout
      apply hfull
      rw [column, Array.getElem?_eq_none (by rw [h.size_columns]; omega), Option.getD_none]
    have hin : row < work.columns.size := by rw [h.size_columns]; exact hrow
    have hcol := h.getElem?_columns hrow
    have hpx : work.column side row < side := by omega
    refine ⟨_, ?_, h.write hrow rfl hpx, ?_⟩
    · rw [step, hcol]
      simp only [if_pos hpx, hpixel _ hpx row hrow]
      rfl
    · intro r
      rw [column_write hin]
      split
      · subst_vars
        omega
      · rfl

/-- Steps in any order do not fail, and each moves its row on. -/
theorem foldlM_step_spec (hpixel : ∀ px < side, ∀ py < side, pixel px py = .ok (byte px py))
    (order : List ℕ) (h : Progress side byte work) :
    ∃ final, order.foldlM (step side pixel) work = .ok final ∧ Progress side byte final ∧
      ∀ r, final.column side r = min side (work.column side r + order.count r) := by
  induction order generalizing work with
  | nil =>
    refine ⟨work, rfl, h, ?_⟩
    intro r
    rw [List.count_nil, add_zero, min_eq_right (h.column_le r)]
  | cons row order ih =>
    -- one step keeps the invariant, and the rest of the order starts from what it leaves
    obtain ⟨next, hstep, hnext, hcolumn⟩ := step_spec hpixel h row
    obtain ⟨final, hrun, hfinal, hcount⟩ := ih hnext
    refine ⟨final, ?_, hfinal, ?_⟩
    · rw [List.foldlM_cons, hstep]
      exact hrun
    · intro r
      rw [hcount, hcolumn, List.count_cons]
      by_cases hr : r = row
      · subst hr
        simp only [if_true, beq_self_eq_true]
        omega
      · have hne : (row == r) = false := beq_false_of_ne (Ne.symm hr)
        simp only [if_neg hr, hne, Bool.false_eq_true, if_false, add_zero]

/-- From an empty square, the rows are full after as many steps of each as it has pixels, and not
before. The bytes are then known. -/
theorem foldlM_step_start (hpixel : ∀ px < side, ∀ py < side, pixel px py = .ok (byte px py))
    (order : List ℕ) :
    ∃ final, order.foldlM (step side pixel) (start side) = .ok final ∧
      (final.Finished side ↔ ∀ row < side, side ≤ order.count row) ∧
      (final.Finished side → final.bytes = squareOf side byte) := by
  obtain ⟨final, hrun, hfinal, hcolumn⟩ := foldlM_step_spec hpixel order (progress_start side byte)
  refine ⟨final, hrun, ?_, hfinal.bytes_eq⟩
  rw [hfinal.finished_iff]
  apply forall₂_congr
  intro row hrow
  rw [hcolumn, column_start, if_pos hrow, zero_add, min_eq_left_iff]

end RowsInProgress

/-- The steps that follow the given order are enough for every row. -/
theorem le_count_rowByRow {row : ℕ} (hrow : row < side) : side ≤ (rowByRow side).count row := by
  have hsub : (List.replicate side row).Sublist (rowByRow side) := by
    rw [rowByRow, List.flatMap_def]
    apply List.sublist_flatten_of_mem
    exact List.mem_map_of_mem (List.mem_range.mpr hrow)
  calc side = (List.replicate side row).count row := List.count_replicate_self.symm
    _ ≤ (rowByRow side).count row := hsub.count_le row

/-- Every order of steps leaves the same square behind. -/
theorem fillInOrder_eq (hpixel : ∀ px < side, ∀ py < side, pixel px py = .ok (byte px py))
    (order : List ℕ) : fillInOrder side pixel order = .ok (squareOf side byte) := by
  obtain ⟨final, hrun, hfinished, hbytes⟩ :=
    RowsInProgress.foldlM_step_start hpixel (order ++ rowByRow side)
  have hfull : final.Finished side := by
    apply hfinished.mpr
    intro row hrow
    rw [List.count_append]
    exact (le_count_rowByRow hrow).trans (Nat.le_add_left _ _)
  rw [fillInOrder, hrun, ← hbytes hfull]
  rfl

/-- However the work is dealt out, the square is the same. -/
theorem Execution.fill_eq {pixel : ℕ → ℕ → Except Error UInt8}
    (hpixel : ∀ px < side, ∀ py < side, pixel px py = .ok (byte px py)) (execution : Execution) :
    execution.fill side pixel = .ok (squareOf side byte) := by
  cases execution with
  | sequential => exact fillRowByRow_eq hpixel
  | parallel order => exact fillInOrder_eq hpixel order

end Identicon
