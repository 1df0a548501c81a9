import Mathlib.Algebra.Order.Field.Basic
import Mathlib.Tactic.FieldSimp
import Mathlib.Tactic.Linarith
import Mathlib.Tactic.Positivity
import Mathlib.Tactic.Ring

/-!
# Tables of two rows and two columns

The chi-squared statistic of such a table, as the sum over its cells and as one fraction.
-/
namespace Hamster.Lib.Contingency

structure Table (α : Type) where
  a : α
  b : α
  c : α
  d : α

namespace Table
variable {α : Type}

section Field
variable [Field α] (t : Table α)

def row1 : α := t.a + t.b
def row2 : α := t.c + t.d
def col1 : α := t.a + t.c
def col2 : α := t.b + t.d
def total : α := t.row1 + t.row2
def det : α := t.a * t.d - t.b * t.c

/-- The part of a cell that is observed `x` times, in a row and a column with these sums. -/
def cell (x row col total : α) : α := (x - row * col / total) ^ 2 / (row * col / total)

def chiSq : α :=
  cell t.a t.row1 t.col1 t.total + cell t.b t.row1 t.col2 t.total +
    cell t.c t.row2 t.col1 t.total + cell t.d t.row2 t.col2 t.total

/-- No row and no column is empty. -/
structure Full : Prop where
  row1 : t.row1 ≠ 0
  row2 : t.row2 ≠ 0
  col1 : t.col1 ≠ 0
  col2 : t.col2 ≠ 0
  total : t.total ≠ 0

/-- In every cell the difference from what is expected is the determinant, up to its sign. -/
theorem cell_eq {x row col total det : α} (hrow : row ≠ 0) (hcol : col ≠ 0) (htotal : total ≠ 0)
    (hdet : x * total - row * col = det ∨ x * total - row * col = -det) :
    cell x row col total = det ^ 2 / (total * row * col) := by
  have hsq : (x * total - row * col) ^ 2 = det ^ 2 := by
    rcases hdet with h | h
    · rw [h]
    · rw [h, neg_sq]
  have hdiff : x - row * col / total = (x * total - row * col) / total := by
    field_simp
  rw [cell, hdiff, div_pow, hsq]
  field_simp

theorem chiSq_eq (h : t.Full) :
    t.chiSq = t.total * t.det ^ 2 / (t.row1 * t.row2 * t.col1 * t.col2) := by
  have h₁ := h.row1
  have h₂ := h.row2
  have h₃ := h.col1
  have h₄ := h.col2
  have h₅ := h.total
  have ha : t.a * t.total - t.row1 * t.col1 = t.det := by
    simp only [total, row1, row2, col1, det]
    ring
  have hb : t.b * t.total - t.row1 * t.col2 = -t.det := by
    simp only [total, row1, row2, col2, det]
    ring
  have hc : t.c * t.total - t.row2 * t.col1 = -t.det := by
    simp only [total, row1, row2, col1, det]
    ring
  have hd : t.d * t.total - t.row2 * t.col2 = t.det := by
    simp only [total, row1, row2, col2, det]
    ring
  have hsum : t.row2 * t.col2 + t.row2 * t.col1 + t.row1 * t.col2 + t.row1 * t.col1 =
      t.total ^ 2 := by
    simp only [total, row1, row2, col1, col2]
    ring
  rw [chiSq, cell_eq h₁ h₃ h₅ (.inl ha), cell_eq h₁ h₄ h₅ (.inr hb), cell_eq h₂ h₃ h₅ (.inr hc),
    cell_eq h₂ h₄ h₅ (.inl hd)]
  field_simp
  rw [← hsum]
  ring

def swapRows : Table α := ⟨t.c, t.d, t.a, t.b⟩

def swapColumns : Table α := ⟨t.b, t.a, t.d, t.c⟩

theorem Full.swapColumns {t : Table α} (h : t.Full) : t.swapColumns.Full where
  row1 := by
    change t.b + t.a ≠ 0
    rw [add_comm]
    exact h.row1
  row2 := by
    change t.d + t.c ≠ 0
    rw [add_comm]
    exact h.row2
  col1 := h.col2
  col2 := h.col1
  total := by
    change t.b + t.a + (t.d + t.c) ≠ 0
    rw [add_comm t.b, add_comm t.d]
    exact h.total

theorem chiSq_swapRows : t.swapRows.chiSq = t.chiSq := by
  simp only [chiSq, swapRows, row1, row2, col1, col2, total, add_comm t.c t.a, add_comm t.d t.b,
    add_comm (t.c + t.d)]
  ring

theorem chiSq_swapColumns : t.swapColumns.chiSq = t.chiSq := by
  simp only [chiSq, swapColumns, row1, row2, col1, col2, total, add_comm t.b t.a, add_comm t.d t.c]
  ring

end Field

section Order
variable [Field α] [LinearOrder α] [IsStrictOrderedRing α] {t : Table α}

structure Nonneg (t : Table α) : Prop where
  a : 0 ≤ t.a
  b : 0 ≤ t.b
  c : 0 ≤ t.c
  d : 0 ≤ t.d

/-- The determinant is at most the product of the rows and at most that of the columns. -/
theorem det_sq_le (h : t.Nonneg) : t.det ^ 2 ≤ t.row1 * t.row2 * t.col1 * t.col2 := by
  have hac := mul_nonneg h.a h.c
  have had := mul_nonneg h.a h.d
  have hbc := mul_nonneg h.b h.c
  have hbd := mul_nonneg h.b h.d
  have hab := mul_nonneg h.a h.b
  have hcd := mul_nonneg h.c h.d
  have hrows : |t.det| ≤ t.row1 * t.row2 := by
    rw [abs_le, det, row1, row2]
    constructor
    · linarith
    · linarith
  have hcols : |t.det| ≤ t.col1 * t.col2 := by
    rw [abs_le, det, col1, col2]
    constructor
    · linarith
    · linarith
  calc t.det ^ 2 = |t.det| * |t.det| := by rw [← sq, sq_abs]
    _ ≤ t.row1 * t.row2 * (t.col1 * t.col2) :=
      mul_le_mul hrows hcols (abs_nonneg _) ((abs_nonneg _).trans hrows)
    _ = t.row1 * t.row2 * t.col1 * t.col2 := by ring

theorem chiSq_bounds (hn : t.Nonneg) (h : t.Full) :
    0 ≤ t.chiSq ∧ t.chiSq ≤ t.total ∧ (t.chiSq = 0 ↔ t.a * t.d = t.b * t.c) := by
  have hr₁ : 0 < t.row1 := lt_of_le_of_ne (add_nonneg hn.a hn.b) h.row1.symm
  have hr₂ : 0 < t.row2 := lt_of_le_of_ne (add_nonneg hn.c hn.d) h.row2.symm
  have hc₁ : 0 < t.col1 := lt_of_le_of_ne (add_nonneg hn.a hn.c) h.col1.symm
  have hc₂ : 0 < t.col2 := lt_of_le_of_ne (add_nonneg hn.b hn.d) h.col2.symm
  have htotal : 0 < t.total := add_pos hr₁ hr₂
  have hprod : 0 < t.row1 * t.row2 * t.col1 * t.col2 := by positivity
  rw [chiSq_eq t h]
  refine ⟨by positivity, ?_, ?_⟩
  · rw [div_le_iff₀ hprod]
    exact mul_le_mul_of_nonneg_left (det_sq_le hn) htotal.le
  · rw [div_eq_zero_iff, or_iff_left hprod.ne', mul_eq_zero, or_iff_right htotal.ne',
      sq_eq_zero_iff, det, sub_eq_zero]

end Order

end Table

end Hamster.Lib.Contingency
