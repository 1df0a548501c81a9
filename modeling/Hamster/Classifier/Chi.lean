import Hamster.Lib.Contingency
import Mathlib.Algebra.Order.Ring.Rat

/-!
# The chi-squared value of a token

`calculateChi`, with exact fractions in place of floating-point numbers.
-/
namespace Hamster.Classifier.Chi

open Lib.Contingency

/-- The exceptions the classifier can raise. -/
inductive Raised
  | zeroDivisionError
  | indexError
  | keyError
  | valueError
  deriving DecidableEq

/-- `x / y` -/
def div (x y : ℚ) : Except Raised ℚ := if y = 0 then .error .zeroDivisionError else .ok (x / y)

def calculateChi (c1W c2W c1NotW c2NotW : ℤ) : Except Raised ℚ :=
  let W1 := c1W + c2W
  let W2 := c1NotW + c2NotW
  let C1 := c1W + c1NotW
  let C2 := c2W + c2NotW
  let N := W1 + W2
  let M := [[c1W, c2W], [c1NotW, c2NotW]]
  let W := [W1, W2]
  let C := [C1, C2]
  (List.range M.length).foldlM (fun chi i =>
    (List.range (M.getD 0 []).length).foldlM (fun chi j => do
      let E ← div (W.getD i 0 * C.getD j 0) N
      let part ← div (((M.getD i []).getD j 0 - E) ^ 2) E
      return chi + part) chi) 0

/-- One round. -/
def part (x row col total : ℚ) : Except Raised ℚ := do
  let E ← div (row * col) total
  div ((x - E) ^ 2) E

theorem part_eq (x : ℚ) {row col total : ℚ} (htotal : total ≠ 0) :
    part x row col total = if row = 0 ∨ col = 0 then .error .zeroDivisionError
      else .ok (Table.cell x row col total) := by
  have hE : div (row * col) total = .ok (row * col / total) := if_neg htotal
  have hzero : row * col / total = 0 ↔ row = 0 ∨ col = 0 := by
    rw [div_eq_zero_iff, or_iff_left htotal, mul_eq_zero]
  rw [part, hE]
  change div ((x - row * col / total) ^ 2) (row * col / total) = _
  simp only [div, hzero, Table.cell]

/-- The table of a token. -/
def table (a b c d : ℤ) : Table ℚ := ⟨a, b, c, d⟩

theorem calculateChi_parts (a b c d : ℤ) : calculateChi a b c d =
    let t := table a b c d
    (do
      let w ← part t.a t.row1 t.col1 t.total
      let x ← part t.b t.row1 t.col2 t.total
      let y ← part t.c t.row2 t.col1 t.total
      let z ← part t.d t.row2 t.col2 t.total
      return 0 + w + x + y + z) := by
  have htwo : List.range 2 = [0, 1] := rfl
  simp only [calculateChi, part, table, List.length_cons, List.length_nil, htwo, List.getD_cons_zero,
    List.foldlM_cons, List.foldlM_nil, List.getD_cons_succ, Table.row1, Table.row2, Table.col1,
    Table.col2, Table.total, Int.cast_add, bind_assoc, pure_bind]

section Result
variable {a b c d : ℤ}

theorem full_table : (table a b c d).Full ↔
    a + b ≠ 0 ∧ c + d ≠ 0 ∧ a + c ≠ 0 ∧ b + d ≠ 0 ∧ a + b + (c + d) ≠ 0 := by
  constructor
  · intro hfull
    obtain ⟨h₁, h₂, h₃, h₄, h₅⟩ := hfull
    simp only [table, Table.row1, Table.row2, Table.col1, Table.col2, Table.total] at h₁ h₂ h₃ h₄ h₅
    exact ⟨by exact_mod_cast h₁, by exact_mod_cast h₂, by exact_mod_cast h₃, by exact_mod_cast h₄,
      by exact_mod_cast h₅⟩
  · intro hne
    obtain ⟨h₁, h₂, h₃, h₄, h₅⟩ := hne
    constructor
    all_goals
      simp only [table, Table.row1, Table.row2, Table.col1, Table.col2, Table.total]
      assumption_mod_cast

theorem part_ok (x : ℚ) {row col total : ℚ} (hrow : row ≠ 0) (hcol : col ≠ 0) (htotal : total ≠ 0) :
    part x row col total = .ok (Table.cell x row col total) := by
  rw [part_eq x htotal, if_neg (not_or.mpr ⟨hrow, hcol⟩)]

theorem part_error (x : ℚ) {row col total : ℚ} (h : row = 0 ∨ col = 0 ∨ total = 0) :
    part x row col total = .error .zeroDivisionError := by
  by_cases htotal : total = 0
  · rw [part, div, if_pos htotal]
    rfl
  · rw [part_eq x htotal, if_pos (h.imp_right fun h => h.resolve_right htotal)]

theorem calculateChi_ok (h : (table a b c d).Full) :
    calculateChi a b c d = .ok (table a b c d).chiSq := by
  rw [calculateChi_parts]
  dsimp only
  rw [part_ok _ h.row1 h.col1 h.total, part_ok _ h.row1 h.col2 h.total,
    part_ok _ h.row2 h.col1 h.total, part_ok _ h.row2 h.col2 h.total]
  simp only [Table.chiSq, zero_add]
  rfl

/-- An empty row or column ends the loop. -/
theorem calculateChi_error (h : ¬ (table a b c d).Full) :
    calculateChi a b c d = .error .zeroDivisionError := by
  rw [calculateChi_parts]
  dsimp only
  by_cases h₁ : (table a b c d).row1 = 0 ∨ (table a b c d).col1 = 0 ∨ (table a b c d).total = 0
  · rw [part_error _ h₁]
    rfl
  · obtain ⟨hr₁, hrest⟩ := not_or.mp h₁
    obtain ⟨hc₁, ht⟩ := not_or.mp hrest
    rw [part_ok _ hr₁ hc₁ ht]
    by_cases hc₂ : (table a b c d).col2 = 0
    · rw [part_error _ (.inr (.inl hc₂))]
      rfl
    · have hr₂ : (table a b c d).row2 = 0 := by
        by_contra hr₂
        exact h ⟨hr₁, hr₂, hc₁, hc₂, ht⟩
      rw [part_ok _ hr₁ hc₂ ht, part_error _ (.inl hr₂)]
      rfl

/-- Swapping the columns changes neither the value nor whether there is one. -/
theorem calculateChi_swapColumns (a b c d : ℤ) : calculateChi b a d c = calculateChi a b c d := by
  by_cases h : (table a b c d).Full
  · rw [calculateChi_ok h, calculateChi_ok (Table.Full.swapColumns h)]
    exact congrArg _ (Table.chiSq_swapColumns (table a b c d))
  · have h' : ¬ (table b a d c).Full := fun hfull => h (Table.Full.swapColumns hfull)
    rw [calculateChi_error h, calculateChi_error h']

end Result

end Hamster.Classifier.Chi
