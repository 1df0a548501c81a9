import Hamster.Classifier.Chi

/-!
# The chi-squared value in closed form

The two loops add up to one fraction, which is at most the number of mails.
-/
namespace Hamster.Contract.ChiSquared

open Lib.Contingency Classifier.Chi

section Counts
variable {a b c d : ℕ}

theorem nonneg_table (a b c d : ℕ) : (table a b c d).Nonneg :=
  ⟨Nat.cast_nonneg a, Nat.cast_nonneg b, Nat.cast_nonneg c, Nat.cast_nonneg d⟩

/-- For all counts with no empty row or column. -/
theorem chi_closed_form (hW1 : a + b ≠ 0) (hW2 : c + d ≠ 0) (hC1 : a + c ≠ 0) (hC2 : b + d ≠ 0) :
    ∃ chi : ℚ, calculateChi a b c d = .ok chi ∧
      chi = (a + b + c + d) * (a * d - b * c) ^ 2 / ((a + b) * (c + d) * (a + c) * (b + d)) ∧
      0 ≤ chi ∧ chi ≤ a + b + c + d ∧ (chi = 0 ↔ a * d = b * c) ∧
      calculateChi c d a b = .ok chi ∧ calculateChi b a d c = .ok chi := by
  have hfull : (table a b c d).Full := full_table.mpr (by omega)
  have hrows : (table c d a b).Full := full_table.mpr (by omega)
  have hcols : (table b a d c).Full := full_table.mpr (by omega)
  obtain ⟨hpos, hle, hzero⟩ := Table.chiSq_bounds (nonneg_table a b c d) hfull
  refine ⟨_, calculateChi_ok hfull, ?_, hpos, ?_, ?_, ?_, ?_⟩
  · rw [Table.chiSq_eq _ hfull]
    simp only [table, Table.total, Table.row1, Table.row2, Table.col1, Table.col2, Table.det,
      Int.cast_natCast]
    ring
  · have htotal : (table a b c d).total = a + b + c + d := by
      simp only [table, Table.total, Table.row1, Table.row2, Int.cast_natCast]
      ring
    rwa [htotal] at hle
  · rw [hzero]
    simp only [table, Int.cast_natCast]
    exact_mod_cast Iff.rfl
  · rw [calculateChi_ok hrows]
    exact congrArg _ (Table.chiSq_swapRows (table a b c d))
  · rw [calculateChi_ok hcols]
    exact congrArg _ (Table.chiSq_swapColumns (table a b c d))

end Counts

/-- A table of sixty mails of either kind. -/
theorem chi_of_sixty :
    ∃ chi : ℚ, calculateChi 10 1 50 59 = .ok chi ∧ 0 ≤ chi ∧ chi ≤ 120 ∧
      calculateChi 50 59 10 1 = .ok chi ∧ calculateChi 1 10 59 50 = .ok chi := by
  obtain ⟨chi, hchi, -, hpos, hle, -, hrows, hcols⟩ :=
    chi_closed_form (a := 10) (b := 1) (c := 50) (d := 59) (by decide) (by decide) (by decide)
      (by decide)
  have hsum : ((10 : ℕ) : ℚ) + (1 : ℕ) + (50 : ℕ) + (59 : ℕ) = 120 := by norm_num
  exact ⟨chi, hchi, hpos, hsum ▸ hle, hrows, hcols⟩

end Hamster.Contract.ChiSquared
