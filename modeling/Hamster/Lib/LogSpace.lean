import Mathlib.Analysis.SpecialFunctions.Log.Base

/-!
# Products in log space

A product of positive numbers is compared by the sum of their logarithms.
-/
namespace Hamster.Lib.LogSpace

variable {ι : Type} {base : ℝ} {f g : ι → ℝ} {l : List ι}

theorem prod_pos (hf : ∀ i ∈ l, 0 < f i) : 0 < (l.map f).prod := by
  apply List.prod_pos
  intro x hx
  obtain ⟨i, hi, rfl⟩ := List.mem_map.mp hx
  exact hf i hi

theorem sum_logb (hf : ∀ i ∈ l, 0 < f i) :
    (l.map fun i => Real.logb base (f i)).sum = Real.logb base (l.map f).prod := by
  induction l with
  | nil => simp
  | cons i l ih =>
    have hi := hf i List.mem_cons_self
    have hl : ∀ i ∈ l, 0 < f i := fun j hj => hf j (List.mem_cons_of_mem _ hj)
    rw [List.map_cons, List.sum_cons, ih hl, List.map_cons, List.prod_cons,
      Real.logb_mul hi.ne' (prod_pos hl).ne']

/-- The sum for a start and factors is the logarithm of their product. -/
theorem logb_add_sum {x : ℝ} (hx : 0 < x) (hf : ∀ i ∈ l, 0 < f i) :
    Real.logb base x + (l.map fun i => Real.logb base (f i)).sum =
      Real.logb base (x * (l.map f).prod) := by
  rw [sum_logb hf, Real.logb_mul hx.ne' (prod_pos hf).ne']

/-- Sums are in the order of the products. -/
theorem sum_lt_iff (hbase : 1 < base) {x y : ℝ} (hx : 0 < x) (hy : 0 < y)
    (hf : ∀ i ∈ l, 0 < f i) (hg : ∀ i ∈ l, 0 < g i) :
    Real.logb base x + (l.map fun i => Real.logb base (f i)).sum <
        Real.logb base y + (l.map fun i => Real.logb base (g i)).sum ↔
      x * (l.map f).prod < y * (l.map g).prod := by
  rw [logb_add_sum hx hf, logb_add_sum hy hg]
  exact Real.logb_lt_logb_iff hbase (mul_pos hx (prod_pos hf)) (mul_pos hy (prod_pos hg))

end Hamster.Lib.LogSpace
