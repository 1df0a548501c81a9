import Mathlib.Data.List.Lookmap

/-!
# Tables of rows in file order

Three ways a table changes: a row is appended, the first row of a kind is
patched, and all rows of a kind are taken out. Here is what each of them does to
searches and to the other two when they are about different rows.
-/
namespace Hamster.Lib.Rows

variable {α β : Type}

/-- The table with its first `p` row patched. -/
def patchFirst (p : α → Bool) (f : α → α) (xs : List α) : List α :=
  xs.lookmap fun x => if p x then some (f x) else none

section Patch
variable {p q : α → Bool} {f g : α → α} {x : α} {xs : List α}

@[simp] theorem patchFirst_nil (p : α → Bool) (f : α → α) : patchFirst p f [] = [] := rfl

theorem patchFirst_cons_of_pos (h : p x = true) : patchFirst p f (x :: xs) = f x :: xs :=
  List.lookmap_cons_some _ _ (by rw [if_pos h])

theorem patchFirst_cons_of_neg (h : p x = false) :
    patchFirst p f (x :: xs) = x :: patchFirst p f xs :=
  List.lookmap_cons_none _ _ (by rw [if_neg (by simp [h])])

/-- A patch that keeps a field keeps the column. -/
theorem map_patchFirst {k : α → β} (h : ∀ x, k (f x) = k x) (p : α → Bool) (xs : List α) :
    (patchFirst p f xs).map k = xs.map k := by
  induction xs with
  | nil => rfl
  | cons x xs ih =>
    cases hx : p x with
    | true => rw [patchFirst_cons_of_pos hx, List.map_cons, List.map_cons, h]
    | false => rw [patchFirst_cons_of_neg hx, List.map_cons, List.map_cons, ih]

theorem patchFirst_append_of_neg (h : p x = false) (xs : List α) :
    patchFirst p f (xs ++ [x]) = patchFirst p f xs ++ [x] := by
  induction xs with
  | nil => rw [List.nil_append, patchFirst_cons_of_neg h]; rfl
  | cons y ys ih =>
    rw [List.cons_append]
    cases hy : p y with
    | true => rw [patchFirst_cons_of_pos hy, patchFirst_cons_of_pos hy, List.cons_append]
    | false => rw [patchFirst_cons_of_neg hy, patchFirst_cons_of_neg hy, ih, List.cons_append]

/-- Patches of rows of two kinds. -/
theorem patchFirst_comm (hpq : ∀ x, p x = true → q x = false) (hf : ∀ x, q (f x) = q x)
    (hg : ∀ x, p (g x) = p x) (xs : List α) :
    patchFirst p f (patchFirst q g xs) = patchFirst q g (patchFirst p f xs) := by
  induction xs with
  | nil => rfl
  | cons x xs ih =>
    cases hp : p x with
    | true =>
      have hq := hpq x hp
      rw [patchFirst_cons_of_neg hq, patchFirst_cons_of_pos hp, patchFirst_cons_of_pos hp,
        patchFirst_cons_of_neg (by rw [hf, hq])]
    | false =>
      cases hq : q x with
      | true =>
        rw [patchFirst_cons_of_pos hq, patchFirst_cons_of_neg hp, patchFirst_cons_of_pos hq,
          patchFirst_cons_of_neg (by rw [hg, hp])]
      | false =>
        rw [patchFirst_cons_of_neg hq, patchFirst_cons_of_neg hp, patchFirst_cons_of_neg hp,
          patchFirst_cons_of_neg hq, ih]

/-- A search that passes over the patched row before and after. -/
theorem find?_patchFirst (h : ∀ x ∈ xs, p x = true → q x = false ∧ q (f x) = false) :
    (patchFirst p f xs).find? q = xs.find? q := by
  induction xs with
  | nil => rfl
  | cons x xs ih =>
    cases hx : p x with
    | true =>
      obtain ⟨hq, hqf⟩ := h x List.mem_cons_self hx
      rw [patchFirst_cons_of_pos hx, List.find?_cons_of_neg (by simp [hqf]),
        List.find?_cons_of_neg (by simp [hq])]
    | false =>
      have hrest := ih fun y hy => h y (List.mem_cons_of_mem x hy)
      rw [patchFirst_cons_of_neg hx, List.find?_cons, List.find?_cons, hrest]

/-- A search for the patched row finds it patched. -/
theorem find?_patchFirst_self (h : ∀ x, p (f x) = p x) (xs : List α) :
    (patchFirst p f xs).find? p = (xs.find? p).map f := by
  induction xs with
  | nil => rfl
  | cons x xs ih =>
    cases hx : p x with
    | true =>
      rw [patchFirst_cons_of_pos hx, List.find?_cons_of_pos (by rw [h, hx]),
        List.find?_cons_of_pos hx, Option.map_some]
    | false =>
      rw [patchFirst_cons_of_neg hx, List.find?_cons_of_neg (by simp [hx]),
        List.find?_cons_of_neg (by simp [hx]), ih]

/-- A search that does not look at what is patched. -/
theorem isSome_find?_patchFirst (h : ∀ x, q (f x) = q x) (p : α → Bool) (xs : List α) :
    ((patchFirst p f xs).find? q).isSome = (xs.find? q).isSome := by
  have hcol : (patchFirst p f xs).map q = xs.map q := map_patchFirst h p xs
  rw [List.isSome_find?, List.isSome_find?]
  have hany (ys : List α) : ys.any q = (ys.map q).any id := by rw [List.any_map]; rfl
  rw [hany, hany, hcol]

theorem find?_append_of_neg (h : q x = false) (xs : List α) :
    (xs ++ [x]).find? q = xs.find? q := by
  rw [List.find?_append, List.find?_cons_of_neg (by simp [h]), List.find?_nil, Option.or_none]

/-- A search for rows that all stay. -/
theorem find?_filter_of_kept (h : ∀ x ∈ xs, p x = true → q x = true) :
    (xs.filter q).find? p = xs.find? p := by
  rw [List.find?_filter]
  induction xs with
  | nil => rfl
  | cons x xs ih =>
    rw [List.find?_cons, List.find?_cons, ih fun y hy => h y (List.mem_cons_of_mem x hy)]
    cases hp : p x with
    | true => rw [h x List.mem_cons_self hp]; rfl
    | false => simp

/-- A patched row that stays. -/
theorem filter_patchFirst_of_kept (h : ∀ x ∈ xs, p x = true → q x = true ∧ q (f x) = true) :
    (patchFirst p f xs).filter q = patchFirst p f (xs.filter q) := by
  induction xs with
  | nil => rfl
  | cons x xs ih =>
    cases hp : p x with
    | true =>
      obtain ⟨hq, hqf⟩ := h x List.mem_cons_self hp
      rw [patchFirst_cons_of_pos hp, List.filter_cons_of_pos hqf, List.filter_cons_of_pos hq,
        patchFirst_cons_of_pos hp]
    | false =>
      have hrest := ih fun y hy => h y (List.mem_cons_of_mem x hy)
      rw [patchFirst_cons_of_neg hp]
      cases hq : q x with
      | true =>
        rw [List.filter_cons_of_pos hq, List.filter_cons_of_pos hq, patchFirst_cons_of_neg hp, hrest]
      | false =>
        rw [List.filter_cons_of_neg (by simp [hq]), List.filter_cons_of_neg (by simp [hq]), hrest]

/-- A patched row that goes. -/
theorem filter_patchFirst_of_gone (h : ∀ x ∈ xs, p x = true → q x = false ∧ q (f x) = false) :
    (patchFirst p f xs).filter q = xs.filter q := by
  induction xs with
  | nil => rfl
  | cons x xs ih =>
    cases hp : p x with
    | true =>
      obtain ⟨hq, hqf⟩ := h x List.mem_cons_self hp
      rw [patchFirst_cons_of_pos hp, List.filter_cons_of_neg (by simp [hqf]),
        List.filter_cons_of_neg (by simp [hq])]
    | false =>
      have hrest := ih fun y hy => h y (List.mem_cons_of_mem x hy)
      rw [patchFirst_cons_of_neg hp, List.filter_cons, List.filter_cons, hrest]

theorem filter_comm (p q : α → Bool) (xs : List α) :
    (xs.filter p).filter q = (xs.filter q).filter p := by
  rw [List.filter_filter, List.filter_filter]
  exact List.filter_congr fun x _ => Bool.and_comm ..

end Patch
end Hamster.Lib.Rows
