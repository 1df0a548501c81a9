import Mathlib.Data.List.Nodup
import Mathlib.Logic.Function.Iterate

/-!
# Dictionaries

A dictionary keeps its keys in the order in which they were added, and has each of them
once. Reading a missing key for an update makes it with a default first.
-/
namespace Hamster.Lib.Dictionary

structure Dict (κ ν : Type) where
  items : List (κ × ν)
  nodup : (items.map Prod.fst).Nodup

variable {κ ν : Type}

namespace Dict

def empty : Dict κ ν := ⟨[], List.nodup_nil⟩

def keys (d : Dict κ ν) : List κ := d.items.map Prod.fst

theorem ext {d d' : Dict κ ν} (h : d.items = d'.items) : d = d' := by
  cases d
  cases d'
  simpa using h

variable [DecidableEq κ]

def get? (d : Dict κ ν) (k : κ) : Option ν := (d.items.find? (·.1 = k)).map Prod.snd

/-- `d[k] = f(d[k])` on the items. -/
def updateItems (default : ν) (f : ν → ν) (k : κ) : List (κ × ν) → List (κ × ν)
  | [] => [(k, f default)]
  | item :: items =>
    if item.1 = k then (item.1, f item.2) :: items
    else item :: updateItems default f k items

theorem map_updateItems (default : ν) (f : ν → ν) (k : κ) (items : List (κ × ν)) :
    (updateItems default f k items).map Prod.fst =
      if k ∈ items.map Prod.fst then items.map Prod.fst else items.map Prod.fst ++ [k] := by
  induction items with
  | nil => rfl
  | cons item items ih =>
    rw [updateItems]
    by_cases hk : item.1 = k
    · rw [if_pos hk, List.map_cons, List.map_cons, if_pos (hk ▸ List.mem_cons_self)]
    · rw [if_neg hk, List.map_cons, ih, List.map_cons]
      by_cases hmem : k ∈ items.map Prod.fst
      · rw [if_pos hmem, if_pos (List.mem_cons_of_mem _ hmem)]
      · rw [if_neg hmem, if_neg (by simpa [Ne.symm hk] using hmem), List.cons_append]

/-- `d[k] = f(d[k])` -/
def update (default : ν) (f : ν → ν) (k : κ) (d : Dict κ ν) : Dict κ ν where
  items := updateItems default f k d.items
  nodup := by
    rw [map_updateItems]
    split
    · exact d.nodup
    · rename_i hk
      rw [← List.concat_eq_append]
      exact d.nodup.concat hk

variable {d : Dict κ ν} {default : ν} {f g : ν → ν} {k k' : κ}

@[simp] theorem get?_empty (k : κ) : (empty : Dict κ ν).get? k = none := rfl

theorem keys_update_of_mem (h : k ∈ d.keys) : (d.update default f k).keys = d.keys :=
  (map_updateItems default f k d.items).trans (if_pos h)

theorem get?_update_self :
    (d.update default f k).get? k = some (f ((d.get? k).getD default)) := by
  rw [get?, get?, update]
  dsimp only
  induction d.items with
  | nil => simp [updateItems]
  | cons item items ih =>
    rw [updateItems]
    by_cases hk : item.1 = k
    · rw [if_pos hk, List.find?_cons_of_pos (by simpa using hk),
        List.find?_cons_of_pos (by simpa using hk)]
      rfl
    · rw [if_neg hk, List.find?_cons_of_neg (by simpa using hk),
        List.find?_cons_of_neg (by simpa using hk)]
      exact ih

theorem get?_update_of_ne (h : k' ≠ k) : (d.update default f k).get? k' = d.get? k' := by
  rw [get?, get?, update]
  dsimp only
  induction d.items with
  | nil => simp [updateItems, h.symm]
  | cons item items ih =>
    rw [updateItems]
    by_cases hk : item.1 = k
    · have hk' : item.1 ≠ k' := fun he => h (he ▸ hk)
      rw [if_pos hk, List.find?_cons_of_neg (by simpa using hk'),
        List.find?_cons_of_neg (by simpa using hk')]
    · rw [if_neg hk]
      by_cases hk' : item.1 = k'
      · rw [List.find?_cons_of_pos (by simpa using hk'),
          List.find?_cons_of_pos (by simpa using hk')]
      · rw [List.find?_cons_of_neg (by simpa using hk'),
          List.find?_cons_of_neg (by simpa using hk')]
        exact ih

/-- Two updates of one key are one. -/
theorem update_update :
    (d.update default f k).update default g k = d.update default (g ∘ f) k := by
  apply ext
  rw [update, update, update]
  dsimp only
  induction d.items with
  | nil => simp [updateItems]
  | cons item items ih =>
    rw [updateItems, updateItems]
    by_cases hk : item.1 = k
    · rw [if_pos hk, if_pos hk, updateItems, if_pos hk]
      rfl
    · rw [if_neg hk, if_neg hk, updateItems, if_neg hk, ih]

theorem mem_keys_iff : k ∈ d.keys ↔ ∃ v, d.get? k = some v := by
  rw [keys, get?]
  constructor
  · intro h
    obtain ⟨item, hitem, hk⟩ := List.mem_map.mp h
    cases hfind : d.items.find? (·.1 = k) with
    | none => exact absurd (decide_eq_true hk) (List.find?_eq_none.mp hfind item hitem)
    | some found => exact ⟨found.2, rfl⟩
  · intro ⟨v, hv⟩
    obtain ⟨item, hfind, -⟩ := Option.map_eq_some_iff.mp hv
    have hk : item.1 = k := by simpa using List.find?_some hfind
    exact List.mem_map.mpr ⟨item, List.mem_of_find?_eq_some hfind, hk⟩

theorem get?_of_notMem (h : k ∉ d.keys) : d.get? k = none := by
  cases hget : d.get? k with
  | none => rfl
  | some v => exact absurd (mem_keys_iff.mpr ⟨v, hget⟩) h

def map {μ : Type} (f : ν → μ) (d : Dict κ ν) : Dict κ μ where
  items := d.items.map fun item => (item.1, f item.2)
  nodup := by
    rw [List.map_map]
    exact d.nodup

theorem get?_map {μ : Type} (f : ν → μ) (d : Dict κ ν) (k : κ) :
    (d.map f).get? k = (d.get? k).map f := by
  rw [get?, get?, map, List.find?_map, Option.map_map, Option.map_map]
  rfl

/-- The rounds of a loop that updates one key, and an update after it. -/
theorem update_foldl {α : Type} (p : α → Prop) [DecidablePred p] (xs : List α) :
    (xs.foldl (fun d x => if p x then d.update default f k else d) d).update default g k =
      d.update default (g ∘ f^[xs.countP p]) k := by
  induction xs generalizing d with
  | nil => rfl
  | cons x xs ih =>
    rw [List.foldl_cons, ih]
    by_cases hp : p x
    · rw [if_pos hp, update_update, List.countP_cons_of_pos (by simpa using hp),
        Function.iterate_succ, Function.comp_assoc]
    · rw [if_neg hp, List.countP_cons_of_neg (by simpa using hp)]

/-- A loop that updates every key of a list once. -/
theorem get?_foldl_update (p : κ → Prop) [DecidablePred p] (f : κ → ν → ν) {ks : List κ}
    (hks : ks.Nodup) (d : Dict κ ν) (k : κ) :
    (ks.foldl (fun d k => if p k then d.update default (f k) k else d) d).get? k =
      if k ∈ ks ∧ p k then some (f k ((d.get? k).getD default)) else d.get? k := by
  induction ks generalizing d with
  | nil => simp
  | cons x xs ih =>
    obtain ⟨hx, hxs⟩ := List.nodup_cons.mp hks
    rw [List.foldl_cons, ih hxs]
    by_cases hk : k = x
    · subst hk
      by_cases hp : p k
      · simp [hx, hp, get?_update_self]
      · simp [hx, hp]
    · have hget : (if p x then d.update default (f x) x else d).get? k = d.get? k := by
        split
        · exact get?_update_of_ne hk
        · rfl
      rw [hget]
      simp [hk]

end Dict

end Hamster.Lib.Dictionary
