import Hamster.Lib.Bytes

/-!
# Buffers

A buffer is a memory of unknown content and extent: every offset holds some
byte. Putting bytes into it changes just these.
-/
namespace Hamster.Lib.Memory

open Bytes

abbrev Mem := Nat → Byte

/-- `memcpy(m + off, bs, |bs|)` -/
def poke (m : Mem) (off : Nat) (bs : List Byte) : Mem := fun i =>
  if off ≤ i then (bs[i - off]?).getD (m i) else m i

/-- The `n` bytes at `m + off`. -/
def peek (m : Mem) (off n : Nat) : List Byte := (List.range n).map fun i => m (off + i)

variable (m : Mem) {off off' n : Nat} {bs bs' : List Byte}

@[simp] theorem length_peek (off n : Nat) : (peek m off n).length = n := by simp [peek]

theorem peek_add (off a b : Nat) : peek m off (a + b) = peek m off a ++ peek m (off + a) b := by
  simp [peek, List.range_add, Function.comp_def, Nat.add_assoc]

theorem poke_of_lt {i : Nat} (h : i < off) : poke m off bs i = m i := by
  simp [poke, Nat.not_le.mpr h]

theorem poke_of_le {i : Nat} (h : off + bs.length ≤ i) : poke m off bs i = m i := by
  have hoff : off ≤ i := by omega
  simp [poke, hoff, List.getElem?_eq_none (show bs.length ≤ i - off by omega)]

theorem poke_inside {i : Nat} (h : i < bs.length) : poke m off bs (off + i) = bs[i] := by
  simp [poke, h]

theorem poke_peek (off n : Nat) : poke m off (peek m off n) = m := by
  funext i
  by_cases hlo : i < off
  · exact poke_of_lt m hlo
  · by_cases hin : i - off < n
    · have hidx : off + (i - off) = i := by omega
      rw [← hidx, poke_inside m (by rwa [length_peek])]
      simp [peek]
    · apply poke_of_le m
      rw [length_peek]
      omega

/-- A field inside the bytes just put there. -/
theorem peek_poke_inside (h : off ≤ off') (hn : off' + n ≤ off + bs.length) :
    peek (poke m off bs) off' n = (bs.drop (off' - off)).take n := by
  apply List.ext_getElem
  · simp only [length_peek, List.length_take, List.length_drop]
    omega
  · intro i hi _
    rw [length_peek] at hi
    have hle : off ≤ off' + i := by omega
    have hidx : off' + i - off = off' - off + i := by omega
    simp only [peek, List.getElem_map, List.getElem_range, poke, hle, ↓reduceIte, hidx,
      List.getElem_take, List.getElem_drop]
    rw [List.getElem?_eq_getElem (show off' - off + i < bs.length by omega), Option.getD_some]

theorem peek_poke : peek (poke m off bs) off bs.length = bs := by
  rw [peek_poke_inside m (Nat.le_refl off) (Nat.le_refl _), Nat.sub_self, List.drop_zero,
    List.take_length]

/-- The bytes just put there and what follows them. -/
theorem peek_poke_append {n : Nat} (h : bs.length ≤ n) :
    ∃ more, peek (poke m 0 bs) 0 n = bs ++ more ∧ more.length = n - bs.length := by
  obtain ⟨k, rfl⟩ := Nat.exists_eq_add_of_le h
  refine ⟨peek (poke m 0 bs) (0 + bs.length) k, ?_, by rw [length_peek, Nat.add_sub_cancel_left]⟩
  rw [peek_add, peek_poke]

/-- A field of known bytes. -/
theorem peek_of_content {m : Mem} (h : peek m 0 bs.length = bs) (hn : off + n ≤ bs.length) :
    peek m off n = (bs.drop off).take n := by
  obtain ⟨k, hk⟩ : ∃ k, bs.length = off + (n + k) := ⟨bs.length - (off + n), by omega⟩
  have hcut : peek m 0 off ++ (peek m off n ++ peek m (off + n) k) = bs := by
    have hrest := peek_add m off n k
    have hall := peek_add m 0 off (n + k)
    rw [Nat.zero_add] at hall
    rw [← hrest, ← hall, ← hk, h]
  rw [← hcut, List.drop_left' (length_peek ..), List.take_left' (length_peek ..)]

/-- Bytes put right behind others. -/
theorem poke_poke {a : List Byte} (h : off' = off + a.length) :
    poke (poke m off a) off' bs = poke m off (a ++ bs) := by
  subst h
  funext i
  by_cases hlo : i < off
  · rw [poke_of_lt _ (by omega), poke_of_lt _ hlo, poke_of_lt _ hlo]
  · by_cases hmid : i < off + a.length
    · have hin : i - off < a.length := by omega
      rw [poke_of_lt _ hmid, poke, poke, List.getElem?_append_left hin]
    · have hout : i - (off + a.length) = i - off - a.length := by omega
      have hge : a.length ≤ i - off := by omega
      have hold : poke m off a i = m i := poke_of_le _ (by omega)
      rw [poke, hold, if_pos (Nat.not_lt.mp hmid), poke, if_pos (Nat.not_lt.mp hlo), hout,
        List.getElem?_append_right hge]

end Hamster.Lib.Memory
