import Hamster.Lib.Memory
import Mathlib.Logic.Equiv.Defs

/-!
# Fixed-width codecs

A value and its bytes, one for one. Codecs are put one behind the other, and what holds of
the bytes holds of a buffer they are written to.
-/
namespace Hamster.Lib.Codecs

open Bytes Memory

structure Codec (α : Type) where
  width : Nat
  bytes : α → List Byte
  value : List Byte → α
  length_bytes : ∀ a, (bytes a).length = width
  value_bytes : ∀ a, value (bytes a) = a
  bytes_value : ∀ bs, bs.length = width → bytes (value bs) = bs

variable {α β : Type}

namespace Codec

/-- A big-endian number. -/
def word (n k : Nat) (hw : 2 ^ n = 256 ^ k) : Codec (BitVec n) where
  width := k
  bytes a := beBytes k a.toNat
  value bs := BitVec.ofNat n (beNat bs)
  length_bytes a := length_beBytes k a.toNat
  value_bytes a := beNat_beBytes hw a
  bytes_value _ hk := beBytes_beNat hw hk

/-- One value behind the other. -/
def pair (C : Codec α) (D : Codec β) : Codec (α × β) where
  width := C.width + D.width
  bytes a := C.bytes a.1 ++ D.bytes a.2
  value bs := (C.value (bs.take C.width), D.value (bs.drop C.width))
  length_bytes a := by rw [List.length_append, C.length_bytes, D.length_bytes]
  value_bytes a := by
    rw [List.take_left' (C.length_bytes a.1), List.drop_left' (C.length_bytes a.1),
      C.value_bytes, D.value_bytes]
  bytes_value bs h := by
    have htake : (bs.take C.width).length = C.width := by
      rw [List.length_take]
      omega
    have hdrop : (bs.drop C.width).length = D.width := by
      rw [List.length_drop]
      omega
    rw [C.bytes_value _ htake, D.bytes_value _ hdrop, List.take_append_drop]

/-- The same bytes for values of another shape. -/
def via (C : Codec α) (e : β ≃ α) : Codec β where
  width := C.width
  bytes b := C.bytes (e b)
  value bs := e.symm (C.value bs)
  length_bytes b := C.length_bytes (e b)
  value_bytes b := by rw [C.value_bytes, e.symm_apply_apply]
  bytes_value bs h := by rw [e.apply_symm_apply, C.bytes_value bs h]

def store (C : Codec α) (m : Mem) (off : Nat) (a : α) : Mem := poke m off (C.bytes a)

def load (C : Codec α) (m : Mem) (off : Nat) : α := C.value (peek m off C.width)

section Buffer
variable (C : Codec α) (D : Codec β) (m : Mem) (off : Nat)

theorem load_store (a : α) : C.load (C.store m off a) off = a := by
  have hpeek : peek (poke m off (C.bytes a)) off (C.bytes a).length = C.bytes a := peek_poke m
  rw [C.length_bytes] at hpeek
  rw [load, store, hpeek, C.value_bytes]

theorem store_load : C.store m off (C.load m off) = m := by
  rw [store, load, C.bytes_value _ (length_peek ..), poke_peek]

/-- Nothing outside is changed. -/
theorem store_outside (a : α) {i : Nat} (h : i < off ∨ off + C.width ≤ i) :
    C.store m off a i = m i := by
  rcases h with hlt | hle
  · exact poke_of_lt m hlt
  · apply poke_of_le m
    rwa [C.length_bytes]

/-- What was there before does not show. -/
theorem store_inside (m' : Mem) (a : α) {i : Nat} (h : i < C.width) :
    C.store m off a (off + i) = C.store m' off a (off + i) := by
  rw [← C.length_bytes a] at h
  rw [store, store, poke_inside m h, poke_inside m' h]

theorem store_pair (a : α × β) :
    (C.pair D).store m off a = D.store (C.store m off a.1) (off + C.width) a.2 := by
  rw [store, store, store, poke_poke m (by rw [C.length_bytes])]
  rfl

theorem load_pair : (C.pair D).load m off = (C.load m off, D.load m (off + C.width)) := by
  have hpeek := peek_add m off C.width D.width
  change (C.value ((peek m off (C.width + D.width)).take C.width),
    D.value ((peek m off (C.width + D.width)).drop C.width)) = _
  rw [hpeek, List.take_left' (length_peek ..), List.drop_left' (length_peek ..)]
  rfl

end Buffer
end Codec
end Hamster.Lib.Codecs
