import Mathlib.Data.List.TakeWhile
import Mathlib.Data.Vector.Basic
import Mathlib.Tactic.Ring

/-!
# Byte strings, fixed-width integers and C strings

The value of a byte string in either byte order, with the round trips a
fixed-width field needs, and the C notion of a string: the bytes in front of
the first zero. Nothing here knows which program the bytes belong to.
-/
namespace Hamster.Lib.Bytes

abbrev Byte := BitVec 8

/-- `width` base-256 digits, least significant first. -/
def leBytes : Nat → Nat → List Byte
  | 0, _ => []
  | width + 1, value => BitVec.ofNat 8 value :: leBytes width (value / 256)

/-- The value of a byte string read least significant byte first. -/
def leNat : List Byte → Nat
  | [] => 0
  | b :: bs => b.toNat + 256 * leNat bs

def beBytes (width value : Nat) : List Byte := (leBytes width value).reverse

def beNat (bs : List Byte) : Nat := leNat bs.reverse

@[simp] theorem length_leBytes (width value : Nat) : (leBytes width value).length = width := by
  induction width generalizing value with
  | zero => rfl
  | succ width ih => simp [leBytes, ih]

@[simp] theorem length_beBytes (width value : Nat) : (beBytes width value).length = width := by
  simp [beBytes]

theorem leNat_leBytes (width value : Nat) :
    leNat (leBytes width value) = value % 256 ^ width := by
  induction width generalizing value with
  | zero => simp [leBytes, leNat, Nat.mod_one]
  | succ width ih =>
    simp only [leBytes, leNat, ih, BitVec.toNat_ofNat]
    rw [pow_succ 256 width, Nat.mul_comm (256 ^ width) 256, Nat.mod_mul]

theorem leBytes_leNat (bs : List Byte) : leBytes bs.length (leNat bs) = bs := by
  induction bs with
  | nil => rfl
  | cons b bs ih =>
    have hb : b.toNat < 256 := b.isLt
    have hdiv : (b.toNat + 256 * leNat bs) / 256 = leNat bs := by omega
    have hhead : BitVec.ofNat 8 (b.toNat + 256 * leNat bs) = b := by
      apply BitVec.eq_of_toNat_eq
      simp only [BitVec.toNat_ofNat]
      omega
    simp only [List.length_cons, leBytes, leNat, hdiv, ih, hhead]

/-- A word of `n` bits, written on `k` bytes, reads back. -/
theorem ofNat_leNat_leBytes {n k : Nat} (hw : 2 ^ n = 256 ^ k) (x : BitVec n) :
    BitVec.ofNat n (leNat (leBytes k x.toNat)) = x := by
  rw [leNat_leBytes, ← hw, Nat.mod_eq_of_lt x.isLt, BitVec.ofNat_toNat, BitVec.setWidth_eq]

theorem leNat_lt (bs : List Byte) : leNat bs < 256 ^ bs.length := by
  induction bs with
  | nil => simp [leNat]
  | cons b bs ih =>
    have hb : b.toNat < 256 := b.isLt
    simp only [leNat, List.length_cons, pow_succ]
    omega

/-- `k` bytes, read as a word of `n` bits, are written back unchanged. -/
theorem leBytes_ofNat_leNat {n k : Nat} (hw : 2 ^ n = 256 ^ k) (bs : List Byte)
    (hk : bs.length = k) : leBytes k (BitVec.ofNat n (leNat bs)).toNat = bs := by
  have hlt := leNat_lt bs
  rw [BitVec.toNat_ofNat, hw, Nat.mod_eq_of_lt (by rw [← hk]; exact hlt), ← hk, leBytes_leNat]

/-- The same for the opposite byte order. -/
theorem beNat_beBytes {n k : Nat} (hw : 2 ^ n = 256 ^ k) (x : BitVec n) :
    BitVec.ofNat n (beNat (beBytes k x.toNat)) = x := by
  rw [beNat, beBytes, List.reverse_reverse, ofNat_leNat_leBytes hw]

theorem beBytes_beNat {n k : Nat} (hw : 2 ^ n = 256 ^ k) {bs : List Byte} (hk : bs.length = k) :
    beBytes k (BitVec.ofNat n (beNat bs)).toNat = bs := by
  rw [beBytes, beNat, leBytes_ofNat_leNat hw _ (by rw [List.length_reverse, hk]),
    List.reverse_reverse]

/-- The characters of a C string, without the terminating zero. -/
structure CString where
  chars : List Byte
  no_nul : (0 : Byte) ∉ chars
  deriving DecidableEq

/-- The string that starts where `mem` does. Memory without a zero is taken to
end with one. -/
def cstr (mem : List Byte) : CString where
  chars := mem.takeWhile (· ≠ 0)
  no_nul h := by
    have hb := List.mem_takeWhile_imp h
    simp at hb

namespace CString

@[ext] theorem ext {s t : CString} (h : s.chars = t.chars) : s = t := by
  cases s; cases t; simp_all

def strlen (s : CString) : Nat := s.chars.length

/-- A string copied to the front of a zeroed buffer of `n` bytes. -/
def pad (n : Nat) (s : CString) : List Byte :=
  s.chars ++ List.replicate (n - s.strlen) 0

theorem length_pad {n : Nat} {s : CString} (h : s.strlen ≤ n) : (s.pad n).length = n := by
  simp only [pad, List.length_append, List.length_replicate]
  unfold strlen at *
  omega

end CString

theorem cstr_terminated (s : CString) (rest : List Byte) : cstr (s.chars ++ 0 :: rest) = s := by
  apply CString.ext
  have hs : ∀ b ∈ s.chars, (decide (b ≠ 0)) = true := by
    intro b hb
    simpa using fun h : b = 0 => s.no_nul (h ▸ hb)
  simp only [cstr]
  rw [List.takeWhile_append_of_pos hs]
  simp

/-- A padded string with room for its terminator reads back, whatever follows. -/
theorem cstr_pad {n : Nat} {s : CString} (h : s.strlen < n) (rest : List Byte) :
    cstr (s.pad n ++ rest) = s := by
  obtain ⟨k, hk⟩ : ∃ k, n - s.strlen = k + 1 := ⟨n - s.strlen - 1, by omega⟩
  rw [CString.pad, hk, List.replicate_succ, List.append_assoc, List.cons_append]
  exact cstr_terminated s _

theorem cstr_pad_self {n : Nat} {s : CString} (h : s.strlen < n) : cstr (s.pad n) = s := by
  have hback := cstr_pad h []
  rwa [List.append_nil] at hback

/-- A zero within the first `n` bytes ends the string there. -/
theorem cstr_append {mem : List Byte} (h : (0 : Byte) ∈ mem) (rest : List Byte) :
    cstr (mem ++ rest) = cstr mem := by
  obtain ⟨front, back, rfl, hf⟩ := List.eq_append_cons_of_mem h
  have hs := cstr_terminated ⟨front, hf⟩
  rw [List.append_assoc, List.cons_append]
  exact (hs _).trans (hs _).symm

end Hamster.Lib.Bytes
