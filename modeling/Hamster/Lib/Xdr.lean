import Hamster.Lib.Codecs

/-!
# XDR

External data representation. A routine puts a value onto a stream or takes one from it,
and may refuse to; everything on the stream comes in units of four bytes. Integers that
are shorter than a unit are widened, strings are counted and filled up.
-/
namespace Hamster.Lib.Xdr

open Bytes Codecs

/-- What was put is taken again, whatever comes behind it. What is taken could have been
put, and is in front of what is left. -/
structure Routine (α : Type) where
  put : α → Option (List Byte)
  get : List Byte → Option (α × List Byte)
  units : ∀ {a bs}, put a = some bs → 4 ∣ bs.length
  get_put : ∀ {a bs}, put a = some bs → ∀ rest, get (bs ++ rest) = some (a, rest)
  put_get : ∀ {bs a rest}, get bs = some (a, rest) → (put a).isSome ∧ rest <:+ bs

variable {α β : Type}

theorem two_pow_unit : 2 ^ 32 = 256 ^ 4 := rfl

/-- A unit. -/
def unit : Codec (BitVec 32) := .word 32 4 two_pow_unit

theorem length_unit (x : BitVec 32) : (unit.bytes x).length = 4 := unit.length_bytes x

/-- The first unit of a stream. -/
def getUnit (bs : List Byte) : Option (BitVec 32 × List Byte) :=
  if bs.length < 4 then none else some (unit.value (bs.take 4), bs.drop 4)

theorem getUnit_append (x : BitVec 32) (rest : List Byte) :
    getUnit (unit.bytes x ++ rest) = some (x, rest) := by
  have hlen := length_unit x
  rw [getUnit, if_neg (by rw [List.length_append]; omega), List.take_left' hlen,
    List.drop_left' hlen, unit.value_bytes]

theorem suffix_of_getUnit {bs rest : List Byte} {x : BitVec 32} (h : getUnit bs = some (x, rest)) :
    rest <:+ bs := by
  unfold getUnit at h
  split at h
  · cases h
  · cases h
    exact List.drop_suffix 4 bs

/-- `xdr_int32_t`, `xdr_uint32_t`, and shorter integers: `widen` is the conversion to 32
bits, and the upper bits of a unit are not looked at. -/
def integer (n : Nat) (widen : BitVec n → BitVec 32) (h : ∀ x, (widen x).setWidth n = x) :
    Routine (BitVec n) where
  put x := some (unit.bytes (widen x))
  get bs := (getUnit bs).map fun (x, rest) => (x.setWidth n, rest)
  units {x bs} hput := by
    cases hput
    rw [length_unit]
  get_put {x bs} hput rest := by
    cases hput
    rw [getUnit_append, Option.map_some]
    dsimp only
    rw [h]
  put_get {bs x rest} hget := by
    obtain ⟨y, hy, he⟩ := Option.map_eq_some_iff.mp hget
    cases he
    exact ⟨rfl, suffix_of_getUnit hy⟩

def int32 : Routine (BitVec 32) := integer 32 id fun _ => BitVec.setWidth_eq _

def uint16 : Routine (BitVec 16) := integer 16 (BitVec.setWidth 32) fun x => by
  rw [BitVec.setWidth_setWidth_of_le x (by decide), BitVec.setWidth_eq]

def int16 : Routine (BitVec 16) := integer 16 (BitVec.signExtend 32) fun x => by
  refine BitVec.eq_of_getLsbD_eq fun i hi => ?_
  rw [BitVec.getLsbD_setWidth, BitVec.getLsbD_signExtend]
  simp [hi, show i < 32 by omega]

/-- The zeros that fill up the last unit. -/
def fill (n : Nat) : Nat := (4 - n % 4) % 4

theorem four_dvd_fill (n : Nat) : 4 ∣ n + fill n := by
  unfold fill
  omega

def putString (max : Nat) (s : CString) : Option (List Byte) :=
  if s.strlen ≤ max then
    some (unit.bytes (BitVec.ofNat 32 s.strlen) ++ (s.chars ++ List.replicate (fill s.strlen) 0))
  else none

/-- The bytes that were counted get a zero behind them, and one among them ends the string. -/
def getString (max : Nat) (bs : List Byte) : Option (CString × List Byte) :=
  (getUnit bs).bind fun (size, bs) =>
    if size.toNat ≤ max then
      if bs.length < size.toNat + fill size.toNat then none
      else some (cstr (bs.take size.toNat), bs.drop (size.toNat + fill size.toNat))
    else none

section Strings
variable {max : Nat} {s : CString} {bs rest : List Byte}

theorem cstr_chars (s : CString) : cstr s.chars = s := by
  refine CString.ext (List.takeWhile_eq_self_iff.mpr fun b hb => ?_)
  have hne : b ≠ 0 := fun he => s.no_nul (he ▸ hb)
  simpa using hne

theorem putString_units (h : putString max s = some bs) : 4 ∣ bs.length := by
  unfold putString at h
  split at h
  · cases h
    rw [List.length_append, length_unit, List.length_append, List.length_replicate]
    exact Nat.dvd_add (Nat.dvd_refl 4) (four_dvd_fill s.strlen)
  · cases h

theorem getString_append (hmax : max < 2 ^ 32) (h : putString max s = some bs) (rest : List Byte) :
    getString max (bs ++ rest) = some (s, rest) := by
  unfold putString at h
  split at h
  · rename_i hs
    cases h
    have hsize : (BitVec.ofNat 32 s.strlen).toNat = s.strlen := by
      rw [BitVec.toNat_ofNat]
      omega
    have hchars : s.chars.length = s.strlen := rfl
    have hbody : (s.chars ++ List.replicate (fill s.strlen) 0).length = s.strlen + fill s.strlen := by
      rw [List.length_append, List.length_replicate, hchars]
    have htake : ((s.chars ++ List.replicate (fill s.strlen) 0) ++ rest).take s.strlen = s.chars := by
      rw [List.append_assoc, List.take_left' hchars]
    rw [getString, List.append_assoc, getUnit_append, Option.bind_some]
    dsimp only
    rw [hsize, if_pos hs, if_neg (by rw [List.length_append, hbody]; omega),
      List.drop_left' hbody, htake, cstr_chars]
  · cases h

theorem putString_of_getString (h : getString max bs = some (s, rest)) :
    (putString max s).isSome ∧ rest <:+ bs := by
  obtain ⟨⟨size, bs'⟩, hunit, h⟩ := Option.bind_eq_some_iff.mp h
  dsimp only at h
  split at h
  · rename_i hsize
    split at h
    · cases h
    · cases h
      have hshort : (cstr (bs'.take size.toNat)).strlen ≤ max :=
        ((List.takeWhile_prefix _).length_le.trans (List.length_take_le ..)).trans hsize
      refine ⟨?_, (List.drop_suffix _ _).trans (suffix_of_getUnit hunit)⟩
      rw [putString, if_pos hshort]
      rfl
  · cases h

end Strings

theorem putString_isSome (max : Nat) (s : CString) :
    (putString max s).isSome = decide (s.strlen ≤ max) := by
  unfold putString
  split
  · rename_i hs
    exact (decide_eq_true hs).symm
  · rename_i hs
    exact (decide_eq_false hs).symm

/-- `xdr_string(xdrs, objp, max)` -/
def string (max : Nat) (hmax : max < 2 ^ 32) : Routine CString where
  put := putString max
  get := getString max
  units := putString_units
  get_put := getString_append hmax
  put_get := putString_of_getString

/-- One member behind the other. -/
def Routine.pair (R : Routine α) (S : Routine β) : Routine (α × β) where
  put a := (R.put a.1).bind fun bs => (S.put a.2).map (bs ++ ·)
  get bs := (R.get bs).bind fun (a, bs) => (S.get bs).map fun (b, bs) => ((a, b), bs)
  units {a bs} hput := by
    obtain ⟨bs₁, h₁, hput⟩ := Option.bind_eq_some_iff.mp hput
    obtain ⟨bs₂, h₂, rfl⟩ := Option.map_eq_some_iff.mp hput
    rw [List.length_append]
    exact Nat.dvd_add (R.units h₁) (S.units h₂)
  get_put {a bs} hput rest := by
    obtain ⟨bs₁, h₁, hput⟩ := Option.bind_eq_some_iff.mp hput
    obtain ⟨bs₂, h₂, rfl⟩ := Option.map_eq_some_iff.mp hput
    rw [List.append_assoc, R.get_put h₁, Option.bind_some]
    dsimp only
    rw [S.get_put h₂]
    rfl
  put_get {bs a rest} hget := by
    obtain ⟨⟨a₁, bs₁⟩, h₁, hget⟩ := Option.bind_eq_some_iff.mp hget
    obtain ⟨⟨a₂, bs₂⟩, h₂, he⟩ := Option.map_eq_some_iff.mp hget
    cases he
    obtain ⟨hput₁, hrest₁⟩ := R.put_get h₁
    obtain ⟨hput₂, hrest₂⟩ := S.put_get h₂
    obtain ⟨cs₁, hcs₁⟩ := Option.isSome_iff_exists.mp hput₁
    obtain ⟨cs₂, hcs₂⟩ := Option.isSome_iff_exists.mp hput₂
    refine ⟨?_, hrest₂.trans hrest₁⟩
    rw [hcs₁, Option.bind_some, hcs₂]
    rfl

namespace Routine
variable {R : Routine α} {S : Routine β}

theorem pair_put_isSome (a : α × β) :
    ((R.pair S).put a).isSome = ((R.put a.1).isSome && (S.put a.2).isSome) := by
  show ((R.put a.1).bind _).isSome = _
  cases R.put a.1 with
  | none => rfl
  | some bs =>
    rw [Option.bind_some, Option.isSome_map]
    rfl

/-- A stream that ends with the value. -/
theorem get_of_put {a : α} {bs : List Byte} (h : R.put a = some bs) : R.get bs = some (a, []) := by
  have hget := R.get_put h []
  rwa [List.append_nil] at hget

end Routine

end Hamster.Lib.Xdr
