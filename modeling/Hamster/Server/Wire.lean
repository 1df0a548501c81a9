import Hamster.Lib.Memory

/-!
# The wire encodings of hamsterrpc.c

Each function puts a value into a buffer, or takes one out, byte by byte. The
spec lemmas say it once in terms of big-endian numbers.
-/
namespace Hamster.Server.Wire

open Lib.Bytes Lib.Memory

section Encode
variable (buffer : Mem) (off : Nat)

def rpcEncodeOctet (data : Byte) : Mem := poke buffer off [data]

def rpcEncodeUint16 (data : BitVec 16) : Mem :=
  poke buffer off [(data >>> 8).setWidth 8, data.setWidth 8]

/-- The operand is signed, so the shifts are arithmetic. -/
def rpcEncodeInt32 (data : BitVec 32) : Mem :=
  poke buffer off [(data.sshiftRight 24).setWidth 8, (data.sshiftRight 16).setWidth 8,
    (data.sshiftRight 8).setWidth 8, data.setWidth 8]

def rpcEncodeUint32 (data : BitVec 32) : Mem :=
  poke buffer off [(data >>> 24).setWidth 8, (data >>> 16).setWidth 8, (data >>> 8).setWidth 8,
    data.setWidth 8]

def rpcEncodeInt16 (data : BitVec 16) : Mem :=
  poke buffer off [(data.sshiftRight 8).setWidth 8, data.setWidth 8]

/-- `size` bytes of the array, whatever stands behind the string's end. -/
def rpcEncodeSstring (str : List Byte) (size : Nat) : Mem := poke buffer off (str.take size)

end Encode

section Decode
variable (buffer : Mem) (off : Nat)

def rpcDecodeSstring (size : Nat) : List Byte := peek buffer off size

def rpcDecodeInt32 : BitVec 32 :=
  ((buffer off).setWidth 32 <<< 24) ||| ((buffer (off + 1)).setWidth 32 <<< 16) |||
    ((buffer (off + 2)).setWidth 32 <<< 8) ||| (buffer (off + 3)).setWidth 32

def rpcDecodeUint32 : BitVec 32 :=
  ((buffer off).setWidth 32 <<< 24) ||| ((buffer (off + 1)).setWidth 32 <<< 16) |||
    ((buffer (off + 2)).setWidth 32 <<< 8) ||| (buffer (off + 3)).setWidth 32

def rpcDecodeUint16 : BitVec 16 :=
  ((buffer off).setWidth 16 <<< 8) ||| (buffer (off + 1)).setWidth 16

def rpcDecodeOctet : Byte := buffer off

end Decode

section Words

/-- An arithmetic shift differs from a logical one only in bits cut off. -/
theorem setWidth_sshiftRight {n k : Nat} (data : BitVec n) (h : k + 8 ≤ n) :
    (data.sshiftRight k).setWidth 8 = (data >>> k).setWidth 8 := by
  apply BitVec.eq_of_getLsbD_eq
  intro i hi
  have hin : ¬ n ≤ i := by omega
  have hki : k + i < n := by omega
  simp [BitVec.getLsbD_sshiftRight, hi, hin, hki]

theorem setWidth_shiftRight {n k : Nat} (data : BitVec n) :
    (data >>> k).setWidth 8 = BitVec.ofNat 8 (data.toNat / 2 ^ k) := by
  apply BitVec.eq_of_toNat_eq
  simp [Nat.shiftRight_eq_div_pow]

theorem beBytes_two (x : Nat) :
    beBytes 2 x = [BitVec.ofNat 8 (x / 2 ^ 8), BitVec.ofNat 8 x] := by
  simp [beBytes, leBytes]

theorem beBytes_four (x : Nat) :
    beBytes 4 x = [BitVec.ofNat 8 (x / 2 ^ 24), BitVec.ofNat 8 (x / 2 ^ 16),
      BitVec.ofNat 8 (x / 2 ^ 8), BitVec.ofNat 8 x] := by
  simp [beBytes, leBytes, Nat.div_div_eq_div_mul]

/-- One step of reading a number: what was read so far moves up a byte. -/
theorem shiftLeft_or_byte {n : Nat} (x : Nat) (b : Byte) :
    (BitVec.ofNat n x <<< 8) ||| b.setWidth n = BitVec.ofNat n (256 * x + b.toNat) := by
  have hand : (BitVec.ofNat n x <<< 8) &&& b.setWidth n = 0#n := by
    apply BitVec.eq_of_getLsbD_eq
    intro i hi
    by_cases h8 : i < 8
    · simp [h8]
    · simp [BitVec.getLsbD_of_ge b i (by omega)]
  have hx : BitVec.ofNat n x <<< 8 = BitVec.ofNat n (256 * x) := by
    apply BitVec.eq_of_toNat_eq
    rw [BitVec.toNat_shiftLeft, Nat.shiftLeft_eq, BitVec.toNat_ofNat, BitVec.toNat_ofNat,
      Nat.mod_mul_mod, Nat.mul_comm]
  rw [← BitVec.add_eq_or_of_and_eq_zero _ _ hand, hx, ← BitVec.ofNat_toNat, ← BitVec.ofNat_add]

end Words

section Spec
variable (buffer : Mem) (off : Nat)

theorem rpcEncodeUint16_eq (data : BitVec 16) :
    rpcEncodeUint16 buffer off data = poke buffer off (beBytes 2 data.toNat) := by
  rw [rpcEncodeUint16, setWidth_shiftRight, beBytes_two, BitVec.ofNat_toNat]

theorem rpcEncodeInt16_eq (data : BitVec 16) :
    rpcEncodeInt16 buffer off data = poke buffer off (beBytes 2 data.toNat) := by
  rw [rpcEncodeInt16, setWidth_sshiftRight data (by decide), setWidth_shiftRight, beBytes_two,
    BitVec.ofNat_toNat]

theorem rpcEncodeUint32_eq (data : BitVec 32) :
    rpcEncodeUint32 buffer off data = poke buffer off (beBytes 4 data.toNat) := by
  simp only [rpcEncodeUint32, setWidth_shiftRight, beBytes_four, BitVec.ofNat_toNat]

theorem rpcEncodeInt32_eq (data : BitVec 32) :
    rpcEncodeInt32 buffer off data = poke buffer off (beBytes 4 data.toNat) := by
  rw [rpcEncodeInt32, setWidth_sshiftRight data (by decide), setWidth_sshiftRight data (by decide),
    setWidth_sshiftRight data (by decide)]
  exact rpcEncodeUint32_eq buffer off data

theorem rpcDecodeUint16_eq :
    rpcDecodeUint16 buffer off = BitVec.ofNat 16 (beNat (peek buffer off 2)) := by
  have hpeek : peek buffer off 2 = [buffer off, buffer (off + 1)] := rfl
  rw [rpcDecodeUint16, ← BitVec.ofNat_toNat 16 (buffer off), shiftLeft_or_byte, hpeek]
  congr 1
  simp only [beNat, leNat, List.reverse_cons, List.reverse_nil, List.nil_append, List.cons_append]
  omega

theorem rpcDecodeInt32_eq :
    rpcDecodeInt32 buffer off = BitVec.ofNat 32 (beNat (peek buffer off 4)) := by
  have hpeek : peek buffer off 4 =
      [buffer off, buffer (off + 1), buffer (off + 2), buffer (off + 3)] := rfl
  have hsteps : rpcDecodeInt32 buffer off =
      (((BitVec.ofNat 32 (buffer off).toNat <<< 8 ||| (buffer (off + 1)).setWidth 32) <<< 8 |||
        (buffer (off + 2)).setWidth 32) <<< 8) ||| (buffer (off + 3)).setWidth 32 := by
    simp only [rpcDecodeInt32, BitVec.shiftLeft_or_distrib, ← BitVec.shiftLeft_add,
      BitVec.ofNat_toNat, Nat.reduceAdd]
  rw [hsteps, shiftLeft_or_byte, shiftLeft_or_byte, shiftLeft_or_byte, hpeek]
  congr 1
  simp only [beNat, leNat, List.reverse_cons, List.reverse_nil, List.nil_append, List.cons_append]
  omega

theorem rpcDecodeUint32_eq :
    rpcDecodeUint32 buffer off = BitVec.ofNat 32 (beNat (peek buffer off 4)) :=
  rpcDecodeInt32_eq buffer off

end Spec
end Hamster.Server.Wire
