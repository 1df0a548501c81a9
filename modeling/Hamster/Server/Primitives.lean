import Hamster.Lib.Codecs
import Hamster.Server.Messages

/-!
# The primitives with what they return

hamsterrpc.c once more, now with the `int` each function returns and the loops over the
characters of a string. The bytes are those of the encodings used by the messages.
-/
namespace Hamster.Server.Primitives

open Lib.Bytes Lib.Memory Lib.Codecs Messages

section Numbers
variable (buffer : Mem) (off : Nat)

def rpcEncodeOctet (data : Byte) : Int × Mem := (1, Wire.rpcEncodeOctet buffer off data)

def rpcEncodeUint16 (data : BitVec 16) : Int × Mem := (2, Wire.rpcEncodeUint16 buffer off data)

def rpcEncodeInt32 (data : BitVec 32) : Int × Mem := (4, Wire.rpcEncodeInt32 buffer off data)

def rpcEncodeUint32 (data : BitVec 32) : Int × Mem := (4, Wire.rpcEncodeUint32 buffer off data)

def rpcEncodeInt16 (data : BitVec 16) : Int × Mem := (2, Wire.rpcEncodeInt16 buffer off data)

def rpcDecodeInt32 : Int × BitVec 32 := (4, Wire.rpcDecodeInt32 buffer off)

def rpcDecodeUint32 : Int × BitVec 32 := (4, Wire.rpcDecodeUint32 buffer off)

def rpcDecodeUint16 : Int × BitVec 16 := (2, Wire.rpcDecodeUint16 buffer off)

def rpcDecodeOctet : Int × Byte := (1, Wire.rpcDecodeOctet buffer off)

end Numbers

/-- `for(int i=0; i< size; i++)` from `i` on. There is no next `i` behind the last `int`. -/
def copyLoop (dst : Mem) (off : Nat) (src : Mem) (size i : Nat) : Option Mem :=
  if i < size then
    let dst := poke dst (off + i) [src i]
    if i + 1 < 2 ^ 31 then copyLoop dst off src size (i + 1) else none
  else some dst
termination_by size - i

/-- A `size_t` returned as an `int` -/
def toInt (size : Nat) : Int := (BitVec.ofNat 32 size).toInt

def rpcEncodeSstring (buffer : Mem) (off : Nat) (str : Mem) (size : Nat) : Option (Int × Mem) :=
  (copyLoop buffer off str size 0).map fun buffer => (toInt size, buffer)

def rpcDecodeSstring (buffer : Mem) (off : Nat) (str : Mem) (size : Nat) : Option (Int × Mem) :=
  (copyLoop str 0 (fun i => buffer (off + i)) size 0).map fun str => (toInt size, str)

theorem copyLoop_some (dst : Mem) (off : Nat) (src : Mem) {size i : Nat}
    (hsize : size < 2 ^ 31) (hi : i ≤ size) :
    copyLoop dst off src size i = some (poke dst (off + i) (peek src i (size - i))) := by
  induction dst, i using copyLoop.induct off src size with
  | case1 dst i hlt here hnext ih =>
    have hone : size - i = 1 + (size - (i + 1)) := by omega
    rw [copyLoop, if_pos hlt, if_pos hnext, ih hlt, poke_poke dst (by simp; omega), hone, peek_add]
    rfl
  | case2 dst i hlt hover => omega
  | case3 dst i hge =>
    have hzero : size - i = 0 := by omega
    rw [copyLoop, if_neg hge, hzero]
    congr 1
    funext j
    simp [poke, peek]

theorem copyLoop_none (dst : Mem) (off : Nat) (src : Mem) {size i : Nat}
    (hsize : 2 ^ 31 ≤ size) (hi : i < 2 ^ 31) : copyLoop dst off src size i = none := by
  induction dst, i using copyLoop.induct off src size with
  | case1 dst i hlt here hnext ih => rw [copyLoop, if_pos hlt, if_pos hnext, ih hnext]
  | case2 dst i hlt hover => rw [copyLoop, if_pos hlt, if_neg hover]
  | case3 dst i hge => omega

section Sstring
variable (buffer : Mem) (off : Nat) (str : Mem) {size : Nat}

theorem toInt_of_lt (h : size < 2 ^ 31) : toInt size = size := by
  have hnat : (BitVec.ofNat 32 size).toNat = size := by
    rw [BitVec.toNat_ofNat]
    omega
  rw [toInt, BitVec.toInt_eq_toNat_of_lt (by omega), hnat]

theorem rpcEncodeSstring_eq (h : size < 2 ^ 31) : rpcEncodeSstring buffer off str size =
    some ((size : Int), Wire.rpcEncodeSstring buffer off (peek str 0 size) size) := by
  have htake : (peek str 0 size).take size = peek str 0 size :=
    List.take_of_length_le (by rw [length_peek])
  rw [rpcEncodeSstring, copyLoop_some buffer off str h (Nat.zero_le size), Option.map_some,
    toInt_of_lt h, Wire.rpcEncodeSstring, htake]
  rfl

theorem rpcDecodeSstring_eq (h : size < 2 ^ 31) : rpcDecodeSstring buffer off str size =
    some ((size : Int), poke str 0 (Wire.rpcDecodeSstring buffer off size)) := by
  have hpeek : peek (fun i => buffer (off + i)) 0 size = peek buffer off size := by
    simp [peek]
  rw [rpcDecodeSstring, copyLoop_some str 0 _ h (Nat.zero_le size), Option.map_some,
    toInt_of_lt h, Nat.sub_zero, hpeek]
  rfl

theorem rpcEncodeSstring_none (h : 2 ^ 31 ≤ size) :
    rpcEncodeSstring buffer off str size = none := by
  rw [rpcEncodeSstring, copyLoop_none buffer off str h (by decide)]
  rfl

end Sstring

def octet : Codec Byte := .word 8 1 rfl

def number16 : Codec (BitVec 16) := .word 16 2 rfl

def number32 : Codec (BitVec 32) := .word 32 4 rfl

theorem octet_bytes (data : Byte) : octet.bytes data = [data] := by
  change beBytes 1 data.toNat = [data]
  simp [beBytes, leBytes]

theorem octet_load (buffer : Mem) (off : Nat) : octet.load buffer off = buffer off := by
  change BitVec.ofNat 8 (beNat [buffer off]) = buffer off
  simp [beNat, leNat]

theorem number16_store (buffer : Mem) (off : Nat) (data : BitVec 16) :
    number16.store buffer off data = Wire.rpcEncodeUint16 buffer off data :=
  (Wire.rpcEncodeUint16_eq buffer off data).symm

theorem number16_load (buffer : Mem) (off : Nat) :
    number16.load buffer off = Wire.rpcDecodeUint16 buffer off :=
  (Wire.rpcDecodeUint16_eq buffer off).symm

theorem octet_store (buffer : Mem) (off : Nat) (data : Byte) :
    octet.store buffer off data = Wire.rpcEncodeOctet buffer off data := by
  rw [Codec.store, octet_bytes]
  rfl

/-- The fields of a header in the order in which they are sent. -/
def fields : Header ≃ (((Byte × Byte) × BitVec 16) × BitVec 16) × BitVec 16 where
  toFun h := ((((h.version, h.flag), h.msgID), h.paySize), h.rpcID)
  invFun f := ⟨f.1.1.1.1, f.1.1.1.2, f.1.1.2, f.1.2, f.2⟩
  left_inv _ := rfl
  right_inv _ := rfl

def headerCodec : Codec Header :=
  ((((octet.pair octet).pair number16).pair number16).pair number16).via fields

theorem headerCodec_store (buffer : Mem) (h : Header) :
    headerCodec.store buffer 0 h = encodeHeader buffer h := by
  change Codec.store ((((octet.pair octet).pair number16).pair number16).pair number16) buffer 0
    (fields h) = _
  simp only [Codec.store_pair, number16_store, octet_store]
  rfl

theorem headerCodec_load (buffer : Mem) : headerCodec.load buffer 0 = decodeHeader buffer := by
  change fields.symm (Codec.load ((((octet.pair octet).pair number16).pair number16).pair number16)
    buffer 0) = _
  simp only [Codec.load_pair, number16_load, octet_load]
  rfl

end Hamster.Server.Primitives
