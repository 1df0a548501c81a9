import Hamster.Server.Primitives

/-!
# The wire encodings are invertible

Numbers and headers always come back, and strings as long as their size is an `int`.
-/
namespace Hamster.Contract.WireCodec

open Lib.Bytes Lib.Memory Lib.Codecs Server Messages Primitives

variable {α : Type}

/-- The encoder writes `width` bytes, says so, and leaves the others alone. -/
structure Encodes (width : Nat) (encode : Mem → Nat → α → Int × Mem) : Prop where
  returns : ∀ buffer off a, (encode buffer off a).1 = width
  written : ∀ buffer buffer' off a i, i < width →
    (encode buffer off a).2 (off + i) = (encode buffer' off a).2 (off + i)
  unchanged : ∀ buffer off a i, i < off ∨ off + width ≤ i → (encode buffer off a).2 i = buffer i

structure Inverse (width : Nat) (encode : Mem → Nat → α → Int × Mem)
    (decode : Mem → Nat → Int × α) : Prop extends Encodes width encode where
  decode_encode : ∀ buffer off a, decode (encode buffer off a).2 off = ((width : Int), a)
  encode_decode : ∀ buffer off,
    encode buffer off (decode buffer off).2 = ((width : Int), buffer)

/-- The same for the first `n` characters of an array. -/
structure StringInverse (n : Nat) : Prop where
  written : ∀ buffer off str, ∃ buffer',
    rpcEncodeSstring buffer off str n = some ((n : Int), buffer') ∧
    (∀ i < n, buffer' (off + i) = str i) ∧
    ∀ i, i < off ∨ off + n ≤ i → buffer' i = buffer i
  decode_encode : ∀ buffer off str str' r buffer',
    rpcEncodeSstring buffer off str n = some (r, buffer') →
    ∃ out, rpcDecodeSstring buffer' off str' n = some ((n : Int), out) ∧
      (∀ i < n, out i = str i) ∧ ∀ i, n ≤ i → out i = str' i
  encode_decode : ∀ buffer off str r out, rpcDecodeSstring buffer off str n = some (r, out) →
    rpcEncodeSstring buffer off out n = some ((n : Int), buffer)

/-- `encodeHeader` against the first half of `handleHeader`. -/
structure HeaderInverse : Prop where
  decode_encode : ∀ buffer h sendHeader,
    (handleHeader (encodeHeader buffer h) sendHeader).1 = h
  encode_decode : ∀ buffer sendHeader,
    encodeHeader buffer (handleHeader buffer sendHeader).1 = buffer
  unchanged : ∀ buffer h i, 8 ≤ i → encodeHeader buffer h i = buffer i

/-- hamsterrpc.c has no function that takes an `int16` out of a buffer. -/
structure Invertible (n : Nat) : Prop where
  octet : Inverse 1 rpcEncodeOctet rpcDecodeOctet
  uint16 : Inverse 2 rpcEncodeUint16 rpcDecodeUint16
  int16 : Encodes 2 rpcEncodeInt16
  int32 : Inverse 4 rpcEncodeInt32 rpcDecodeInt32
  uint32 : Inverse 4 rpcEncodeUint32 rpcDecodeUint32
  signed : ∀ buffer off (v : Int), -2 ^ 31 ≤ v → v < 2 ^ 31 →
    (rpcDecodeInt32 (rpcEncodeInt32 buffer off (BitVec.ofInt 32 v)).2 off).2.toInt = v
  sstring : StringInverse n
  header : HeaderInverse

section Codec
variable (C : Codec α) {encode : Mem → Nat → α → Int × Mem} {decode : Mem → Nat → Int × α}

theorem encodes_of_codec
    (hencode : ∀ buffer off a, encode buffer off a = ((C.width : Int), C.store buffer off a)) :
    Encodes C.width encode := by
  constructor
  · intro buffer off a
    rw [hencode]
  · intro buffer buffer' off a i hi
    rw [hencode, hencode]
    exact C.store_inside buffer off buffer' a hi
  · intro buffer off a i hi
    rw [hencode]
    exact C.store_outside buffer off a hi

theorem inverse_of_codec
    (hencode : ∀ buffer off a, encode buffer off a = ((C.width : Int), C.store buffer off a))
    (hdecode : ∀ buffer off, decode buffer off = ((C.width : Int), C.load buffer off)) :
    Inverse C.width encode decode := by
  refine ⟨encodes_of_codec C hencode, ?_, ?_⟩
  · intro buffer off a
    rw [hencode, hdecode, C.load_store]
  · intro buffer off
    rw [hdecode, hencode, C.store_load]

end Codec

theorem inverse_octet : Inverse 1 rpcEncodeOctet rpcDecodeOctet := by
  apply inverse_of_codec octet
  · intro buffer off data
    rw [octet_store]
    rfl
  · intro buffer off
    rw [octet_load]
    rfl

theorem inverse_uint16 : Inverse 2 rpcEncodeUint16 rpcDecodeUint16 := by
  apply inverse_of_codec number16
  · intro buffer off data
    rw [number16_store]
    rfl
  · intro buffer off
    rw [number16_load]
    rfl

theorem encodes_int16 : Encodes 2 rpcEncodeInt16 := by
  apply encodes_of_codec number16
  intro buffer off data
  rw [rpcEncodeInt16, Wire.rpcEncodeInt16_eq]
  rfl

theorem inverse_int32 : Inverse 4 rpcEncodeInt32 rpcDecodeInt32 := by
  apply inverse_of_codec number32
  · intro buffer off data
    rw [rpcEncodeInt32, Wire.rpcEncodeInt32_eq]
    rfl
  · intro buffer off
    rw [rpcDecodeInt32, Wire.rpcDecodeInt32_eq]
    rfl

theorem inverse_uint32 : Inverse 4 rpcEncodeUint32 rpcDecodeUint32 := by
  apply inverse_of_codec number32
  · intro buffer off data
    rw [rpcEncodeUint32, Wire.rpcEncodeUint32_eq]
    rfl
  · intro buffer off
    rw [rpcDecodeUint32, Wire.rpcDecodeUint32_eq]
    rfl

theorem signed_int32 (buffer : Mem) (off : Nat) (v : Int) (hlow : -2 ^ 31 ≤ v)
    (hhigh : v < 2 ^ 31) :
    (rpcDecodeInt32 (rpcEncodeInt32 buffer off (BitVec.ofInt 32 v)).2 off).2.toInt = v := by
  rw [inverse_int32.decode_encode, BitVec.toInt_ofInt]
  exact Int.bmod_eq_of_le (by norm_num; omega) (by norm_num; omega)

theorem header_inverse : HeaderInverse := by
  constructor
  · intro buffer h sendHeader
    change decodeHeader (encodeHeader buffer h) = h
    rw [← headerCodec_store, ← headerCodec_load, Codec.load_store]
  · intro buffer sendHeader
    change encodeHeader buffer (decodeHeader buffer) = buffer
    rw [← headerCodec_store, ← headerCodec_load, Codec.store_load]
  · intro buffer h i hi
    rw [← headerCodec_store]
    exact headerCodec.store_outside buffer 0 h (.inr hi)

section Strings
variable {n : Nat}

/-- What is taken from one buffer and put into another. -/
theorem moved (src dst : Mem) (off i : Nat) (h : i < n) :
    poke dst off (peek src 0 n) (off + i) = src i := by
  rw [poke_inside dst (by rwa [length_peek])]
  simp [peek]

theorem peek_moved (src dst : Mem) (start off : Nat) :
    peek (poke dst off (peek src start n)) off n = peek src start n := by
  have hpeek : peek (poke dst off (peek src start n)) off (peek src start n).length =
      peek src start n := peek_poke dst
  rwa [length_peek] at hpeek

theorem kept (src dst : Mem) (start off i : Nat) (h : i < off ∨ off + n ≤ i) :
    poke dst off (peek src start n) i = dst i := by
  rcases h with hlt | hle
  · exact poke_of_lt dst hlt
  · exact poke_of_le dst (by rwa [length_peek])

theorem string_inverse (h : n < 2 ^ 31) : StringInverse n := by
  have hencode : ∀ buffer off str,
      rpcEncodeSstring buffer off str n = some ((n : Int), poke buffer off (peek str 0 n)) := by
    intro buffer off str
    have htake : (peek str 0 n).take n = peek str 0 n :=
      List.take_of_length_le (by rw [length_peek])
    rw [rpcEncodeSstring_eq buffer off str h, Wire.rpcEncodeSstring, htake]
  have hdecode : ∀ buffer off str,
      rpcDecodeSstring buffer off str n = some ((n : Int), poke str 0 (peek buffer off n)) :=
    fun buffer off str => rpcDecodeSstring_eq buffer off str h
  constructor
  · intro buffer off str
    refine ⟨_, hencode buffer off str, ?_, ?_⟩
    · intro i hi
      exact moved str buffer off i hi
    · intro i hi
      exact kept str buffer 0 off i hi
  · intro buffer off str str' r buffer' hb
    obtain ⟨rfl, rfl⟩ := Prod.mk.inj (Option.some.inj (hb.symm.trans (hencode buffer off str)))
    refine ⟨_, hdecode _ off str', ?_, ?_⟩
    · intro i hi
      have hat := moved str str' 0 i hi
      rw [Nat.zero_add] at hat
      rwa [peek_moved]
    · intro i hi
      exact kept _ str' off 0 i (by omega)
  · intro buffer off str r out ho
    obtain ⟨rfl, rfl⟩ := Prod.mk.inj (Option.some.inj (ho.symm.trans (hdecode buffer off str)))
    rw [hencode, peek_moved, poke_peek]

theorem not_string_inverse (h : 2 ^ 31 ≤ n) : ¬ StringInverse n := by
  intro hs
  obtain ⟨buffer', hb, -⟩ := hs.written (fun _ => 0) 0 (fun _ => 0)
  rw [rpcEncodeSstring_none _ _ _ h] at hb
  exact absurd hb (by simp)

end Strings

/-- Only the loops over characters have an end: the index is an `int`, and so is the result. -/
theorem invertible_iff (n : Nat) : Invertible n ↔ n < 2 ^ 31 := by
  constructor
  · intro hall
    by_contra hn
    exact not_string_inverse (Nat.not_lt.mp hn) hall.sstring
  · intro hn
    exact ⟨inverse_octet, inverse_uint16, encodes_int16, inverse_int32, inverse_uint32,
      signed_int32, string_inverse hn, header_inverse⟩

theorem index_overflows : ¬ Invertible (2 ^ 31) := by
  intro hall
  exact not_string_inverse (le_refl _) hall.sstring

end Hamster.Contract.WireCodec
