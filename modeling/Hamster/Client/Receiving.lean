import Hamster.Lib.Loops
import Hamster.Lib.Streams
import Hamster.Client.Stubs

/-!
# The receive loops

`receiveHeader` and `receivePayload` of HamsterRPCConnection.java, turn by turn and on any
input stream; no result is a loop still running after `turns` turns. On a connection they
are the ones the stubs call.
-/
namespace Hamster.Client.Receiving

open Lib.Bytes Lib.Posix Lib.Java Lib.Loops Lib.Streams Stubs

/-- The local variables, with the stream and the array of `buf`. -/
structure Received (σ : Type) where
  input : σ
  array : List Byte
  receivedByte : Int

section Source
variable {σ : Type} (S : InputStream σ)

/-- `receivedByte += input.read(buf.array(), receivedByte, length - receivedByte);` -/
def Received.read (length : Int) (r : Received σ) : Except JavaException (Received σ) :=
  (S.readInto r.input r.array r.receivedByte (length - r.receivedByte)).map
    fun (n, array, input) => ⟨input, array, r.receivedByte + n⟩

/-- `receivedByte < length` -/
def Received.below (length : Int) (r : Received σ) : Bool := decide (r.receivedByte < length)

/-- A read and the test with `buf.array().length`. -/
def Received.fill (r : Received σ) : Except JavaException (Received σ) := r.read S r.array.length
def Received.unfilled (r : Received σ) : Bool := r.below r.array.length

/-- `return buf;`, whose position nothing has moved. -/
def Received.result (r : Received σ) : ByteBuffer × σ := (.wrap r.array, r.input)

def receiveHeader (turns : Nat) (input : σ) : Option (Except JavaException (ByteBuffer × σ)) :=
  match ByteBuffer.allocate headerSize with
  | .error e => some (.error e)
  | .ok buf =>
    (doWhile Received.unfilled (Received.fill S) turns ⟨input, buf.array, 0⟩).map
      (Except.map Received.result)

def receivePayload (turns : Nat) (input : σ) (payloadSize : BitVec 32) :
    Option (Except JavaException (ByteBuffer × σ)) :=
  match ByteBuffer.allocate payloadSize.toInt with
  | .error e => some (.error e)
  | .ok buf =>
    (whileLoop (Received.below payloadSize.toInt) (Received.read S payloadSize.toInt) turns
      ⟨input, buf.array, 0⟩).map (Except.map Received.result)

end Source

section Recorded
variable {σ : Type} {S : InputStream σ}

/-- Without the record. -/
def Received.plain (r : Received (σ × List (σ × Nat))) : Received σ :=
  ⟨r.input.1, r.array, r.receivedByte⟩

theorem read_plain (length : Int) (r : Received (σ × List (σ × Nat))) :
    r.plain.read S length = (r.read S.recorded length).map Received.plain := by
  rw [Received.read, Received.read, Received.plain, InputStream.readInto_recorded]
  cases S.recorded.readInto r.input r.array r.receivedByte (length - r.receivedByte) with
  | error e => rfl
  | ok x => rfl

theorem below_plain (length : Int) (r : Received (σ × List (σ × Nat))) :
    r.plain.below length = r.below length := rfl

theorem fill_plain (r : Received (σ × List (σ × Nat))) :
    r.plain.fill S = (r.fill S.recorded).map Received.plain := read_plain r.array.length r

theorem unfilled_plain (r : Received (σ × List (σ × Nat))) : r.plain.unfilled = r.unfilled := rfl

theorem result_plain (loop : Option (Except JavaException (Received (σ × List (σ × Nat))))) :
    (loop.map (Except.map Received.plain)).map (Except.map Received.result) =
      (loop.map (Except.map Received.result)).map (Except.map fun x => (x.1, x.2.1)) := by
  rcases loop with _ | _ | _ <;> rfl

theorem receiveHeader_recorded (turns : Nat) (s : σ) (asked : List (σ × Nat)) :
    receiveHeader S turns s =
      (receiveHeader S.recorded turns (s, asked)).map (Except.map fun x => (x.1, x.2.1)) := by
  rw [receiveHeader, receiveHeader, ByteBuffer.allocate_nat]
  dsimp only
  rw [← result_plain, ← doWhile_view _ unfilled_plain fill_plain]
  rfl

theorem receivePayload_recorded (turns : Nat) (s : σ) (asked : List (σ × Nat))
    (payloadSize : BitVec 32) :
    receivePayload S turns s payloadSize =
      (receivePayload S.recorded turns (s, asked) payloadSize).map
        (Except.map fun x => (x.1, x.2.1)) := by
  rw [receivePayload, receivePayload]
  cases ByteBuffer.allocate payloadSize.toInt with
  | error e => rfl
  | ok buf =>
    dsimp only
    rw [← result_plain, ← whileLoop_view _ (below_plain payloadSize.toInt)
      (read_plain payloadSize.toInt)]
    rfl

end Recorded

section Connection
variable {rx : Rx}

/-- What a turn takes off the bytes to come, twice, makes up for the bytes received, or the
end of the stream takes one of these back. -/
def measure (r : Received Rx) : Nat := 2 * r.input.bytes.length + (r.receivedByte + 1).toNat

theorem fill_ofRx {r r' : Received Rx} (h : r.fill .ofRx = .ok r') (hmore : r.unfilled = true) :
    r'.array.length = r.array.length ∧ measure r' < measure r := by
  have hlt : r.receivedByte < r.array.length := of_decide_eq_true hmore
  rw [Received.fill, Received.read, InputStream.readInto_ofRx] at h
  cases hread : readInto r.input r.array r.receivedByte (r.array.length - r.receivedByte) with
  | error e =>
    rw [hread] at h
    cases h
  | ok x =>
    obtain ⟨n, array, input⟩ := x
    obtain ⟨hoff, hlen, bs, hbytes, hn⟩ := readInto_cases (by omega) hread
    rw [hread] at h
    obtain rfl : Received.mk input array (r.receivedByte + n) = r' := Except.ok.inj h
    have htotal : r.input.bytes.length = bs.length + input.bytes.length := by
      rw [hbytes, List.length_append]
    refine ⟨hlen, ?_⟩
    unfold measure
    dsimp only
    by_cases hbs : bs = []
    · rw [if_pos hbs] at hn
      omega
    · rw [if_neg hbs] at hn
      have hpos := List.length_pos_of_ne_nil hbs
      omega

theorem receiveLoop_turn (fuel : Nat) (r : Received Rx) :
    receiveLoop (fuel + 1) r.input r.array r.receivedByte =
      match r.fill .ofRx with
      | .error e => .error e
      | .ok r' =>
        if r'.unfilled then receiveLoop fuel r'.input r'.array r'.receivedByte
        else .ok (r'.array, r'.input) := by
  rw [receiveLoop, Received.fill, Received.read, InputStream.readInto_ofRx]
  cases readInto r.input r.array r.receivedByte (r.array.length - r.receivedByte) with
  | error e => rfl
  | ok x =>
    simp only [Except.map, Received.unfilled, Received.below, decide_eq_true_eq]

/-- Once it has ended, it is the loop that the stubs run. -/
theorem receiveLoop_eq {turns : Nat} {r : Received Rx} {result : Except JavaException (Received Rx)}
    (h : doWhile Received.unfilled (Received.fill .ofRx) turns r = some result) {fuel : Nat}
    (hfuel : turns < fuel) :
    receiveLoop fuel r.input r.array r.receivedByte = result.map fun r => (r.array, r.input) := by
  induction turns using Nat.strong_induction_on generalizing r fuel with
  | h turns ih =>
    obtain ⟨fuel, rfl⟩ : ∃ k, fuel = k + 1 := ⟨fuel - 1, by omega⟩
    rw [receiveLoop_turn]
    rw [doWhile] at h
    cases hfill : r.fill .ofRx with
    | error e =>
      rw [hfill] at h
      cases h
      rfl
    | ok r' =>
      rw [hfill] at h
      dsimp only at h ⊢
      rcases whileLoop_cases h with ⟨hend, rfl⟩ | ⟨hmore, t, rfl, hdo⟩
      · rw [hend]
        rfl
      · rw [if_pos hmore]
        exact ih t (Nat.lt_succ_self t) hdo (by omega)

theorem doWhile_ends {r : Received Rx} (hmore : r.unfilled = true) {turns : Nat}
    (hturns : measure r ≤ turns) :
    ∃ result, doWhile Received.unfilled (Received.fill .ofRx) turns r = some result := by
  have hbody (r : Received Rx) (hm : r.unfilled = true) :
      Post (fun r' => True ∧ measure r' < measure r) (fun _ => True) (r.fill .ofRx) := by
    cases hfill : r.fill .ofRx with
    | error e => trivial
    | ok r' => exact ⟨trivial, (fill_ofRx hfill hm).2⟩
  have hfirst : Post (fun r' => True ∧ measure r' < turns) (fun _ => True) (r.fill .ofRx) := by
    cases hfill : r.fill .ofRx with
    | error e => trivial
    | ok r' =>
      have hlt := (fill_ofRx hfill hmore).2
      exact ⟨trivial, by omega⟩
  obtain ⟨result, hloop, -⟩ := doWhile_rule (fun r _ hm => hbody r hm) hfirst
  exact ⟨result, hloop⟩

theorem unfilled_empty (rx : Rx) {n : Nat} (hn : 0 < n) :
    (Received.mk rx (List.replicate n 0) 0).unfilled = true := by
  rw [Received.unfilled, Received.below, List.length_replicate]
  exact decide_eq_true (Int.natCast_pos.mpr hn)

/-- The do loop on an empty array is the model's `receiveAll`. -/
theorem receiveAll_eq {n : Nat} (hn : 0 < n) {turns : Nat}
    (hturns : 2 * rx.bytes.length + 1 ≤ turns) :
    (doWhile Received.unfilled (Received.fill .ofRx) turns ⟨rx, List.replicate n 0, 0⟩).map
        (Except.map Received.result) =
      some ((receiveAll rx n).map fun x => (.wrap x.1, x.2)) := by
  have hfresh : measure ⟨rx, List.replicate n 0, 0⟩ ≤ 2 * rx.bytes.length + 1 := Nat.le_refl _
  obtain ⟨result, hloop⟩ := doWhile_ends (unfilled_empty rx hn) hfresh
  have hall : receiveAll rx n = result.map fun r => (r.array, r.input) :=
    receiveLoop_eq hloop (Nat.lt_succ_self _)
  rw [doWhile_mono hloop hturns, hall]
  cases result with
  | error e => rfl
  | ok r => rfl

theorem receiveHeader_ofRx {turns : Nat} (hturns : 2 * rx.bytes.length + 1 ≤ turns) :
    receiveHeader .ofRx turns rx = some (Stubs.receiveHeader rx) := by
  rw [receiveHeader, ByteBuffer.allocate_nat]
  dsimp only
  rw [ByteBuffer.array_filled_nil, receiveAll_eq (by decide) hturns, Stubs.receiveHeader]
  cases receiveAll rx headerSize with
  | error e => rfl
  | ok x => rfl

/-- On arrays of that size both tests and both reads agree. -/
theorem payload_loop (length : Nat) (turns : Nat) {r : Received Rx} (h : r.array.length = length) :
    whileLoop (Received.below length) (Received.read .ofRx length) turns r =
      whileLoop Received.unfilled (Received.fill .ofRx) turns r := by
  apply whileLoop_congr (P := fun r : Received Rx => r.array.length = length) _ _ _ _ h
  · intro r hr hmore
    cases hfill : r.fill .ofRx with
    | error e => trivial
    | ok r' => exact (fill_ofRx hfill hmore).1.trans hr
  · intro r hr
    rw [Received.unfilled, hr]
  · intro r hr
    rw [Received.fill, hr]

theorem receivePayload_ofRx {turns : Nat} (hturns : 2 * rx.bytes.length + 1 < turns)
    (payloadSize : BitVec 32) :
    receivePayload .ofRx turns rx payloadSize = some (Stubs.receivePayload rx payloadSize) := by
  rw [receivePayload, Stubs.receivePayload]
  by_cases hneg : payloadSize.toInt < 0
  · rw [ByteBuffer.allocate, if_pos hneg]
    rfl
  · obtain ⟨n, hn⟩ := Int.eq_ofNat_of_zero_le (Int.not_lt.mp hneg)
    rw [hn, ByteBuffer.allocate_nat, ok_bind]
    dsimp only
    rw [ByteBuffer.array_filled_nil, payload_loop n turns List.length_replicate]
    by_cases hzero : n = 0
    · subst hzero
      rw [whileLoop_exit rfl]
      rfl
    · have hpos : 0 < n := Nat.pos_of_ne_zero hzero
      obtain ⟨turns, rfl⟩ : ∃ k, turns = k + 1 := ⟨turns - 1, by omega⟩
      rw [whileLoop_enter (unfilled_empty rx hpos), receiveAll_eq hpos (by omega),
        if_pos (by omega), Int.toNat_natCast]
      cases receiveAll rx n with
      | error e => rfl
      | ok x => rfl

end Connection

end Hamster.Client.Receiving
