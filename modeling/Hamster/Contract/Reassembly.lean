import Hamster.Client.Receiving

/-!
# A message out of pieces

Whatever the pieces in which a stream hands over its bytes, the receive loops put the next
ones into their arrays, in order, and ask for none beyond them.
-/
namespace Hamster.Contract.Reassembly

open Lib.Bytes Lib.Posix Lib.Java Lib.Loops Lib.Streams Client.Receiving
open Client.Stubs (headerSize)

section Loops
variable {σ : Type} {S : InputStream σ} {s : σ} {k : Nat}

/-- `got` has come since `s`, of the `k` bytes that the array holds. -/
structure Filling (S : InputStream σ) (s : σ) (k : Nat) (got : List Byte)
    (r : Received (σ × List (σ × Nat))) : Prop where
  count : r.receivedByte = got.length
  fits : got.length ≤ k
  array_eq : r.array = got ++ List.replicate (k - got.length) 0
  left_eq : S.left s = got ++ S.left r.input.1
  within : ∀ ask ∈ r.input.2, S.Within s k ask

namespace Filling
variable {got : List Byte} {r : Received (σ × List (σ × Nat))}

theorem start (S : InputStream σ) (s : σ) (k : Nat) :
    Filling S s k [] ⟨(s, []), List.replicate k 0, 0⟩ where
  count := rfl
  fits := Nat.zero_le k
  array_eq := rfl
  left_eq := rfl
  within := fun _ hask => nomatch hask

theorem length_array (h : Filling S s k got r) : r.array.length = k := by
  have hfits := h.fits
  rw [h.array_eq, List.length_append, List.length_replicate]
  omega

/-- A turn brings some of what is missing. -/
theorem turn (h : Filling S s k got r) (hk : k ≤ (S.left s).length) (hmore : got.length < k) :
    ∃ bs r', r.read S.recorded k = .ok r' ∧ bs ≠ [] ∧ Filling S s k (got ++ bs) r' := by
  have hlen := h.length_array
  have htotal : (S.left s).length = got.length + (S.left r.input.1).length := by
    rw [h.left_eq, List.length_append]
  have hleft : r.array.length - got.length ≤ (S.recorded.left r.input).length := by
    show r.array.length - got.length ≤ (S.left r.input.1).length
    omega
  obtain ⟨bs, s', hnext, hne, hfit, hbytes, hread⟩ :=
    InputStream.readInto_left (S := S.recorded) (by omega) hleft
  rw [hlen] at hnext hfit hread
  -- the request itself: after `got`, for what the array has room for
  have hask : s'.2 = r.input.2 ++ [(r.input.1, k - got.length)] := (congrArg (·.2.2) hnext).symm
  refine ⟨bs, ⟨s', fillAt r.array got.length bs, got.length + bs.length⟩, ?_, hne, ?_⟩
  · rw [Received.read, h.count, hread]
    rfl
  · constructor
    · rw [List.length_append, Nat.cast_add]
    · rw [List.length_append]
      exact hfit
    · show fillAt r.array got.length bs = _
      rw [h.array_eq, fillAt_append, List.length_append, Nat.sub_sub]
    · rw [h.left_eq, List.append_assoc]
      exact congrArg (got ++ ·) hbytes
    · intro ask hmem
      rw [hask, List.mem_append, List.mem_singleton] at hmem
      rcases hmem with hmem | rfl
      · exact h.within ask hmem
      · exact ⟨got, h.left_eq, by omega⟩

/-- When nothing is missing any more. -/
theorem finish (h : Filling S s k got r) (hend : r.below k = false) :
    r.array = (S.left s).take k ∧ S.left r.input.1 = (S.left s).drop k := by
  have hge : ¬ r.receivedByte < k := of_decide_eq_false hend
  rw [h.count] at hge
  have hlen : got.length = k := Nat.le_antisymm h.fits (by omega)
  constructor
  · rw [h.array_eq, h.left_eq, List.take_left' hlen, hlen, Nat.sub_self, List.replicate_zero,
      List.append_nil]
  · rw [h.left_eq, List.drop_left' hlen]

end Filling

/-- The bytes still missing. -/
def missing (k : Nat) (r : Received (σ × List (σ × Nat))) : Nat := k - r.receivedByte.toNat

/-- What a turn does for either loop. -/
theorem turn_post (hk : k ≤ (S.left s).length) {r : Received (σ × List (σ × Nat))}
    (h : ∃ got, Filling S s k got r) (hmore : r.below k = true) :
    Post (fun r' => (∃ got, Filling S s k got r') ∧ missing k r' < missing k r) (fun _ => False)
      (r.read S.recorded k) := by
  obtain ⟨got, hgot⟩ := h
  have hlt : r.receivedByte < k := of_decide_eq_true hmore
  have hcount := hgot.count
  obtain ⟨bs, r', hread, hne, hgot'⟩ := hgot.turn hk (by omega)
  have hpos := List.length_pos_of_ne_nil hne
  have hcount' := hgot'.count
  rw [List.length_append] at hcount'
  rw [hread]
  refine ⟨⟨got ++ bs, hgot'⟩, ?_⟩
  unfold missing
  omega

/-- The next `k` bytes, the stream right behind them, and no request for more. -/
def Reassembled (S : InputStream σ) (s : σ) (k : Nat)
    (result : Option (Except JavaException (ByteBuffer × σ × List (σ × Nat)))) : Prop :=
  ∃ s' asked, result = some (.ok (.wrap ((S.left s).take k), s', asked)) ∧
    S.left s' = (S.left s).drop k ∧ ∀ ask ∈ asked, S.Within s k ask

theorem reassembled_of_post {loop : Option (Except JavaException (Received (σ × List (σ × Nat))))}
    (h : ∃ result, loop = some result ∧
      Post (fun r => (∃ got, Filling S s k got r) ∧ r.below k = false) (fun _ => False) result) :
    Reassembled S s k (loop.map (Except.map Received.result)) := by
  obtain ⟨result, rfl, hpost⟩ := h
  obtain ⟨r, rfl, ⟨got, hgot⟩, hend⟩ := hpost.returned
  obtain ⟨harray, hleft⟩ := hgot.finish hend
  refine ⟨r.input.1, r.input.2, ?_, hleft, hgot.within⟩
  rw [← harray]
  rfl

/-- The header's test and read go by the length of the array, which stays what it was. -/
theorem unfilled_eq {r : Received (σ × List (σ × Nat))} (h : ∃ got, Filling S s k got r) :
    r.unfilled = r.below k := by
  obtain ⟨got, hgot⟩ := h
  rw [Received.unfilled, hgot.length_array]

theorem fill_eq {r : Received (σ × List (σ × Nat))} (h : ∃ got, Filling S s k got r) :
    r.fill S.recorded = r.read S.recorded k := by
  obtain ⟨got, hgot⟩ := h
  rw [Received.fill, hgot.length_array]

theorem receiveHeader_reassembled (hk : headerSize ≤ (S.left s).length) {turns : Nat}
    (hturns : headerSize ≤ turns) :
    Reassembled S s headerSize (receiveHeader S.recorded turns (s, [])) := by
  have hstart : ∃ got, Filling S s headerSize got ⟨(s, []), List.replicate headerSize 0, 0⟩ :=
    ⟨[], .start S s headerSize⟩
  rw [receiveHeader, ByteBuffer.allocate_nat]
  apply reassembled_of_post
  have hfirst := turn_post hk hstart rfl
  rw [← fill_eq hstart] at hfirst
  obtain ⟨result, hloop, hpost⟩ := doWhile_rule
    (fun r h hmore => by
      rw [fill_eq h]
      exact turn_post hk h ((unfilled_eq h).symm.trans hmore))
    (hfirst.imp fun r hr => ⟨hr.1, hr.2.trans_le hturns⟩)
  exact ⟨result, hloop, hpost.imp fun r hr => ⟨hr.1, (unfilled_eq hr.1).symm.trans hr.2⟩⟩

theorem receivePayload_reassembled {payloadSize : BitVec 32} (hn : payloadSize.toInt = k)
    (hk : k ≤ (S.left s).length) {turns : Nat} (hturns : k < turns) :
    Reassembled S s k (receivePayload S.recorded turns (s, []) payloadSize) := by
  rw [receivePayload, hn, ByteBuffer.allocate_nat]
  apply reassembled_of_post
  exact whileLoop_rule (fun _ h hmore => turn_post hk h hmore) ⟨[], .start S s k⟩ hturns

end Loops

/-- A header and the payload behind it, from any stream that still has both. On a connection the
loops are what the stubs call. -/
theorem receive_reassembles {σ : Type} (S : InputStream σ) (s : σ) {n : BitVec 32}
    (hn : 0 ≤ n.toInt) (hleft : headerSize + n.toInt.toNat ≤ (S.left s).length) {turns : Nat}
    (hheader : headerSize ≤ turns) (hpayload : n.toInt.toNat < turns) :
    (∃ s₁ s₂,
      (receiveHeader S turns s = some (.ok (.wrap ((S.left s).take headerSize), s₁)) ∧
        receivePayload S turns s₁ n =
          some (.ok (.wrap (((S.left s).drop headerSize).take n.toInt.toNat), s₂)) ∧
        S.left s₂ = (S.left s).drop (headerSize + n.toInt.toNat)) ∧
      ∃ header payload asked₁ asked₂,
        receiveHeader S.recorded turns (s, []) = some (.ok (header, s₁, asked₁)) ∧
        (∀ ask ∈ asked₁, S.Within s headerSize ask) ∧
        receivePayload S.recorded turns (s₁, []) n = some (.ok (payload, s₂, asked₂)) ∧
        ∀ ask ∈ asked₂, S.Within s (headerSize + n.toInt.toNat) ask) ∧
    ∀ (rx : Rx) (turns : Nat), 2 * rx.bytes.length + 1 < turns →
      receiveHeader .ofRx turns rx = some (Client.Stubs.receiveHeader rx) ∧
        ∀ payloadSize, receivePayload .ofRx turns rx payloadSize =
          some (Client.Stubs.receivePayload rx payloadSize) := by
  refine ⟨?_, fun rx turns hturns => ⟨receiveHeader_ofRx (Nat.le_of_lt hturns),
    receivePayload_ofRx hturns⟩⟩
  obtain ⟨s₁, asked₁, hrun₁, hleft₁, hasked₁⟩ :=
    receiveHeader_reassembled (S := S) (s := s) (by omega) hheader
  have hmore : n.toInt.toNat ≤ (S.left s₁).length := by
    rw [hleft₁, List.length_drop]
    omega
  obtain ⟨s₂, asked₂, hrun₂, hleft₂, hasked₂⟩ :=
    receivePayload_reassembled (Int.toNat_of_nonneg hn).symm hmore hpayload
  have hsplit : S.left s = (S.left s).take headerSize ++ S.left s₁ := by
    rw [hleft₁, List.take_append_drop]
  have hsize : ((S.left s).take headerSize).length = headerSize :=
    List.length_take_of_le (by omega)
  refine ⟨s₁, s₂, ⟨?_, ?_, ?_⟩, _, _, asked₁, asked₂, hrun₁, hasked₁, hrun₂, ?_⟩
  · rw [receiveHeader_recorded turns s [], hrun₁]
    rfl
  · rw [receivePayload_recorded turns s₁ [], hrun₂, hleft₁]
    rfl
  · rw [hleft₂, hleft₁, List.drop_drop]
  · intro ask hask
    have hwithin := (hasked₂ ask hask).after hsplit
    rwa [hsize] at hwithin

/-- A message of eleven bytes in five pieces, and a byte of the next one. -/
def pieces : Rx where
  segments := [[182], [1, 0, 2, 0, 9], [0], [3, 7], [8, 9, 5]]
  broken := false
  nonempty := by decide

theorem receive_pieces :
    ∃ s₁ s₂, receiveHeader .ofRx 9 pieces =
        some (.ok (.wrap [182, 1, 0, 2, 0, 9, 0, 3], s₁)) ∧
      receivePayload .ofRx 9 s₁ 3 = some (.ok (.wrap [7, 8, 9], s₂)) ∧ s₂.bytes = [5] := by
  have hturns : headerSize ≤ 9 ∧ (3 : BitVec 32).toInt.toNat < 9 := by decide
  obtain ⟨⟨s₁, s₂, ⟨hheader, hpayload, hleft⟩, -⟩, -⟩ :=
    receive_reassembles .ofRx pieces (by decide) (by decide) hturns.1 hturns.2
  exact ⟨s₁, s₂, hheader, hpayload, hleft⟩

end Hamster.Contract.Reassembly
