import Hamster.Server.Bounded
import Hamster.Store.Session

/-!
# Reads inside the buffers

The offsets a handler reads at depend on the call id, the size of the payload on the
client. A request is handled inside the buffers exactly if its payload reaches as
far as the handler reads and each of its names ends within its 32 bytes; an overlong
name does not, and is not refused before it has been scanned to its end elsewhere.
-/
namespace Hamster.Contract.Bounds

open Lib.Bytes Lib.Memory Store Store.Entry Store.Library Server.Messages Server.Handlers
  Server.Protocol Server.Bounded

/-- All reads of the request's payload and of the names decoded from it stay inside,
and an overlong name is answered with `HMSTR_ERR_NAMETOOLONG`. -/
def Inside (w : World) (q : Packet) : Prop :=
  ∃ result, execute w q.payload q.header.rpcID = some result ∧
    ((∃ off ∈ nameOffsets q.header.rpcID, (0 : Byte) ∉ field q.payload off 32) →
      result.map (·.1) = some hmstrErrNameTooLong)

/-- Inside the buffers the handlers do what they do unchecked, whatever lies behind. -/
theorem execute_refines {w : World} {q : Packet} {result : Option (BitVec 32 × World)}
    (hid : 1 ≤ q.header.rpcID.toNat ∧ q.header.rpcID.toNat ≤ 7)
    (h : execute w q.payload q.header.rpcID = some result) {m : Mem}
    (hm : peek m 0 q.payload.length = q.payload) (junk : Scratch) :
    ∃ c, requestedCall q.header.rpcID m junk = some c ∧
      (c.exec w).map (fun x => (x.1.ret, x.2)) = result := by
  obtain ⟨c, hc, hexec⟩ := requestedCall_exec m junk w hid
  have hfits : Fits q.header.rpcID q.payload := by
    by_contra hno
    rw [execute_of_not_fits w hid hno] at h
    cases h
  have hpeek : peek m 0 (documentedSize q.header.rpcID) =
      q.payload.take (documentedSize q.header.rpcID) := by
    rw [peek_of_content hm (by rw [Nat.zero_add]; exact hfits.1 hid), List.drop_zero]
  rw [hpeek, documentedCall_take _ hid] at hexec
  rw [execute_of_fits w hid hfits, Option.some.injEq] at h
  exact ⟨c, hc, by rw [hexec, h]⟩

theorem inside_iff (w : World) (q : Packet) : Inside w q ↔ Fits q.header.rpcID q.payload := by
  by_cases hid : 1 ≤ q.header.rpcID.toNat ∧ q.header.rpcID.toNat ≤ 7
  · constructor
    · rintro ⟨result, hresult, -⟩
      by_contra hno
      rw [execute_of_not_fits w hid hno] at hresult
      cases hresult
    · intro hfits
      refine ⟨_, execute_of_fits w hid hfits, ?_⟩
      rintro ⟨off, hoff, hz⟩
      exact absurd (hfits.2 off hoff) hz
  · have hnames : nameOffsets q.header.rpcID = [] := by
      unfold nameOffsets
      split
      all_goals first
        | rfl
        | exact absurd (by omega) hid
    have hnothing : execute w q.payload q.header.rpcID = some (some (0, w)) := by
      unfold execute
      split
      all_goals first
        | rfl
        | exact absurd (by omega) hid
    refine iff_of_true ⟨_, hnothing, ?_⟩ ⟨fun h => absurd h hid, ?_⟩
    · rw [hnames]
      rintro ⟨off, hoff, -⟩
      cases hoff
    · rw [hnames]
      exact fun off hoff => absurd hoff List.not_mem_nil

/-- Whatever the store. Inside the buffers the request is executed as it is unchecked. -/
theorem inside_iff_fits (w : World) (q : Packet) :
    (Inside w q ↔ Fits q.header.rpcID q.payload) ∧
      ∀ result, execute w q.payload q.header.rpcID = some result →
        1 ≤ q.header.rpcID.toNat ∧ q.header.rpcID.toNat ≤ 7 →
        ∀ m junk, peek m 0 q.payload.length = q.payload →
          ∃ c, requestedCall q.header.rpcID m junk = some c ∧
            (c.exec w).map (fun x => (x.1.ret, x.2)) = result :=
  ⟨inside_iff w q, fun _ h hid _ junk hm => execute_refines hid h hm junk⟩

/-- Someone collects for an owner whose name fills its 32 bytes. -/
def longCollect : Packet := ⟨⟨182, 0, 8, 32, 7⟩, List.replicate 32 65, rfl⟩

/-- The scan for the end of the name leaves the array. -/
theorem longCollect_outside : ¬ Inside Session.initial.world longCollect := by
  have hnone : execute Session.initial.world longCollect.payload longCollect.header.rpcID = none := by
    decide +kernel
  rintro ⟨result, hresult, -⟩
  rw [hnone] at hresult
  cases hresult

end Hamster.Contract.Bounds
