import Hamster.Client.Exchange
import Hamster.Contract.Replies

/-!
# What a stub throws

For every stream of bytes a stub returns a value or throws, and the exceptions it should
throw are `IOException` and its own. It keeps to that exactly as long as the stream
breaks with an error, or brings one whole message that is long enough for what the
stub takes from it, with one of the five codes if it is an error.
-/
namespace Hamster.Contract.Exceptions

open Lib.Bytes Lib.Memory Lib.Posix Lib.Java Server.Messages Server.Protocol Client.Stubs
  Client.Exchange
open Contract.Replies (isError)

/-- The stream begins with a message. -/
def Brings (rx : Rx) (h : Header) (payload : List Byte) : Prop :=
  ∃ rest, rx.bytes = headerBytes h ++ (payload ++ rest) ∧ (payload.length : Int) = h.paySize.toInt

/-- A value is what the stub unpacks from a message that is no error, a message that is one
ends in an exception of the client's own, and no other exception is thrown but
`IOException`. -/
def Graceful (rx : Rx) (call : StubCall) : Except Thrown (StubResult × Rx) → Prop
  | .ok (r, _) => ∃ h payload, Brings rx h payload ∧ isError h = false ∧
      call.unpack (.wrap payload) = .ok r
  | .error (.hamsterRPC _) => True
  | .error (.java e) => e = .io ∧ ¬ ∃ h payload, Brings rx h payload ∧ isError h = true

/-- The connection fails before the announced end of a message. -/
def BreaksOff (rx : Rx) : Prop :=
  rx.broken = true ∧ (rx.bytes.length < 8 ∨
    ∃ h rest, rx.bytes = headerBytes h ++ rest ∧ (rest.length : Int) < h.paySize.toInt)

/-- The stub has a use for the message: it is for another request, or an error with a code
the stub knows, or long enough for its result. -/
def Usable (c : Connection) (call : StubCall) (msgId : BitVec 32) (h : Header)
    (payload : List Byte) : Prop :=
  (c.testing = false ∧ (msgId ≠ h.msgID.signExtend 32 ∨ call.funcId ≠ h.rpcID)) ∨
    if isError h then
      4 ≤ payload.length ∧ (exceptionOf (errorCode payload)).isSome ∧
        (c.testNoPayloadAfterMessage = true → payload.length = 4)
    else resultSize call ≤ payload.length

theorem headerBytes_append_inj {h h' : Header} {as bs : List Byte}
    (he : headerBytes h ++ as = headerBytes h' ++ bs) : h = h' ∧ as = bs := by
  obtain ⟨hh, hr⟩ := List.append_inj he (by simp)
  refine ⟨?_, hr⟩
  have hm : decodeHeader (poke (fun _ => 0) 0 (headerBytes h)) = h :=
    decodeHeader_of_bytes (peek_poke_header _ h)
  rw [← hm, hh]
  exact decodeHeader_of_bytes (peek_poke_header _ h')

section Streams
variable {c : Connection} {call : StubCall} {msgId : BitVec 32} {rx : Rx} {h : Header}
  {payload rest : List Byte}

/-- One stream, one message. -/
theorem Brings.eq {h' : Header} {payload' : List Byte} (hb : Brings rx h payload)
    (hb' : Brings rx h' payload') : h = h' ∧ payload = payload' := by
  obtain ⟨r, heq, hlen⟩ := hb
  obtain ⟨r', heq', hlen'⟩ := hb'
  obtain ⟨rfl, hrest⟩ := headerBytes_append_inj (heq.symm.trans heq')
  have hl : payload.length = payload'.length := Int.ofNat.inj (hlen.trans hlen'.symm)
  exact ⟨rfl, (List.append_inj hrest hl).1⟩

theorem Brings.le_length (hb : Brings rx h payload) : 8 ≤ rx.bytes.length := by
  obtain ⟨r, heq, -⟩ := hb
  rw [heq, List.length_append, length_headerBytes]
  exact Nat.le_add_right ..

theorem Brings.not_breaksOff (hb : Brings rx h payload) : ¬ BreaksOff rx := by
  rintro ⟨-, hshort | ⟨h', rest, heq', hlt⟩⟩
  · exact Nat.not_lt.mpr hb.le_length hshort
  · obtain ⟨r, heq, hlen⟩ := hb
    obtain ⟨rfl, hrest⟩ := headerBytes_append_inj (heq.symm.trans heq')
    rw [← hrest, List.length_append] at hlt
    omega

/-- A stream that ends is only graceful if it ends with an error. -/
theorem graceful_ended (hn : ∀ h payload, ¬ Brings rx h payload) :
    Graceful rx call (.error (.java (ended rx))) ↔ rx.broken = true := by
  have hno : ¬ ∃ h payload, Brings rx h payload ∧ isError h = true :=
    fun ⟨h, payload, hb, _⟩ => hn h payload hb
  refine (and_iff_left hno).trans ?_
  unfold ended
  cases rx.broken with
  | true => exact iff_of_true rfl rfl
  | false => exact iff_of_false nofun nofun

theorem receive_of_error {e : JavaException} (hr : receiveMessage rx = .error e) :
    c.receive call msgId rx = .error (.java e) := by
  rw [Connection.receive, hr]
  rfl

theorem receive_of_brings (c : Connection) (call : StubCall) (msgId : BitVec 32)
    (hb : Brings rx h payload) : ∃ rx', c.receive call msgId rx =
      (c.answer call msgId (received h) (.wrap payload)).map fun r => (r, rx') := by
  obtain ⟨r, heq, hlen⟩ := hb
  obtain ⟨rx', -, hreceive⟩ := receive_message c call msgId heq hlen
  exact ⟨rx', hreceive⟩

/-- A value is graceful if and only if it was unpacked from the one message there is. -/
theorem graceful_value (hb : Brings rx h payload) (r : StubResult) (rx' : Rx) :
    Graceful rx call (.ok (r, rx')) ↔
      isError h = false ∧ call.unpack (.wrap payload) = .ok r := by
  constructor
  · rintro ⟨h', payload', hb', hvalue⟩
    obtain ⟨rfl, rfl⟩ := hb.eq hb'
    exact hvalue
  · exact fun hvalue => ⟨h, payload, hb, hvalue⟩

/-- An exception of another kind is never graceful. -/
theorem not_graceful {e : JavaException} (he : e ≠ .io) :
    ¬ Graceful rx call (.error (.java e)) :=
  fun hg => he hg.1

theorem checkResponse_wrongIds {b : ByteBuffer} (ht : c.testing = false)
    (hid : msgId ≠ h.msgID.signExtend 32 ∨ call.funcId ≠ h.rpcID) :
    ∃ e, c.checkResponse msgId call.funcId (received h) b = .error (.hamsterRPC e) := by
  unfold Connection.checkResponse
  by_cases hm : msgId = h.msgID.signExtend 32
  · rw [if_neg fun hx => hx.2 hm, if_pos ⟨ht, hid.resolve_left fun hne => hne hm⟩]
    exact ⟨_, rfl⟩
  · rw [if_pos ⟨ht, hm⟩]
    exact ⟨_, rfl⟩

theorem checkResponse_ids {b : ByteBuffer}
    (hid : ¬ (c.testing = false ∧ (msgId ≠ h.msgID.signExtend 32 ∨ call.funcId ≠ h.rpcID))) :
    c.checkResponse msgId call.funcId (received h) b =
      if isError h then c.decodeErrorMsg b else .ok b := by
  unfold Connection.checkResponse
  rw [if_neg fun hx => hid ⟨hx.1, .inl hx.2⟩, if_neg fun hx => hid ⟨hx.1, .inr hx.2⟩]
  rfl

/-- An error message ends in an exception of the client's own, or not gracefully. -/
theorem graceful_decodeErrorMsg (hb : Brings rx h payload) (he : isError h = true) (rx' : Rx) :
    Graceful rx call ((c.decodeErrorMsg (.wrap payload) >>= fun b => (liftM (call.unpack b) :
        Except Thrown StubResult)).map fun r => (r, rx')) ↔
      4 ≤ payload.length ∧ (exceptionOf (errorCode payload)).isSome ∧
        (c.testNoPayloadAfterMessage = true → payload.length = 4) := by
  by_cases h4 : 4 ≤ payload.length
  · obtain ⟨b', -, heq⟩ := decodeErrorMsg_eq (b := .wrap payload) c h4
    rw [heq, ByteBuffer.rest_wrap, and_iff_right h4]
    by_cases ht : c.testNoPayloadAfterMessage = true ∧ payload.length ≠ 4
    · rw [if_pos ht]
      exact iff_of_false (not_graceful nofun) fun hx => ht.2 (hx.2 ht.1)
    · rw [if_neg ht]
      cases hx : exceptionOf (errorCode payload) with
      | some x =>
        refine iff_of_true trivial ⟨rfl, fun hon => ?_⟩
        by_contra hne
        exact ht ⟨hon, hne⟩
      | none =>
        refine iff_of_false (fun hg => ?_) fun hs => nomatch hs.1
        rw [Option.elim_none, ok_bind] at hg
        rcases unpack_cases call b' with ⟨r, hr, -⟩ | ⟨hr, -⟩
        · rw [hr] at hg
          have hno : isError h = false := ((graceful_value hb r rx').mp hg).1
          rw [he] at hno
          cases hno
        · rw [hr] at hg
          exact not_graceful (by decide : JavaException.bufferUnderflow ≠ .io) hg
  · rw [decodeErrorMsg_short (b := .wrap payload) c (Nat.not_le.mp h4)]
    exact iff_of_false (not_graceful nofun) fun hx => h4 hx.1

theorem graceful_unpack (hb : Brings rx h payload) (he : isError h = false) (rx' : Rx) :
    Graceful rx call ((liftM (call.unpack (.wrap payload)) : Except Thrown StubResult).map
      fun r => (r, rx')) ↔ resultSize call ≤ payload.length := by
  rcases unpack_cases call (.wrap payload) with ⟨r, hr, hlen⟩ | ⟨hr, hlen⟩
  · rw [hr]
    exact iff_of_true ((graceful_value hb r rx').mpr ⟨he, hr⟩) hlen
  · rw [hr]
    exact iff_of_false (not_graceful nofun) (Nat.not_le.mpr hlen)

/-- What a stub makes of a whole message is graceful if and only if it has a use for it. -/
theorem graceful_answer (hb : Brings rx h payload) (rx' : Rx) :
    Graceful rx call ((c.answer call msgId (received h) (.wrap payload)).map fun r => (r, rx')) ↔
      Usable c call msgId h payload := by
  unfold Connection.answer Usable
  by_cases hid : c.testing = false ∧ (msgId ≠ h.msgID.signExtend 32 ∨ call.funcId ≠ h.rpcID)
  · obtain ⟨e, hx⟩ := checkResponse_wrongIds (b := .wrap payload) hid.1 hid.2
    rw [hx]
    exact iff_of_true trivial (.inl hid)
  · rw [checkResponse_ids hid, or_iff_right hid]
    cases he : isError h with
    | true => exact graceful_decodeErrorMsg hb he rx'
    | false => exact graceful_unpack hb he rx'

end Streams

theorem graceful_iff (c : Connection) (call : StubCall) (msgId : BitVec 32) (rx : Rx) :
    Graceful rx call (c.receive call msgId rx) ↔ BreaksOff rx ∨
      ∃ h payload, Brings rx h payload ∧ Usable c call msgId h payload := by
  by_cases hwhole : ∃ h payload, Brings rx h payload
  · obtain ⟨h, payload, hb⟩ := hwhole
    obtain ⟨rx', heq⟩ := receive_of_brings c call msgId hb
    rw [heq, graceful_answer hb, or_iff_right hb.not_breaksOff]
    constructor
    · exact fun hu => ⟨h, payload, hb, hu⟩
    · rintro ⟨h', payload', hb', hu⟩
      obtain ⟨rfl, rfl⟩ := hb.eq hb'
      exact hu
  · have hn : ∀ h payload, ¬ Brings rx h payload := fun h payload hb => hwhole ⟨h, payload, hb⟩
    rw [or_iff_left fun ⟨h, payload, hb, _⟩ => hn h payload hb]
    by_cases hshort : rx.bytes.length < 8
    · rw [receive_of_error (receiveMessage_short hshort), graceful_ended hn]
      exact ⟨fun hbr => ⟨hbr, .inl hshort⟩, And.left⟩
    · obtain ⟨h, hh⟩ := exists_headerBytes (List.length_take_of_le (Nat.not_lt.mp hshort))
      have hbytes : rx.bytes = headerBytes h ++ rx.bytes.drop 8 := by
        rw [← hh, List.take_append_drop]
      have hcut : BreaksOff rx ↔ rx.broken = true ∧
          ((rx.bytes.drop 8).length : Int) < h.paySize.toInt := by
        refine and_congr_right fun _ => ⟨?_, fun hlt => .inr ⟨h, _, hbytes, hlt⟩⟩
        rintro (hlt | ⟨h', rest, heq, hlt⟩)
        · exact absurd hlt hshort
        · obtain ⟨rfl, hrest⟩ := headerBytes_append_inj (hbytes.symm.trans heq)
          rwa [hrest]
      rw [hcut]
      by_cases hneg : h.paySize.toInt < 0
      · rw [receive_of_error (receiveMessage_negative hbytes hneg)]
        exact iff_of_false (not_graceful nofun) fun hx => by omega
      · have hless : ((rx.bytes.drop 8).length : Int) < h.paySize.toInt := by
          by_contra hge
          have hlen : h.paySize.toInt.toNat ≤ (rx.bytes.drop 8).length := by omega
          refine hn h ((rx.bytes.drop 8).take h.paySize.toInt.toNat)
            ⟨(rx.bytes.drop 8).drop h.paySize.toInt.toNat, ?_, ?_⟩
          · rw [List.take_append_drop]
            exact hbytes
          · rw [List.length_take_of_le hlen]
            omega
        rw [receive_of_error (receiveMessage_cut hbytes (by omega) (by omega)), graceful_ended hn,
          and_iff_left hless]

/-- The connection is closed within the header of the answer. -/
def closed : Rx := .ofBytes [182, 1, 0]

theorem closed_throws : (Connection.opened false).receive (.lookup (some [99]) (some [100])) 0 closed =
    .error (.java .indexOutOfBounds) ∧
    ¬ Graceful closed (.lookup (some [99]) (some [100]))
      ((Connection.opened false).receive (.lookup (some [99]) (some [100])) 0 closed) := by
  have hthrown : (Connection.opened false).receive (.lookup (some [99]) (some [100])) 0 closed =
      .error (.java .indexOutOfBounds) := receive_of_error (receiveMessage_short (by decide))
  refine ⟨hthrown, ?_⟩
  rw [hthrown]
  exact not_graceful nofun

end Hamster.Contract.Exceptions
