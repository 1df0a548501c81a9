import Hamster.Contract.Arguments
import Hamster.Contract.Exceptions
import Hamster.Contract.Pairing
import Hamster.Contract.Results

/-!
# A stub call from end to end

A request of the Java client, the library call the server makes for it, and what the
stub makes of the reply. Messages arrive whole at the server and in any pieces at the
client.
-/
namespace Hamster.Contract.RoundTrip

open Lib.Bytes Lib.Memory Lib.Posix Lib.Java Store.Entry Store.Library Server.Messages
  Server.Handlers Server.Protocol Server.Loop Client.Stubs Client.Exchange Contract.Replies
  Contract.Arguments
open Contract.Exceptions (Brings checkResponse_ids)
open Contract.Pairing (wrongMessageId answer_wrongMessage)
open Contract.Results (Accepts Clean Fits checkResponse_ok javaResult replyBytes_eq unpack_marshalled)

/-- What the buffers of the server hold, and how the reply is cut. -/
structure Surroundings where
  headerStream : Mem
  junk : Scratch
  cut : List Byte → Rx
  bytes_cut : ∀ bs, (cut bs).bytes = bs

namespace Surroundings

/-- Zeros, and replies in one piece. -/
def plain : Surroundings where
  headerStream := fun _ => 0
  junk := ⟨fun _ => 0, fun _ => 0, fun _ => 0, [], [], blankState, 0⟩
  cut := Rx.ofBytes
  bytes_cut := Rx.bytes_ofBytes

end Surroundings

/-- The buffers once the request is read. -/
def requested (w : World) (stale : Header) (v : Surroundings) (msg : List Byte) : Received :=
  arrived w (poke v.headerStream 0 (msg.take 8)) (poke v.junk.payloadStream 0 (msg.drop 8)) stale

/-- The outcome, and the world, the server's header and the connection afterwards. -/
def roundTrip (w : World) (stale : Header) (v : Surroundings) (c : Connection) (call : StubCall) :
    Option (Except Thrown StubResult × World × Header × Connection) :=
  match c.request call with
  | .error e => some (.error e, w, stale, c)
  | .ok (msgId, msg, c') =>
    ((requested w stale v msg).respond v.junk).map fun (sent, sendHeader, w') =>
      ((c'.receive call msgId (v.cut sent)).map Prod.fst, w', sendHeader, c')

def advanced (c : Connection) : Connection := { c with requestCounter := c.requestCounter + 1 }

/-- A reply to the next request is not taken for another's. -/
def AcceptsOwn (c : Connection) : Prop :=
  c.testing = true ∨ (c.requestCounter.setWidth 16).signExtend 32 = c.requestCounter

instance (c : Connection) : Decidable (AcceptsOwn c) := inferInstanceAs (Decidable (_ ∨ _))

section Call
variable {w w' : World} {stale : Header} {v : Surroundings} {c : Connection} {call : StubCall}
  {r : Reply}

theorem peek_header (m : Mem) (msgId : BitVec 32) (call : StubCall) :
    peek (poke m 0 ((requestBytes msgId call).take 8)) 0 8 = (requestBytes msgId call).take 8 := by
  have htake : (requestBytes msgId call).take 8 = headerBytes (requestHeader msgId call) :=
    List.take_left' (length_headerBytes _)
  rw [htake]
  exact peek_poke_header m _

/-- The header of the reply is prepared from the request's. -/
theorem decoded_header (m : Mem) (msgId : BitVec 32) (call : StubCall) :
    decodeHeader (poke m 0 ((requestBytes msgId call).take 8)) = requestHeader msgId call := by
  have htake : (requestBytes msgId call).take 8 = headerBytes (requestHeader msgId call) :=
    List.take_left' (length_headerBytes _)
  exact decodeHeader_of_bytes ((peek_header m msgId call).trans htake)

/-- What is sent for a result. -/
def answerBytes (w : World) (stale : Header) (v : Surroundings) (msgId : BitVec 32)
    (call : StubCall) (r : Reply) : List Byte :=
  (reaction (requested w stale v (requestBytes msgId call)) v.junk r).1

theorem roundTrip_eq (stale : Header) (v : Surroundings) (c : Connection) (hs : Sends call)
    (hc : Checked call) (hex : (wireCall call).exec w = some (r, w')) : ∃ stale',
      roundTrip w stale v c call = some
        (((advanced c).receive call c.requestCounter
          (v.cut (answerBytes w stale v c.requestCounter call r))).map Prod.fst,
          w', stale', advanced c) := by
  have hcall : (requested w stale v (requestBytes c.requestCounter call)).call v.junk =
      some (wireCall call) :=
    (decoded_request hc (peek_header _ _ _) (peek_poke _) v.junk).2
  have hrespond : (requested w stale v (requestBytes c.requestCounter call)).respond v.junk =
      some (answerBytes w stale v c.requestCounter call r,
        (reaction (requested w stale v (requestBytes c.requestCounter call)) v.junk r).2, w') := by
    rw [respond_eq, hcall]
    exact congrArg (Option.map _) hex
  refine ⟨(reaction (requested w stale v (requestBytes c.requestCounter call)) v.junk r).2, ?_⟩
  rw [roundTrip, request_of_sends c hs]
  dsimp only
  rw [hrespond]
  rfl

/-- The reply is one whole message with the ids of the request. -/
theorem answer_brings (w : World) (stale : Header) (v : Surroundings) (msgId : BitVec 32)
    (hf : 0 ≤ r.ret.toInt → Fits call r.out) : ∃ h payload,
      Brings (v.cut (answerBytes w stale v msgId call r)) h payload ∧
        h.msgID = msgId.setWidth 16 ∧ h.rpcID = call.funcId ∧
        if 0 ≤ r.ret.toInt then h.flag = 1 ∧ ∃ more, payload = marshalled r ++ more
        else h.flag = 2 ∧ payload = beBytes 4 r.ret.toNat := by
  have hheader := decoded_header v.headerStream msgId call
  by_cases hr : 0 ≤ r.ret.toInt
  · obtain ⟨h, more, hsent, hmsg, hrpc, hflag, hlen, hlt⟩ := replyBytes_eq w
      (poke v.junk.payloadStream 0 ((requestBytes msgId call).drop 8)) stale v.junk hr (hf hr)
      (congrArg Header.rpcID hheader)
    refine ⟨h, marshalled r ++ more, ⟨[], ?_, ?_⟩, ?_, hrpc, ?_⟩
    · rw [v.bytes_cut, List.append_nil]
      exact hsent
    · rw [hlen]
      exact (BitVec.toInt_eq_toNat_of_lt (by omega)).symm
    · exact hmsg.trans (congrArg Header.msgID hheader)
    · rw [if_pos hr]
      exact ⟨hflag, more, rfl⟩
  · have hsend : (requested w stale v (requestBytes msgId call)).sendHeader =
        ⟨protocolVersion, 1, msgId.setWidth 16, replyPaySize call.funcId stale.paySize,
          call.funcId⟩ := by
      simp only [requested, arrived, handleHeader, hheader]
      rfl
    refine ⟨⟨protocolVersion, 2, msgId.setWidth 16, 4, call.funcId⟩, beBytes 4 r.ret.toNat,
      ⟨[], ?_, ?_⟩, rfl, rfl, ?_⟩
    · rw [v.bytes_cut, List.append_nil, answerBytes, reaction, if_pos (Int.not_le.mp hr), hsend]
      rfl
    · rw [length_beBytes]
      rfl
    · rw [if_neg hr]
      exact ⟨rfl, rfl⟩

/-- The exception for an error, or the result. -/
def javaOutcome (r : Reply) : Except Thrown StubResult :=
  (exceptionOf r.ret).elim (.ok (javaResult r)) fun x => .error (.hamsterRPC x)

theorem exceptionOf_of_nonneg {ret : BitVec 32} (h : 0 ≤ ret.toInt) : exceptionOf ret = none := by
  have hcode : ∀ code : BitVec 32, code.toInt < 0 → ret ≠ code := by
    rintro code hneg rfl
    omega
  unfold exceptionOf
  rw [if_neg (hcode _ (by decide)), if_neg (hcode _ (by decide)), if_neg (hcode _ (by decide)),
    if_neg (hcode _ (by decide)), if_neg (hcode _ (by decide))]

theorem receive_fst {rx : Rx} {h : Header} {payload : List Byte} {msgId : BitVec 32}
    (c : Connection) (call : StubCall) (hb : Brings rx h payload) :
    (c.receive call msgId rx).map Prod.fst = c.answer call msgId (received h) (.wrap payload) := by
  obtain ⟨rest, heq, hlen⟩ := hb
  exact receive_message_fst c call msgId heq hlen

/-- A reply that is not taken for another's ends the call as the result demands. -/
theorem receive_own (hf : 0 ≤ r.ret.toInt → Fits call r.out ∧ Clean r.out)
    (hx : r.ret.toInt < 0 → (exceptionOf r.ret).isSome) (ha : AcceptsOwn c) :
    ((advanced c).receive call c.requestCounter
      (v.cut (answerBytes w stale v c.requestCounter call r))).map Prod.fst = javaOutcome r := by
  obtain ⟨h, payload, hb, hmsg, hid, hpay⟩ :=
    answer_brings w stale v c.requestCounter fun hr => (hf hr).1
  have hacc : Accepts (advanced c) call c.requestCounter h := by
    refine ha.imp_right fun he => ⟨?_, hid⟩
    rw [hmsg]
    exact he.symm
  rw [receive_fst _ _ hb]
  by_cases hr : 0 ≤ r.ret.toInt
  · rw [if_pos hr] at hpay
    obtain ⟨hflag, more, rfl⟩ := hpay
    have hplain : h.flag.getLsbD 1 = false := by rw [hflag]; decide
    rw [Connection.answer, checkResponse_ok hacc hplain, ok_bind,
      unpack_marshalled (hf hr).1 (hf hr).2 (ByteBuffer.rest_wrap _), javaOutcome,
      exceptionOf_of_nonneg hr]
    rfl
  · rw [if_neg hr] at hpay
    obtain ⟨hflag, rfl⟩ := hpay
    obtain ⟨x, hx⟩ := Option.isSome_iff_exists.mp (hx (Int.not_le.mp hr))
    have hids : ¬ ((advanced c).testing = false ∧
        (c.requestCounter ≠ h.msgID.signExtend 32 ∨ call.funcId ≠ h.rpcID)) := by
      rintro ⟨ht, hne⟩
      rcases hacc with hon | ⟨hm, hid⟩
      · rw [hon] at ht
        cases ht
      · exact hne.elim (fun hne => hne hm) fun hne => hne hid.symm
    have herror : Replies.isError h = true := by
      rw [Replies.isError, hflag]
      decide
    have hcode : errorCode (beBytes 4 r.ret.toNat) = r.ret := by
      rw [errorCode, List.take_of_length_le (length_beBytes 4 _).le]
      exact beNat_beBytes (by norm_num) r.ret
    have hlen : (ByteBuffer.wrap (beBytes 4 r.ret.toNat)).rest.length = 4 := by
      rw [ByteBuffer.rest_wrap, length_beBytes]
    obtain ⟨b', -, heq⟩ := decodeErrorMsg_eq (advanced c) hlen.ge
    rw [ByteBuffer.rest_wrap, hcode, hx, if_neg fun h => h.2 (length_beBytes 4 _)] at heq
    rw [Connection.answer, checkResponse_ids hids, if_pos herror, heq, javaOutcome, hx]
    rfl

/-- A reply taken for another's. -/
theorem receive_other (hf : 0 ≤ r.ret.toInt → Fits call r.out) (ha : ¬ AcceptsOwn c) :
    ((advanced c).receive call c.requestCounter
      (v.cut (answerBytes w stale v c.requestCounter call r))).map Prod.fst =
        .error wrongMessageId := by
  obtain ⟨h, payload, hb, hmsg, -⟩ := answer_brings w stale v c.requestCounter hf
  obtain ⟨ht, hne⟩ := not_or.mp ha
  rw [receive_fst _ _ hb]
  apply answer_wrongMessage (Bool.eq_false_iff.mpr ht)
  intro he
  have hback : c.requestCounter = h.msgID.signExtend 32 := he
  rw [hmsg] at hback
  exact hne hback.symm

end Call

end Hamster.Contract.RoundTrip
