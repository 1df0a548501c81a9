import Hamster.Client.Stubs
import Hamster.Server.Protocol

/-!
# What a stub sends and what it makes of the answer

The bytes of a request, and for every stream of bytes the message, the exception or the
result that a stub finds in it.
-/
namespace Hamster.Client.Exchange

open Lib.Bytes Lib.Posix Lib.Java Server.Messages Server.Protocol Stubs

theorem known_funcId (call : StubCall) : 1 ≤ call.funcId.toNat ∧ call.funcId.toNat ≤ 7 := by
  cases call <;> simp [StubCall.funcId]

/-- The arguments a stub sends instead of throwing. -/
def Sends : StubCall → Prop
  | .new ownerName hamsterName treats =>
    checkString hamsterName = .ok () ∧ checkString ownerName = .ok () ∧ treats.isSome
  | .directory _ ownerName hamsterName =>
    checkNonNull ownerName = .ok () ∧ checkNonNull hamsterName = .ok ()
  | .howsdoing id | .readentry id => id.isSome
  | .givetreats id treats => id.isSome ∧ treats.isSome
  | .lookup .. | .collect _ => True

/-- The payload of the request. -/
def arguments : StubCall → List Byte
  | .new ownerName hamsterName treats =>
    getStaticAscii ownerName ++ getStaticAscii hamsterName ++
      beBytes 2 ((treats.getD 0).setWidth 16).toNat
  | .lookup ownerName hamsterName => getStaticAscii ownerName ++ getStaticAscii hamsterName
  | .directory fdptr ownerName hamsterName =>
    beBytes 4 fdptr.toNat ++ getStaticAscii ownerName ++ getStaticAscii hamsterName
  | .howsdoing id | .readentry id => beBytes 4 (id.getD 0).toNat
  | .givetreats id treats =>
    beBytes 4 (id.getD 0).toNat ++ beBytes 2 ((treats.getD 0).setWidth 16).toNat
  | .collect ownerName => getStaticAscii ownerName

def requestHeader (msgId : BitVec 32) (call : StubCall) : Header where
  version := protocolVersion
  flag := protocolFlagRequest
  msgID := msgId.setWidth 16
  paySize := BitVec.ofNat 16 (arguments call).length
  rpcID := call.funcId

def requestBytes (msgId : BitVec 32) (call : StubCall) : List Byte :=
  headerBytes (requestHeader msgId call) ++ arguments call

section Requests
variable {c c' : Connection} {call : StubCall} {p : ByteBuffer} {msgId : BitVec 32}
  {msg : List Byte}

@[simp] theorem length_getStaticAscii (s : Option JString) : (getStaticAscii s).length = 32 := by
  cases s with
  | none => exact List.length_replicate
  | some s => exact length_copyOf _ 32

theorem putShort_filled {done : List Byte} {k : Nat} (x : BitVec 16) (h : 2 ≤ k) :
    (ByteBuffer.filled done k).putShort x = .ok (.filled (done ++ beBytes 2 x.toNat) (k - 2)) :=
  ByteBuffer.put_filled (length_beBytes ..) h

theorem putInt_filled {done : List Byte} {k : Nat} (x : BitVec 32) (h : 4 ≤ k) :
    (ByteBuffer.filled done k).putInt x = .ok (.filled (done ++ beBytes 4 x.toNat) (k - 4)) :=
  ByteBuffer.put_filled (length_beBytes ..) h

theorem putName_filled {done : List Byte} {k : Nat} (s : Option JString) (h : 32 ≤ k) :
    (ByteBuffer.filled done k).put (getStaticAscii s) =
      .ok (.filled (done ++ getStaticAscii s) (k - 32)) :=
  ByteBuffer.put_filled (length_getStaticAscii s) h

theorem payload_of_sends (h : Sends call) : call.payload = .ok (.filled (arguments call) 0) := by
  cases call with
  | new o n t =>
    obtain ⟨hn, ho, ht⟩ := h
    obtain ⟨t, rfl⟩ := Option.isSome_iff_exists.mp ht
    simp only [StubCall.payload, hn, ho, ok_bind, ByteBuffer.allocate_nat, liftM_ok, intValue,
      staticStringSize]
    rw [putName_filled o (by decide)]
    simp only [liftM_ok, ok_bind]
    rw [putName_filled n (by decide)]
    simp only [liftM_ok, ok_bind]
    rw [putShort_filled _ (by decide)]
    rfl
  | lookup o n =>
    simp only [StubCall.payload, ok_bind, ByteBuffer.allocate_nat, liftM_ok, staticStringSize]
    rw [putName_filled o (by decide)]
    simp only [liftM_ok, ok_bind]
    rw [putName_filled n (by decide)]
    rfl
  | directory p o n =>
    obtain ⟨ho, hn⟩ := h
    simp only [StubCall.payload, hn, ho, ok_bind, ByteBuffer.allocate_nat, liftM_ok,
      staticStringSize]
    rw [putInt_filled p (by decide)]
    simp only [liftM_ok, ok_bind]
    rw [putName_filled o (by decide)]
    simp only [liftM_ok, ok_bind]
    rw [putName_filled n (by decide)]
    rfl
  | howsdoing id | readentry id =>
    obtain ⟨id, rfl⟩ := Option.isSome_iff_exists.mp h
    simp only [StubCall.payload, ok_bind, ByteBuffer.allocate_nat, liftM_ok, intValue]
    rw [putInt_filled id (by decide)]
    rfl
  | givetreats id t =>
    obtain ⟨hid, ht⟩ := h
    obtain ⟨id, rfl⟩ := Option.isSome_iff_exists.mp hid
    obtain ⟨t, rfl⟩ := Option.isSome_iff_exists.mp ht
    simp only [StubCall.payload, ok_bind, ByteBuffer.allocate_nat, liftM_ok, intValue]
    rw [putInt_filled id (by decide)]
    simp only [liftM_ok, ok_bind]
    rw [putShort_filled _ (by decide)]
    rfl
  | collect o =>
    simp only [StubCall.payload, ok_bind, ByteBuffer.allocate_nat, liftM_ok, staticStringSize]
    rw [putName_filled o (by decide)]
    rfl

theorem isSome_of_intValue {i : Option (BitVec 32)} {x : BitVec 32} (h : intValue i = .ok x) :
    i.isSome := by
  cases i with
  | none => cases h
  | some i => rfl

theorem sends_of_payload (h : call.payload = .ok p) : Sends call := by
  cases call with
  | new o n t =>
    obtain ⟨_, hn, h⟩ := bind_eq_ok h
    obtain ⟨_, ho, h⟩ := bind_eq_ok h
    obtain ⟨_, -, h⟩ := bind_eq_ok h
    obtain ⟨_, -, h⟩ := bind_eq_ok h
    obtain ⟨_, -, h⟩ := bind_eq_ok h
    obtain ⟨_, ht, -⟩ := bind_eq_ok h
    exact ⟨hn, ho, isSome_of_intValue ht⟩
  | directory p o n =>
    obtain ⟨_, ho, h⟩ := bind_eq_ok h
    obtain ⟨_, hn, -⟩ := bind_eq_ok h
    exact ⟨ho, hn⟩
  | howsdoing id | readentry id =>
    obtain ⟨_, -, h⟩ := bind_eq_ok h
    obtain ⟨_, hid, -⟩ := bind_eq_ok h
    exact isSome_of_intValue hid
  | givetreats id t =>
    obtain ⟨_, -, h⟩ := bind_eq_ok h
    obtain ⟨_, hid, h⟩ := bind_eq_ok h
    obtain ⟨_, -, h⟩ := bind_eq_ok h
    obtain ⟨_, ht, -⟩ := bind_eq_ok h
    exact ⟨isSome_of_intValue hid, isSome_of_intValue ht⟩
  | lookup o n | collect o => trivial

theorem encodeMsg_eq (msgId : BitVec 32) (args : List Byte) (id : BitVec 16) :
    encodeMsg (.filled [] (args.length + headerSize)) protocolFlagRequest msgId (.filled args 0) id =
      .ok (.filled (headerBytes ⟨protocolVersion, protocolFlagRequest, msgId.setWidth 16,
        BitVec.ofNat 16 args.length, id⟩ ++ args) 0) := by
  have hoctet (done : List Byte) (b : Byte) {k : Nat} (hk : 1 ≤ k) :
      (ByteBuffer.filled done k).put [b] = .ok (.filled (done ++ [b]) (k - 1)) :=
    ByteBuffer.put_filled rfl hk
  unfold encodeMsg headerSize
  rw [hoctet _ _ (by omega), ok_bind, hoctet _ _ (by omega), ok_bind,
    putShort_filled _ (by omega), ok_bind, putShort_filled _ (by omega), ok_bind,
    putShort_filled _ (by omega), ok_bind, ByteBuffer.put_filled rfl (by
      rw [ByteBuffer.array_filled]
      omega)]
  simp only [ByteBuffer.array_filled, headerBytes, List.nil_append]
  congr 2
  omega

/-- Nothing goes wrong in a stub that gets past its checks. -/
theorem request_of_sends (c : Connection) (h : Sends call) :
    c.request call = .ok (c.requestCounter, requestBytes c.requestCounter call,
      { c with requestCounter := c.requestCounter + 1 }) := by
  simp only [Connection.request, payload_of_sends h, ok_bind, ByteBuffer.array_filled,
    ByteBuffer.allocate_nat, liftM_ok, encodeMsg_eq]
  rfl

theorem request_eq_ok (h : c.request call = .ok (msgId, msg, c')) :
    Sends call ∧ msgId = c.requestCounter ∧ msg = requestBytes c.requestCounter call ∧
      c' = { c with requestCounter := c.requestCounter + 1 } := by
  obtain ⟨p, hp, -⟩ := bind_eq_ok h
  have hs : Sends call := sends_of_payload hp
  rw [request_of_sends c hs] at h
  cases h
  exact ⟨hs, rfl, rfl, rfl⟩

end Requests

/-- The header as a stub takes it: two of its shorts become ints and keep their sign. -/
def received (h : Header) : RPCMessageHeader where
  payloadSize := h.paySize.signExtend 32
  msgID := h.msgID.signExtend 32
  isResponse := h.flag.getLsbD 0
  isError := h.flag.getLsbD 1
  version := h.version
  rpcCallId := h.rpcID

/-- What a read past the bytes that come throws. -/
def ended (rx : Rx) : JavaException := if rx.broken then .io else .indexOutOfBounds

section Messages
variable {rx : Rx} {h : Header} {rest : List Byte}

theorem hasFlag_response : ∀ b : Byte, hasFlag b protocolFlagResponse = b.getLsbD 0 := by
  decide +kernel

theorem hasFlag_error : ∀ b : Byte, hasFlag b protocolFlagError = b.getLsbD 1 := by
  decide +kernel

/-- Every eight bytes are a header. -/
theorem exists_headerBytes {bs : List Byte} (hl : bs.length = 8) : ∃ h, bs = headerBytes h := by
  match bs, hl with
  | [a, b, c, d, e, f, g, i], _ =>
    have hword (x y : Byte) : beBytes 2 (BitVec.ofNat 16 (beNat [x, y])).toNat = [x, y] :=
      beBytes_beNat (by norm_num) rfl
    refine ⟨⟨a, b, .ofNat 16 (beNat [c, d]), .ofNat 16 (beNat [e, f]), .ofNat 16 (beNat [g, i])⟩, ?_⟩
    simp only [headerBytes, hword]
    rfl

theorem ofBuffer_headerBytes (h : Header) :
    RPCMessageHeader.ofBuffer (.wrap (headerBytes h)) = .ok (received h) := by
  have hstart : (ByteBuffer.wrap (headerBytes h)).rest = [h.version] ++ ([h.flag] ++
      (beBytes 2 h.msgID.toNat ++ (beBytes 2 h.paySize.toNat ++ (beBytes 2 h.rpcID.toNat ++ [])))) := by
    rw [ByteBuffer.rest_wrap, headerBytes, List.append_nil]
    simp only [List.append_assoc]
  obtain ⟨b₁, hversion, h₁⟩ := ByteBuffer.getByte_cons hstart
  obtain ⟨b₂, hflag, h₂⟩ := ByteBuffer.getByte_cons h₁
  obtain ⟨b₃, hmsg, h₃⟩ := ByteBuffer.getShort_append h₂
  obtain ⟨b₄, hpay, h₄⟩ := ByteBuffer.getShort_append h₃
  obtain ⟨b₅, hrpc, -⟩ := ByteBuffer.getShort_append h₄
  simp only [RPCMessageHeader.ofBuffer, hversion, hflag, hmsg, hpay, hrpc, ok_bind,
    hasFlag_response, hasFlag_error]
  rfl

theorem receiveMessage_short (hl : rx.bytes.length < 8) : receiveMessage rx = .error (ended rx) := by
  have hall := receiveAll_spec rx (n := headerSize) (by decide)
  rw [if_neg (Nat.not_le.mpr hl : ¬ headerSize ≤ _)] at hall
  rw [receiveMessage, receiveHeader, hall]
  rfl

/-- The header is there. -/
theorem receiveMessage_header (hb : rx.bytes = headerBytes h ++ rest) :
    ∃ rx', rx'.bytes = rest ∧ rx'.broken = rx.broken ∧ receiveMessage rx = do
      let (rpayload, rx) ← receivePayload rx' (h.paySize.signExtend 32)
      return (received h, rpayload, rx) := by
  have hsize : (headerBytes h).length = headerSize := length_headerBytes h
  have hall := receiveAll_spec rx (n := headerSize) (by decide)
  rw [hb, if_pos (by rw [List.length_append]; omega), List.take_left' hsize,
    List.drop_left' hsize] at hall
  obtain ⟨rx', hread, hrest, hbroken⟩ := hall
  refine ⟨rx', hrest, hbroken, ?_⟩
  rw [receiveMessage, receiveHeader, hread]
  simp only [ok_bind, pure, Except.pure, ofBuffer_headerBytes]
  rfl

theorem toInt_signExtend (x : BitVec 16) : (x.signExtend 32).toInt = x.toInt :=
  BitVec.toInt_signExtend_of_le (by decide)

theorem receiveMessage_negative (hb : rx.bytes = headerBytes h ++ rest) (hn : h.paySize.toInt < 0) :
    receiveMessage rx = .error .illegalArgument := by
  obtain ⟨rx', -, -, heq⟩ := receiveMessage_header hb
  rw [heq, receivePayload, toInt_signExtend, ByteBuffer.allocate, if_pos hn]
  rfl

theorem receiveMessage_cut (hb : rx.bytes = headerBytes h ++ rest) (hn : 0 ≤ h.paySize.toInt)
    (hl : rest.length < h.paySize.toInt.toNat) : receiveMessage rx = .error (ended rx) := by
  obtain ⟨rx', hrest, hbroken, heq⟩ := receiveMessage_header hb
  have hall := receiveAll_spec rx' (n := h.paySize.toInt.toNat) (by omega)
  rw [hrest, if_neg (by omega)] at hall
  rw [heq, receivePayload, toInt_signExtend, ByteBuffer.allocate, if_neg (by omega), ok_bind,
    if_pos (by omega), hall, hbroken]
  rfl

theorem receiveMessage_ok (hb : rx.bytes = headerBytes h ++ rest) (hn : 0 ≤ h.paySize.toInt)
    (hl : h.paySize.toInt.toNat ≤ rest.length) : ∃ rx', receiveMessage rx =
      .ok (received h, .wrap (rest.take h.paySize.toInt.toNat), rx') ∧
      rx'.bytes = rest.drop h.paySize.toInt.toNat := by
  obtain ⟨rx', hrest, hbroken, heq⟩ := receiveMessage_header hb
  rw [heq, receivePayload, toInt_signExtend, ByteBuffer.allocate, if_neg (by omega), ok_bind]
  by_cases hz : 0 < h.paySize.toInt
  · have hall := receiveAll_spec rx' (n := h.paySize.toInt.toNat) (by omega)
    rw [hrest, if_pos hl] at hall
    obtain ⟨rx'', hread, hrest', -⟩ := hall
    refine ⟨rx'', ?_, hrest'⟩
    rw [if_pos hz, hread]
    rfl
  · have hzero : h.paySize.toInt = 0 := by omega
    refine ⟨rx', ?_, ?_⟩
    · rw [if_neg hz, hzero]
      rfl
    · rw [hrest, hzero]
      rfl

/-- A whole message is what the answer is made of; what is behind it stays. -/
theorem receive_message (c : Connection) (call : StubCall) (msgId : BitVec 32)
    {payload : List Byte} (hb : rx.bytes = headerBytes h ++ (payload ++ rest))
    (hlen : (payload.length : Int) = h.paySize.toInt) : ∃ rx', rx'.bytes = rest ∧
      c.receive call msgId rx =
        (c.answer call msgId (received h) (.wrap payload)).map fun result => (result, rx') := by
  have hsize : h.paySize.toInt.toNat = payload.length := by rw [← hlen, Int.toNat_natCast]
  obtain ⟨rx', hread, hrest⟩ := receiveMessage_ok hb (by omega)
    (by rw [hsize, List.length_append]; exact Nat.le_add_right ..)
  rw [hsize, List.take_left' rfl] at hread
  rw [hsize, List.drop_left' rfl] at hrest
  refine ⟨rx', hrest, ?_⟩
  rw [Connection.receive, hread]
  simp only [liftM_ok, ok_bind]
  cases c.answer call msgId (received h) (.wrap payload) with
  | error e => rfl
  | ok r => rfl

theorem receive_message_fst (c : Connection) (call : StubCall) (msgId : BitVec 32)
    {payload : List Byte} (hb : rx.bytes = headerBytes h ++ (payload ++ rest))
    (hlen : (payload.length : Int) = h.paySize.toInt) :
    (c.receive call msgId rx).map Prod.fst =
      c.answer call msgId (received h) (.wrap payload) := by
  obtain ⟨rx', -, heq⟩ := receive_message c call msgId hb hlen
  rw [heq]
  cases c.answer call msgId (received h) (.wrap payload) with
  | error e => rfl
  | ok result => rfl

end Messages

/-- The exception that stands for an error code. -/
def exceptionOf (errorcode : BitVec 32) : Option HamsterRPCException :=
  if errorcode = Connection.hmstrErrNameTooLong then some .nameTooLong
  else if errorcode = Connection.hmstrErrExists then some .extists
  else if errorcode = Connection.hmstrErrNotFound then some .notFound
  else if errorcode = Connection.hmstrErrStore then some .storageError
  else if errorcode = Connection.hmstrErrCorrupt then some .storageError
  else none

/-- The code at the front of an error message. -/
def errorCode (payload : List Byte) : BitVec 32 := BitVec.ofNat 32 (beNat (payload.take 4))

/-- How many bytes a stub takes its result from. -/
def resultSize : StubCall → Nat
  | .directory .. => 8
  | .howsdoing _ => 12
  | .readentry _ => 70
  | _ => 4

section Answers
variable {c : Connection} {call : StubCall} {b : ByteBuffer} {e : Thrown}

theorem decodeErrorMsg_short (c : Connection) (h : b.rest.length < 4) :
    c.decodeErrorMsg b = .error (.java .bufferUnderflow) := by
  rw [Connection.decodeErrorMsg, ByteBuffer.getInt_error h]
  rfl

theorem decodeErrorMsg_eq (c : Connection) (h : 4 ≤ b.rest.length) :
    ∃ b', b'.rest = b.rest.drop 4 ∧ c.decodeErrorMsg b =
      if c.testNoPayloadAfterMessage = true ∧ b.rest.length ≠ 4 then .error (.java .assertion)
      else (exceptionOf (errorCode b.rest)).elim (.ok b') fun x => .error (.hamsterRPC x) := by
  obtain ⟨b', hget, hrest⟩ := ByteBuffer.getInt_ok h
  refine ⟨b', hrest, ?_⟩
  have hleft : b'.remaining ≠ 0 ↔ b.rest.length ≠ 4 := by
    have hlen : b'.remaining = b.rest.length - 4 := by
      rw [← ByteBuffer.length_rest, hrest, List.length_drop]
    omega
  rw [Connection.decodeErrorMsg, hget]
  simp only [liftM_ok, ok_bind, hleft]
  apply if_congr Iff.rfl rfl
  unfold exceptionOf errorCode
  repeat' split
  all_goals rfl

/-- A result is taken from enough bytes, and otherwise the buffer underflows. -/
theorem unpack_cases (call : StubCall) (b : ByteBuffer) :
    (∃ r, call.unpack b = .ok r ∧ resultSize call ≤ b.rest.length) ∨
      (call.unpack b = .error .bufferUnderflow ∧ b.rest.length < resultSize call) := by
  rcases ByteBuffer.getInt_cases b with ⟨ret, b₁, hret, hlen⟩ | ⟨hret, hlen⟩
  · cases call with
    | new | lookup | givetreats | collect =>
      exact .inl ⟨_, by simp only [StubCall.unpack, hret, ok_bind]; rfl,
        by simp only [resultSize]; omega⟩
    | directory =>
      rcases ByteBuffer.getInt_cases b₁ with ⟨p, b₂, hp, hlen₁⟩ | ⟨hp, hlen₁⟩
      · exact .inl ⟨_, by simp only [StubCall.unpack, hret, hp, ok_bind]; rfl,
          by simp only [resultSize]; omega⟩
      · exact .inr ⟨by simp only [StubCall.unpack, hret, hp, ok_bind, error_bind],
          by simp only [resultSize]; omega⟩
    | howsdoing =>
      rcases ByteBuffer.getShort_cases b₁ with ⟨treats, b₂, htreats, hlen₁⟩ | ⟨htreats, hlen₁⟩
      · rcases ByteBuffer.getInt_cases b₂ with ⟨rounds, b₃, hrounds, hlen₂⟩ | ⟨hrounds, hlen₂⟩
        · rcases ByteBuffer.getShort_cases b₃ with ⟨cost, b₄, hcost, hlen₃⟩ | ⟨hcost, hlen₃⟩
          · exact .inl ⟨_, by simp only [StubCall.unpack, hret, htreats, hrounds, hcost, ok_bind]; rfl,
              by simp only [resultSize]; omega⟩
          · exact .inr ⟨by
              simp only [StubCall.unpack, hret, htreats, hrounds, hcost, ok_bind, error_bind],
              by simp only [resultSize]; omega⟩
        · exact .inr ⟨by simp only [StubCall.unpack, hret, htreats, hrounds, ok_bind, error_bind],
            by simp only [resultSize]; omega⟩
      · exact .inr ⟨by simp only [StubCall.unpack, hret, htreats, ok_bind, error_bind],
          by simp only [resultSize]; omega⟩
    | readentry =>
      have hsize : staticStringSize = 32 := rfl
      rcases ByteBuffer.get_cases b₁ staticStringSize with ⟨owner, b₂, ho, hlen₁⟩ | ⟨ho, hlen₁⟩
      · rcases ByteBuffer.get_cases b₂ staticStringSize with ⟨name, b₃, hn, hlen₂⟩ | ⟨hn, hlen₂⟩
        · rcases ByteBuffer.getShort_cases b₃ with ⟨price, b₄, hp, hlen₃⟩ | ⟨hp, hlen₃⟩
          · exact .inl ⟨_, by simp only [StubCall.unpack, hret, ho, hn, hp, ok_bind]; rfl,
              by simp only [resultSize]; omega⟩
          · exact .inr ⟨by simp only [StubCall.unpack, hret, ho, hn, hp, ok_bind, error_bind],
              by simp only [resultSize]; omega⟩
        · exact .inr ⟨by simp only [StubCall.unpack, hret, ho, hn, ok_bind, error_bind],
            by simp only [resultSize]; omega⟩
      · exact .inr ⟨by simp only [StubCall.unpack, hret, ho, ok_bind, error_bind],
          by simp only [resultSize]; omega⟩
  · refine .inr ⟨by cases call <;> simp only [StubCall.unpack, hret, error_bind], ?_⟩
    have hleast : 4 ≤ resultSize call := by cases call <;> simp [resultSize]
    omega

end Answers

end Hamster.Client.Exchange
