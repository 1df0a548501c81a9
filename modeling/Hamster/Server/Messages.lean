import Hamster.Server.Wire
import Hamster.Store.Entry

/-!
# Message headers and replies

headerHandler.c, which takes a request's header apart and prepares the reply's,
and replyWriter.c, which fills the reply buffer. A message is eight bytes of
header and then its payload.
-/
namespace Hamster.Server.Messages

open Lib.Bytes Lib.Memory Wire Store.Entry

/-- `header` of structs.h -/
structure Header where
  version : Byte
  flag : Byte
  msgID : BitVec 16
  paySize : BitVec 16
  rpcID : BitVec 16
  deriving DecidableEq

/-! ## headerHandler.c -/

def decodeHeader (headerStream : Mem) : Header where
  version := rpcDecodeOctet headerStream 0
  flag := rpcDecodeOctet headerStream 1
  msgID := rpcDecodeUint16 headerStream 2
  paySize := rpcDecodeUint16 headerStream 4
  rpcID := rpcDecodeUint16 headerStream 6

/-- The payload size of a reply. For an unknown call it stays what it was. -/
def replyPaySize (rpcID stale : BitVec 16) : BitVec 16 :=
  match rpcID.toNat with
  | 1 => 4
  | 2 => 4
  | 3 => 8
  | 4 => 16
  | 5 => 70
  | 6 => 4
  | 7 => 4
  | _ => stale

/-- `handleHeader`: the two headers after the call. -/
def handleHeader (headerStream : Mem) (sendHeader : Header) : Header × Header :=
  let receiveHeader := decodeHeader headerStream
  (receiveHeader,
    { flag := 1
      msgID := receiveHeader.msgID
      rpcID := receiveHeader.rpcID
      version := receiveHeader.version
      paySize := replyPaySize receiveHeader.rpcID sendHeader.paySize })

/-! ## replyWriter.c -/

section Writer
variable (sendBuffer : Mem) (retValue : BitVec 32)

def encodeHeader (sendHeader : Header) : Mem :=
  let sendBuffer := rpcEncodeOctet sendBuffer 0 sendHeader.version
  let sendBuffer := rpcEncodeOctet sendBuffer 1 sendHeader.flag
  let sendBuffer := rpcEncodeUint16 sendBuffer 2 sendHeader.msgID
  let sendBuffer := rpcEncodeUint16 sendBuffer 4 sendHeader.paySize
  rpcEncodeUint16 sendBuffer 6 sendHeader.rpcID

/-- What five of the encoders do and the other three begin with. -/
def encodeReturn : Mem := rpcEncodeInt32 sendBuffer 8 retValue

def encodeReplyNew : Mem := encodeReturn sendBuffer retValue
def encodeReplyLookUp : Mem := encodeReturn sendBuffer retValue
def encodeReplyGiveTreats : Mem := encodeReturn sendBuffer retValue
def encodeReplyCollect : Mem := encodeReturn sendBuffer retValue
def encodeFailure : Mem := encodeReturn sendBuffer retValue

def encodeReplyHowsDoing (state : HmstrState) : Mem :=
  let sendBuffer := encodeReturn sendBuffer retValue
  let sendBuffer := rpcEncodeUint16 sendBuffer 12 state.treatsLeft
  let sendBuffer := rpcEncodeUint32 sendBuffer 14 state.rounds
  rpcEncodeInt16 sendBuffer 18 state.cost

def encodeReplyDirectory (fd : BitVec 32) : Mem :=
  let sendBuffer := encodeReturn sendBuffer retValue
  rpcEncodeInt32 sendBuffer 12 fd

def encodeReplyReadEntry (owner hamster : List Byte) (price : BitVec 16) : Mem :=
  let sendBuffer := encodeReturn sendBuffer retValue
  let sendBuffer := rpcEncodeSstring sendBuffer 12 owner 32
  let sendBuffer := rpcEncodeSstring sendBuffer 44 hamster 32
  rpcEncodeInt16 sendBuffer 76 price

end Writer

/-- The error message and the header it went out under. -/
def constructErrorMsg (errorBuffer : Mem) (sendHeader : Header) (retValue : BitVec 32) :
    Mem × Header :=
  let sendHeader := { sendHeader with flag := 2, paySize := 4 }
  (encodeFailure (encodeHeader errorBuffer sendHeader) retValue, sendHeader)

/-! ## The bytes written -/

/-- A header as the protocol lays it out. -/
def headerBytes (h : Header) : List Byte :=
  [h.version] ++ [h.flag] ++ beBytes 2 h.msgID.toNat ++ beBytes 2 h.paySize.toNat ++
    beBytes 2 h.rpcID.toNat

@[simp] theorem length_headerBytes (h : Header) : (headerBytes h).length = 8 := by
  simp [headerBytes]

theorem peek_poke_header (m : Mem) (h : Header) :
    peek (poke m 0 (headerBytes h)) 0 8 = headerBytes h := by
  have hm : peek (poke m 0 (headerBytes h)) 0 (headerBytes h).length = headerBytes h := peek_poke m
  rwa [length_headerBytes] at hm

section Written
variable (buffer : Mem) (h : Header) (retValue : BitVec 32)

theorem encodeHeader_eq : encodeHeader buffer h = poke buffer 0 (headerBytes h) := by
  simp only [encodeHeader, rpcEncodeOctet, rpcEncodeUint16_eq]
  rw [poke_poke _ (by simp), poke_poke _ (by simp), poke_poke _ (by simp), poke_poke _ (by simp)]
  rfl

/-- A reply is written from the front to the back, so each encoder appends. -/
theorem encodeReturn_eq : encodeReturn (encodeHeader buffer h) retValue =
    poke buffer 0 (headerBytes h ++ beBytes 4 retValue.toNat) := by
  rw [encodeReturn, rpcEncodeInt32_eq, encodeHeader_eq, poke_poke _ (by simp)]

theorem encodeReplyDirectory_eq (fd : BitVec 32) :
    encodeReplyDirectory (encodeHeader buffer h) retValue fd =
      poke buffer 0 (headerBytes h ++ (beBytes 4 retValue.toNat ++ beBytes 4 fd.toNat)) := by
  simp only [encodeReplyDirectory, encodeReturn_eq, rpcEncodeInt32_eq]
  rw [poke_poke _ (by simp), List.append_assoc]

theorem encodeReplyHowsDoing_eq (state : HmstrState) :
    encodeReplyHowsDoing (encodeHeader buffer h) retValue state =
      poke buffer 0 (headerBytes h ++ (beBytes 4 retValue.toNat ++
        (beBytes 2 state.treatsLeft.toNat ++ beBytes 4 state.rounds.toNat ++
          beBytes 2 state.cost.toNat))) := by
  simp only [encodeReplyHowsDoing, encodeReturn_eq, rpcEncodeUint16_eq, rpcEncodeUint32_eq,
    rpcEncodeInt16_eq]
  rw [poke_poke _ (by simp), poke_poke _ (by simp), poke_poke _ (by simp)]
  simp only [List.append_assoc]

theorem encodeReplyReadEntry_eq {owner hamster : List Byte} (ho : 32 ≤ owner.length)
    (hn : 32 ≤ hamster.length) (price : BitVec 16) :
    encodeReplyReadEntry (encodeHeader buffer h) retValue owner hamster price =
      poke buffer 0 (headerBytes h ++ (beBytes 4 retValue.toNat ++
        (owner.take 32 ++ hamster.take 32 ++ beBytes 2 price.toNat))) := by
  have ho' : (owner.take 32).length = 32 := List.length_take_of_le ho
  have hn' : (hamster.take 32).length = 32 := List.length_take_of_le hn
  simp only [encodeReplyReadEntry, encodeReturn_eq, rpcEncodeSstring, rpcEncodeInt16_eq]
  rw [poke_poke _ (by rw [hn']), poke_poke _ (by rw [ho']), poke_poke _ (by simp)]
  simp only [List.append_assoc]

end Written

end Hamster.Server.Messages
