import Hamster.Lib.Java

/-!
# The Java client

HamsterRPCConnection.java and RPCMessageHeader.java. A stub checks its arguments,
sends a message, reads one and takes its result from it. A reference that may be null
is an option; the objects a stub puts out values into are there.
-/
namespace Hamster.Client.Stubs

open Lib.Bytes Lib.Posix Lib.Java

/-- The class itself, with its message, and its subclasses. -/
inductive HamsterRPCException
  | plain (msg : String)
  | nameTooLong
  | extists
  | notFound
  | storageError
  deriving DecidableEq

inductive Thrown
  | java (e : JavaException)
  | hamsterRPC (e : HamsterRPCException)
  deriving DecidableEq

instance : MonadLift (Except JavaException) (Except Thrown) := ⟨Except.mapError .java⟩

@[simp] theorem liftM_ok {α : Type} (a : α) :
    (liftM (Except.ok a : Except JavaException α) : Except Thrown α) = .ok a := rfl

@[simp] theorem liftM_error {α : Type} (e : JavaException) :
    (liftM (Except.error e : Except JavaException α) : Except Thrown α) = .error (.java e) := rfl

def headerSize : Nat := 8
def staticStringSize : Nat := 32
def protocolVersion : Byte := 0xb6
def protocolFlagResponse : Byte := 0x01
def protocolFlagRequest : Byte := 0x00
def protocolFlagError : Byte := 0x02

/-- `testing` switches off the comparison of ids. -/
structure Connection where
  requestCounter : BitVec 32
  testing : Bool
  testNoPayloadAfterMessage : Bool

def Connection.hmstrErrNameTooLong : BitVec 32 := -1
def Connection.hmstrErrExists : BitVec 32 := -2
def Connection.hmstrErrNotFound : BitVec 32 := -3
def Connection.hmstrErrStore : BitVec 32 := -100
def Connection.hmstrErrCorrupt : BitVec 32 := -101

/-- `new HamsterRPCConnection(hostname, port, testing)` -/
def Connection.opened (testing : Bool) : Connection := ⟨0, testing, false⟩

/-- A call of a stub. -/
inductive StubCall
  | new (ownerName hamsterName : Option JString) (treats : Option (BitVec 32))
  | lookup (ownerName hamsterName : Option JString)
  | directory (fdptr : BitVec 32) (ownerName hamsterName : Option JString)
  | howsdoing (id : Option (BitVec 32))
  | readentry (id : Option (BitVec 32))
  | givetreats (id treats : Option (BitVec 32))
  | collect (ownerName : Option JString)
  deriving DecidableEq

/-- `HAMSTER_RPC_FUNCID_…` -/
def StubCall.funcId : StubCall → BitVec 16
  | .new .. => 1
  | .lookup .. => 2
  | .directory .. => 3
  | .howsdoing _ => 4
  | .readentry _ => 5
  | .givetreats .. => 6
  | .collect _ => 7

def checkString : Option JString → Except Thrown Unit
  | none => .error (.java .nullPointer)
  | some str =>
    if staticStringSize - 1 < (asciiBytes str).length then .error (.hamsterRPC .nameTooLong)
    else .ok ()

/-- `if (name != null) checkString(name);` -/
def checkNonNull : Option JString → Except Thrown Unit
  | none => .ok ()
  | some str => checkString (some str)

def getStaticAscii : Option JString → List Byte
  | none => List.replicate staticStringSize 0
  | some str => copyOf (asciiBytes str) staticStringSize

def intValue : Option (BitVec 32) → Except Thrown (BitVec 32)
  | none => .error (.java .nullPointer)
  | some i => .ok i

/-- The buffer `p` of each stub. -/
def StubCall.payload : StubCall → Except Thrown ByteBuffer
  | .new ownerName hamsterName treats => do
    checkString hamsterName
    checkString ownerName
    let p ← ByteBuffer.allocate (staticStringSize + staticStringSize + 2 : Nat)
    let p ← p.put (getStaticAscii ownerName)
    let p ← p.put (getStaticAscii hamsterName)
    let treats ← intValue treats
    p.putShort (treats.setWidth 16)
  | .lookup ownerName hamsterName => do
    let p ← ByteBuffer.allocate (staticStringSize + staticStringSize : Nat)
    let p ← p.put (getStaticAscii ownerName)
    p.put (getStaticAscii hamsterName)
  | .directory fdptr ownerName hamsterName => do
    checkNonNull ownerName
    checkNonNull hamsterName
    let p ← ByteBuffer.allocate (staticStringSize + staticStringSize + 4 : Nat)
    let p ← p.putInt fdptr
    let p ← p.put (getStaticAscii ownerName)
    p.put (getStaticAscii hamsterName)
  | .howsdoing id | .readentry id => do
    let p ← ByteBuffer.allocate (4 : Nat)
    let id ← intValue id
    p.putInt id
  | .givetreats id treats => do
    let p ← ByteBuffer.allocate (6 : Nat)
    let id ← intValue id
    let p ← p.putInt id
    let treats ← intValue treats
    p.putShort (treats.setWidth 16)
  | .collect ownerName => do
    let p ← ByteBuffer.allocate (staticStringSize : Nat)
    p.put (getStaticAscii ownerName)

def encodeMsg (buf : ByteBuffer) (flags : Byte) (msgId : BitVec 32) (payload : ByteBuffer)
    (rpccallid : BitVec 16) : Except JavaException ByteBuffer := do
  let buf ← buf.put [protocolVersion]
  let buf ← buf.put [flags]
  let buf ← buf.putShort (msgId.setWidth 16)
  let buf ← buf.putShort (BitVec.ofNat 16 payload.array.length)
  let buf ← buf.putShort rpccallid
  buf.put payload.array

/-- What a stub remembers of its request, what it sends, and the connection with its
counter advanced. -/
def Connection.request (c : Connection) (call : StubCall) :
    Except Thrown (BitVec 32 × List Byte × Connection) := do
  let p ← call.payload
  let buff ← ByteBuffer.allocate (p.array.length + headerSize : Nat)
  let msgId := c.requestCounter
  let buff ← encodeMsg buff protocolFlagRequest msgId p call.funcId
  return (msgId, buff.array, { c with requestCounter := c.requestCounter + 1 })

structure RPCMessageHeader where
  payloadSize : BitVec 32
  msgID : BitVec 32
  isResponse : Bool
  isError : Bool
  version : Byte
  rpcCallId : BitVec 16
  deriving DecidableEq

/-- `(tmp & mask) > 0`, both bytes promoted to `int`. -/
def hasFlag (tmp mask : Byte) : Bool := 0 < (tmp.signExtend 32 &&& mask.signExtend 32).toInt

/-- A `short` that becomes an `int` keeps its sign. -/
def RPCMessageHeader.ofBuffer (buf : ByteBuffer) : Except JavaException RPCMessageHeader := do
  let (version, buf) ← buf.getByte
  let (tmp, buf) ← buf.getByte
  let (msgID, buf) ← buf.getShort
  let (payloadSize, buf) ← buf.getShort
  let (rpcCallId, _) ← buf.getShort
  return {
    payloadSize := payloadSize.signExtend 32
    msgID := msgID.signExtend 32
    isResponse := hasFlag tmp protocolFlagResponse
    isError := hasFlag tmp protocolFlagError
    version := version
    rpcCallId := rpcCallId }

def receiveHeader (rx : Rx) : Except JavaException (ByteBuffer × Rx) := do
  let (bs, rx) ← receiveAll rx headerSize
  return (.wrap bs, rx)

def receivePayload (rx : Rx) (payloadSize : BitVec 32) :
    Except JavaException (ByteBuffer × Rx) := do
  let buf ← ByteBuffer.allocate payloadSize.toInt
  if 0 < payloadSize.toInt then
    let (bs, rx) ← receiveAll rx payloadSize.toInt.toNat
    return (.wrap bs, rx)
  else return (buf, rx)

/-- Header and payload of the next message. -/
def receiveMessage (rx : Rx) : Except JavaException (RPCMessageHeader × ByteBuffer × Rx) := do
  let (rheader, rx) ← receiveHeader rx
  let header ← RPCMessageHeader.ofBuffer rheader
  let (rpayload, rx) ← receivePayload rx header.payloadSize
  return (header, rpayload, rx)

/-- A code that is none of the five is passed over. -/
def Connection.decodeErrorMsg (c : Connection) (rpayload : ByteBuffer) :
    Except Thrown ByteBuffer := do
  let (errorcode, rpayload) ← rpayload.getInt
  if c.testNoPayloadAfterMessage = true ∧ rpayload.remaining ≠ 0 then .error (.java .assertion)
  else if errorcode = hmstrErrNameTooLong then .error (.hamsterRPC .nameTooLong)
  else if errorcode = hmstrErrExists then .error (.hamsterRPC .extists)
  else if errorcode = hmstrErrNotFound then .error (.hamsterRPC .notFound)
  else if errorcode = hmstrErrStore then .error (.hamsterRPC .storageError)
  else if errorcode = hmstrErrCorrupt then .error (.hamsterRPC .storageError)
  else .ok rpayload

def Connection.checkResponse (c : Connection) (msgId : BitVec 32) (rpcCallId : BitVec 16)
    (header : RPCMessageHeader) (rpayload : ByteBuffer) : Except Thrown ByteBuffer :=
  if c.testing = false ∧ msgId ≠ header.msgID then
    .error (.hamsterRPC (.plain "wrong message ID"))
  else if c.testing = false ∧ rpcCallId ≠ header.rpcCallId then
    .error (.hamsterRPC (.plain "wrong RPC call ID"))
  else if header.isError then c.decodeErrorMsg rpayload
  else .ok rpayload

/-- The value a stub returns and what it puts into its out parameters. -/
inductive StubResult
  | value (ret : BitVec 32)
  | handle (ret fdptr : BitVec 32)
  | state (ret treatsLeft rounds cost : BitVec 32)
  | entry (ret : BitVec 32) (owner name : JString) (price : BitVec 32)
  deriving DecidableEq

def StubCall.unpack (call : StubCall) (rpayload : ByteBuffer) : Except JavaException StubResult :=
  match call with
  | .directory .. => do
    let (ret, rpayload) ← rpayload.getInt
    let (fdptr, _) ← rpayload.getInt
    return .handle ret fdptr
  | .howsdoing _ => do
    let (retCode, rpayload) ← rpayload.getInt
    let (treatsLeft, rpayload) ← rpayload.getShort
    let (rounds, rpayload) ← rpayload.getInt
    let (cost, _) ← rpayload.getShort
    return .state retCode (treatsLeft.signExtend 32) rounds (cost.signExtend 32)
  | .readentry _ => do
    let (retCode, rpayload) ← rpayload.getInt
    let (oStr, rpayload) ← rpayload.get staticStringSize
    let (hStr, rpayload) ← rpayload.get staticStringSize
    let (price, _) ← rpayload.getShort
    return .entry retCode (trim (ofAscii oStr)) (trim (ofAscii hStr)) (price.signExtend 32)
  | _ => do
    let (ret, _) ← rpayload.getInt
    return .value ret

/-- What a stub makes of a message. -/
def Connection.answer (c : Connection) (call : StubCall) (msgId : BitVec 32)
    (header : RPCMessageHeader) (rpayload : ByteBuffer) : Except Thrown StubResult := do
  let rpayload ← c.checkResponse msgId call.funcId header rpayload
  call.unpack rpayload

/-- A stub from its request on. -/
def Connection.receive (c : Connection) (call : StubCall) (msgId : BitVec 32) (rx : Rx) :
    Except Thrown (StubResult × Rx) := do
  let (header, rpayload, rx) ← receiveMessage rx
  let result ← c.answer call msgId header rpayload
  return (result, rx)

end Hamster.Client.Stubs
