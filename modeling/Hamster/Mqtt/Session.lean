import Hamster.Lib.Rows
import Hamster.Mqtt.Utf8

/-!
# The session of an MQTT client

MQTTProtocolClient.c, and what MQTTClient.c does around it: the messages that are under way,
what each packet does to them, what is sent again. Nothing is kept on disk, and how the write
of a packet ends is a parameter of whatever writes it.
-/
namespace Hamster.Mqtt.Session

open Lib.Bytes Lib.Rows Mqtt.Utf8

/-- Two bits of the header. -/
inductive Qos
  | atMostOnce
  | atLeastOnce
  | exactlyOnce
  | reserved
  deriving DecidableEq

/-- `TCPSOCKET_COMPLETE`, `TCPSOCKET_INTERRUPTED` (the rest is written later) and
`SOCKET_ERROR`. -/
inductive Rc
  | complete
  | interrupted
  | error
  deriving DecidableEq

structure Publish where
  dup : Bool
  qos : Qos
  retain : Bool
  topic : CString
  msgId : Nat
  payload : List Byte
  deriving DecidableEq

inductive AckType
  | puback
  | pubrec
  | pubrel
  | pubcomp
  deriving DecidableEq

structure Ack where
  type : AckType
  dup : Bool
  msgId : Nat
  deriving DecidableEq

inductive Packet
  | publish (pack : Publish)
  | ack (pack : Ack)
  deriving DecidableEq

/-- With the `Publications` it points to. `nextMessageType` is set for QoS 2 only. -/
structure Messages where
  qos : Qos
  retain : Bool
  msgid : Nat
  topic : CString
  payload : List Byte
  lastTouch : ℤ
  nextMessageType : Option AckType
  deriving DecidableEq

/-- With the `MQTTClient_message` it points to. -/
structure QEntry where
  topicName : CString
  payload : List Byte
  qos : Qos
  retained : Bool
  dup : Bool
  msgid : Nat
  deriving DecidableEq

structure Clients where
  cleansession : Bool
  connected : Bool
  good : Bool
  msgID : Nat
  retryInterval : ℤ
  maxInflightMessages : Nat
  inboundMsgs : List Messages
  outboundMsgs : List Messages
  messageQueue : List QEntry

def hasId (msgid : Nat) (m : Messages) : Bool := m.msgid = msgid

/-- What is on its way after a write. -/
def Rc.written (rc : Rc) (pack : Packet) : List Packet := if rc = .error then [] else [pack]

/-- `MQTTPacket_send_puback`, `MQTTPacket_send_pubrec`, `MQTTPacket_send_pubrel` and
`MQTTPacket_send_pubcomp`, as they are called. -/
def sendAck (type : AckType) (msgId : Nat) (rc : Rc) : List Packet :=
  rc.written (.ack ⟨type, false, msgId⟩)

def maxMsgId : Nat := 65535

def nextMsgId (msgid : Nat) : Nat := if msgid = maxMsgId then 1 else msgid + 1

/-- The loop from `msgid` on. Zero stands for no id. -/
def assignLoop (client : Clients) : Nat → Nat → Option Nat
  | turns, msgid =>
    if client.outboundMsgs.any (hasId msgid) then
      match turns with
      | 0 => none
      | turns + 1 =>
        if nextMsgId msgid = client.msgID then some 0
        else assignLoop client turns (nextMsgId msgid)
    else some msgid

/-- After as many turns as there are ids the loop does not end any more. -/
def assignMsgId (client : Clients) : Option (Nat × Clients) :=
  (assignLoop client maxMsgId (nextMsgId client.msgID)).map fun msgid =>
    (msgid, if msgid ≠ 0 then { client with msgID := msgid } else client)

/-- `Protocol_processPublication` -/
def processPublication (publish : Publish) (client : Clients) : Clients :=
  let dup := if publish.qos = .exactlyOnce then false else publish.dup
  { client with messageQueue := client.messageQueue ++
      [⟨publish.topic, publish.payload, publish.qos, publish.retain, dup, publish.msgId⟩] }

/-- The client, what it wrote, and the completion code. -/
structure Reaction where
  client : Clients
  sent : List Packet
  rc : Rc

section Handlers
variable (rc : Rc) (client : Clients)

/-- `lastTouch` is not set. -/
def inboundMessage (publish : Publish) : Messages :=
  ⟨publish.qos, publish.retain, publish.msgId, publish.topic, publish.payload, 0, some .pubrel⟩

/-- The inbound messages with a publication of QoS 2, which takes the place of one with its id. -/
def storePublication (publish : Publish) : List Messages :=
  if client.inboundMsgs.any (hasId publish.msgId) then
    patchFirst (hasId publish.msgId) (fun _ => inboundMessage publish) client.inboundMsgs
  else client.inboundMsgs ++ [inboundMessage publish]

def handlePublishes (publish : Publish) : Reaction :=
  match publish.qos with
  | .atMostOnce => ⟨processPublication publish client, [], .complete⟩
  | .atLeastOnce => ⟨processPublication publish client, sendAck .puback publish.msgId rc, rc⟩
  | .exactlyOnce =>
    ⟨{ client with inboundMsgs := storePublication client publish },
      sendAck .pubrec publish.msgId rc, rc⟩
  | .reserved => ⟨client, [], .complete⟩

/-- Only the log tells that nothing was done. -/
def ignored : Reaction := ⟨client, [], .complete⟩

def handlePubacks (puback : Ack) : Reaction :=
  match client.outboundMsgs.find? (hasId puback.msgId) with
  | none => ignored client
  | some m =>
    if m.qos ≠ .atLeastOnce then ignored client
    else
      ⟨{ client with outboundMsgs := client.outboundMsgs.eraseP (hasId puback.msgId) }, [], .complete⟩

def awaitPubcomp (now : ℤ) (m : Messages) : Messages :=
  { m with nextMessageType := some .pubcomp, lastTouch := now }

def handlePubrecs (now : ℤ) (pubrec : Ack) : Reaction :=
  match client.outboundMsgs.find? (hasId pubrec.msgId) with
  | none => ignored client
  | some m =>
    if m.qos ≠ .exactlyOnce then ignored client
    else if m.nextMessageType ≠ some .pubrec then ignored client
    else
      let outboundMsgs := patchFirst (hasId pubrec.msgId) (awaitPubcomp now) client.outboundMsgs
      ⟨{ client with outboundMsgs }, sendAck .pubrel pubrec.msgId rc, rc⟩

/-- What is not known is answered only if it is marked as a duplicate. -/
def handlePubrels (pubrel : Ack) : Reaction :=
  match client.inboundMsgs.find? (hasId pubrel.msgId) with
  | none =>
    if pubrel.dup then ⟨client, sendAck .pubcomp pubrel.msgId rc, rc⟩ else ignored client
  | some m =>
    if m.qos ≠ .exactlyOnce then ignored client
    else if m.nextMessageType ≠ some .pubrel then ignored client
    else
      let client := processPublication ⟨false, m.qos, m.retain, m.topic, m.msgid, m.payload⟩ client
      ⟨{ client with inboundMsgs := client.inboundMsgs.eraseP (hasId pubrel.msgId) },
        sendAck .pubcomp pubrel.msgId rc, rc⟩

def handlePubcomps (pubcomp : Ack) : Reaction :=
  match client.outboundMsgs.find? (hasId pubcomp.msgId) with
  | none => ignored client
  | some m =>
    if m.qos ≠ .exactlyOnce then ignored client
    else if m.nextMessageType ≠ some .pubcomp then ignored client
    else
      ⟨{ client with outboundMsgs := client.outboundMsgs.eraseP (hasId pubcomp.msgId) }, [], .complete⟩

/-- The packets `MQTTClient_cycle` deals with itself. -/
def handle (now : ℤ) : Packet → Reaction
  | .publish publish => handlePublishes rc client publish
  | .ack ack =>
    match ack.type with
    | .puback => handlePubacks client ack
    | .pubrec => handlePubrecs rc client now ack
    | .pubrel => handlePubrels rc client ack
    | .pubcomp => handlePubcomps client ack

end Handlers

/-- `MQTTClient_cleanSession` -/
def cleanSession (client : Clients) : Clients :=
  { client with inboundMsgs := [], outboundMsgs := [], messageQueue := [], msgID := 0 }

/-- `MQTTClient_closeSession` -/
def closeSession (client : Clients) : Clients :=
  let client := { client with good := false, connected := false }
  if client.cleansession then cleanSession client else client

/-- The packet that is due for a message that has waited. -/
def repeated (m : Messages) : Option Packet :=
  if m.qos = .atLeastOnce ∨ (m.qos = .exactlyOnce ∧ m.nextMessageType = some .pubrec) then
    some (.publish ⟨true, m.qos, m.retain, m.topic, m.msgid, m.payload⟩)
  else if m.qos ≠ .atMostOnce ∧ m.nextMessageType = some .pubcomp then
    some (.ack ⟨.pubrel, false, m.msgid⟩)
  else none

/-- The outbound messages from one on, what is written, and whether the session is to be closed.
A `PUBLISH` whose write is interrupted leaves the socket busy, which ends the loop. -/
def retryLoop (due : Messages → Bool) (now : ℤ) (rc : Nat → Rc) :
    List Messages → List Messages × List Packet × Bool
  | [] => ([], [], false)
  | m :: ms =>
    let pass : List Messages × List Packet × Bool :=
      let (ms, sent, failed) := retryLoop due now rc ms
      (m :: ms, sent, failed)
    if due m then
      match repeated m with
      | none => pass
      | some (.publish pack) =>
        let touched := { m with lastTouch := now }
        match rc m.msgid with
        | .complete =>
          let (ms, sent, failed) := retryLoop due now rc ms
          (touched :: ms, .publish pack :: sent, failed)
        | .interrupted => (touched :: ms, [.publish pack], false)
        | .error => (m :: ms, [], true)
      | some (.ack pack) =>
        match rc m.msgid with
        | .complete =>
          let (ms, sent, failed) := retryLoop due now rc ms
          ({ m with lastTouch := now } :: ms, .ack pack :: sent, failed)
        | .interrupted | .error => (m :: ms, [], true)
    else pass

/-- `MQTTProtocol_retries` -/
def retries (now : ℤ) (regardless : Bool) (time : ℤ) (rc : Nat → Rc) (client : Clients) :
    Clients × List Packet :=
  if !regardless && client.retryInterval ≤ 0 then (client, [])
  else
    let due m := regardless || now - m.lastTouch > max client.retryInterval 10
    let (ms, sent, failed) := retryLoop due time rc client.outboundMsgs
    let client := { client with outboundMsgs := ms }
    (if failed then closeSession client else client, sent)

/-- `MQTTProtocol_retry` for one client, with nothing left to write. -/
def retry (now : ℤ) (doRetry regardless : Bool) (time : ℤ) (rc : Nat → Rc) (client : Clients) :
    Clients × List Packet :=
  if !client.connected then (client, [])
  else if !client.good then (closeSession client, [])
  else if doRetry then retries now regardless time rc client
  else (client, [])

/-- The part of `MQTTClient_connectURIVersion` behind a `CONNACK` that accepts. -/
def connected (time : ℤ) (rc : Nat → Rc) (client : Clients) : Clients × List Packet :=
  let client := { client with connected := true, good := true }
  let client := if client.cleansession then cleanSession client else client
  if client.outboundMsgs = [] then (client, [])
  else
    let outboundMsgs := client.outboundMsgs.map fun m => { m with lastTouch := 0 }
    retry 0 true true time rc { client with outboundMsgs }

def mqttclientSuccess : ℤ := 0
def mqttclientFailure : ℤ := -1
def mqttclientDisconnected : ℤ := -3
def mqttclientMaxMessagesInflight : ℤ := -4
def mqttclientBadUtf8String : ℤ := -5

/-- The completion code, the delivery token if there is one, what is written, and the client. -/
structure Publication where
  rc : ℤ
  token : Option Nat
  sent : List Packet
  client : Clients

/-- `MQTTProtocol_startPublish`, with the message that is stored. -/
def startPublish (publish : Publish) (now : ℤ) (client : Clients) : Clients :=
  if publish.qos = .atMostOnce then client
  else
    { client with outboundMsgs := client.outboundMsgs ++
        [⟨publish.qos, publish.retain, publish.msgId, publish.topic, publish.payload, now,
          if publish.qos = .exactlyOnce then some .pubrec else none⟩] }

/-- What `MQTTClient_publish` does when the topic is checked, there is room and the id is known. -/
def publishWith (publish : Publish) (now : ℤ) (rc : Rc) (client : Clients) : Publication :=
  let token := if publish.qos = .atMostOnce then none else some publish.msgId
  let client := startPublish publish now client
  let sent := rc.written (.publish publish)
  if rc = .error then
    ⟨if publish.qos = .atMostOnce then mqttclientFailure else mqttclientSuccess, token, sent,
      closeSession client⟩
  else ⟨mqttclientSuccess, token, sent, client⟩

/-- `MQTTClient_publish`; no value as long as it waits for room in the outbound queue. -/
def mqttClientPublish (topicName : CString) (payload : List Byte) (qos : Qos) (retained : Bool)
    (now : ℤ) (rc : Rc) (client : Clients) : Option Publication :=
  if !client.connected then some ⟨mqttclientDisconnected, none, [], client⟩
  else
    match utf8ValidateString topicName [] with
    | none => none
    | some false => some ⟨mqttclientBadUtf8String, none, [], client⟩
    | some true =>
      if client.maxInflightMessages ≤ client.outboundMsgs.length then none
      else if qos = .atMostOnce then
        some (publishWith ⟨false, qos, retained, topicName, 0, payload⟩ now rc client)
      else
        match assignMsgId client with
        | none => none
        | some (0, client) => some ⟨mqttclientMaxMessagesInflight, none, [], client⟩
        | some (msgid, client) =>
          some (publishWith ⟨false, qos, retained, topicName, msgid, payload⟩ now rc client)

end Hamster.Mqtt.Session
