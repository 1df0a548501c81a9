import Hamster.Lib.Runs
import Hamster.Mqtt.Session

/-!
# Two clients on one connection

Each end publishes, reads what the other has written, and sends again what waits for an
answer, in any order. The connection keeps the order of the packets; some of what is on its
way may be lost, writes may fail, and each end finds out on its own when the connection is
gone. A new one begins empty, and both ends go on with their sessions.
-/
namespace Hamster.Mqtt.Connection

open Lib.Bytes Lib.Runs Mqtt.Session

/-- The ends, and what each of them has written that the other has not read. -/
structure Link where
  clients : Bool → Clients
  written : Bool → List Packet

inductive Move
  /-- The application calls `MQTTClient_publish`. -/
  | publish (side : Bool) (topicName : CString) (payload : List Byte) (qos : Qos) (retained : Bool)
      (now : ℤ) (rc : Rc)
  /-- The next packet is read, and dealt with. -/
  | cycle (side : Bool) (now : ℤ) (rc : Rc)
  /-- `MQTTClient_retry` -/
  | retry (side : Bool) (now : ℤ) (doRetry : Bool) (rc : Nat → Rc)
  /-- The application is called with the first message of the queue, and takes it or not. -/
  | arrived (side : Bool) (taken : Bool)
  /-- What is left of what was on its way. -/
  | lose (left : Bool → List Packet)
  | disconnect (side : Bool)
  | connect (now : ℤ) (rc : Bool → Nat → Rc)

/-- What an application is told. -/
inductive Note
  | published (rc : ℤ) (token : Option Nat)
  | deliveryComplete (side : Bool) (dt : Nat)
  | messageArrived (side : Bool) (message : QEntry) (taken : Bool)
  | quiet

namespace Link

def setClient (l : Link) (side : Bool) (client : Clients) : Link :=
  { l with clients := Function.update l.clients side client }

def write (l : Link) (side : Bool) (sent : List Packet) : Link :=
  { l with written := Function.update l.written side (l.written side ++ sent) }

/-- Whether `deliveryComplete` is called, known message or not. -/
def confirms (side : Bool) : Packet → Note
  | .ack ⟨.puback, _, msgId⟩ | .ack ⟨.pubcomp, _, msgId⟩ => .deliveryComplete side msgId
  | _ => .quiet

/-- A socket that fails ends the session in `MQTTClient_run`. -/
def react (l : Link) (side : Bool) (r : Reaction) : Link :=
  (l.setClient side (if r.rc = .error then closeSession r.client else r.client)).write side r.sent

def read (l : Link) (side : Bool) (rest : List Packet) : Link :=
  { l with written := Function.update l.written (!side) rest }

def resend (l : Link) (side : Bool) (r : Clients × List Packet) : Link :=
  (l.setClient side r.1).write side r.2

/-- Both ends open a new connection. -/
def reopen (l : Link) (now : ℤ) (rc : Bool → Nat → Rc) : Link :=
  let l := { l with written := fun _ => [] }
  let l := l.resend false (connected now (rc false) (l.clients false))
  l.resend true (connected now (rc true) (l.clients true))

def step (l : Link) : Move → Option (Note × Link)
  | .publish side topicName payload qos retained now rc =>
    (mqttClientPublish topicName payload qos retained now rc (l.clients side)).map fun p =>
      (.published p.rc p.token, (l.setClient side p.client).write side p.sent)
  | .cycle side now rc =>
    if (l.clients side).connected then
      match l.written (!side) with
      | [] => none
      | pack :: rest =>
        some (confirms side pack, (l.read side rest).react side (handle rc (l.clients side) now pack))
    else none
  | .retry side now doRetry rc =>
    some (.quiet, l.resend side (retry now doRetry false now rc (l.clients side)))
  | .arrived side taken =>
    if (l.clients side).connected then
      match (l.clients side).messageQueue with
      | [] => none
      | message :: rest =>
        some (.messageArrived side message taken,
          if taken then l.setClient side { l.clients side with messageQueue := rest } else l)
    else none
  | .lose left =>
    if (left false).Sublist (l.written false) ∧ (left true).Sublist (l.written true) then
      some (.quiet, { l with written := left })
    else none
  | .disconnect side => some (.quiet, l.setClient side (closeSession (l.clients side)))
  | .connect now rc =>
    if (l.clients false).connected || (l.clients true).connected then none
    else some (.quiet, l.reopen now rc)

end Link

abbrev History := List (Event Link Move Note)

end Hamster.Mqtt.Connection
