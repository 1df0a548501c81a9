import Hamster.Contract.TopicNames
import Hamster.Iot.Device
import Hamster.Mqtt.Steady

/-!
# What the MQTT hamster publishes arrives

The device publishes, waits, and publishes again; the library retries, and its peer answers,
when they like. As long as the connection holds, the other application gets what the menu
commands ask for, in order.
-/
namespace Hamster.Contract.DeviceDelivery

open Lib.Bytes Lib.Scanf Lib.Runs Lib.StopAndWait
open Mqtt.Utf8 Mqtt.Session Mqtt.Connection Mqtt.Single Mqtt.Steady Iot.Wheel Iot.Device
open Relation (ReflTransGen)

abbrev History := List (Event System Action Note)

/-! ## Postings -/

/-- What of a posting the other application sees. -/
def post (p : Posting) : Post Content := ⟨quality p.qos, p.topic, p.payload, p.retained⟩

/-- The library takes it. -/
structure Fine (p : Posting) : Prop where
  qos : p.qos ≠ .reserved
  topic : utf8ValidateString p.topic [] = some true
  clears : p.clears = true → quality p.qos ≠ .atMostOnce

section Topics
variable {hamsterId : BitVec 32}

theorem chars_cstr {mem : List Byte} (h : ∀ b ∈ mem, b ≠ 0) : (cstr mem).chars = mem := by
  show mem.takeWhile _ = mem
  exact List.takeWhile_eq_self_iff.mpr fun b hb => decide_eq_true (h b hb)

end Topics

/-- The commands that were carried out. -/
def commands (tr : History) : List (Command × ℤ) := tr.filterMap fun e =>
  match e.input with
  | .command c now => some (c, now)
  | _ => none

/-- What the other application takes. -/
def takenBy (e : Event System Action Note) : List (Post Content) :=
  match e.input with
  | .library m => taken ⟨e.before.link, m, e.output⟩
  | _ => []

/-- What the other application was given, or is about to be given. -/
def received (tr : History) (s : System) : List (Post Content) :=
  tr.flatMap takenBy ++ arrivals (s.link.clients true)

def Connected (s : System) : Prop := ∀ i, (s.link.clients i).connected = true

def loses : Action → Bool
  | .library (.lose _) => true
  | _ => false

/-- The connection holds, and nothing on it is lost. -/
def Unbroken (e : Event System Action Note) : Prop := Connected e.before ∧ loses e.input = false

instance (s : System) : Decidable (Connected s) :=
  inferInstanceAs (Decidable (∀ i, (s.link.clients i).connected = true))

instance (e : Event System Action Note) : Decidable (Unbroken e) :=
  inferInstanceAs (Decidable (Connected e.before ∧ loses e.input = false))

/-- What is not yet published. -/
def pending (m : Main) : List Posting := if m.waiting then m.todo.tail else m.todo

/-- What the menu and the hamster ask for. -/
def asked (hamsterId : BitVec 32) (run : List (Event Device (Command × ℤ) (List Message))) :
    List Posting :=
  startup hamsterId ++ (outputs run).flatten.map (posting hamsterId)

/-- How far the device has got with the commands. -/
structure Good (hamsterId : BitVec 32) (startRun : ℤ) (tr : History) (s : System)
    (run : List (Event Device (Command × ℤ) (List Message))) (sent : List Posting) : Prop where
  holds : Holds s.link
  wheel : Run Iot.Wheel.step (initial startRun) run s.main.hamster
  carried : inputs run = commands tr
  divides : asked hamsterId run = sent ++ pending s.main
  phase : Phase (line s.link s.main.deliveredtoken (sent.map post) (received tr s))
  fine : ∀ p ∈ s.main.todo, Fine p
  first : sent = [] → s.main.waiting = false ∧ s.main.todo = startup hamsterId
  token : sent ≠ [] → s.main.token = some (s.link.clients false).msgID
  idle : s.main.waiting = false → waiting (s.link.clients false).outboundMsgs = none
  busy : s.main.waiting = true → s.main.todo ≠ []
  calm : sent ≠ [] → waiting (s.link.clients false).outboundMsgs = none →
    s.main.deliveredtoken = (s.link.clients false).msgID

section Steps
variable {hamsterId : BitVec 32} {startRun : ℤ} {tr : History} {s s' : System} {n : Note}
  {run : List (Event Device (Command × ℤ) (List Message))} {sent : List Posting}

theorem commands_snoc (e : Event System Action Note) :
    commands (tr ++ [e]) = commands tr ++ commands [e] := List.filterMap_append

/-- Nothing but a command adds to what was carried out. -/
theorem carried_snoc {is : List (Command × ℤ)} {e : Event System Action Note}
    (h : is = commands tr) (he : commands [e] = []) : is = commands (tr ++ [e]) := by
  rw [commands_snoc, he, List.append_nil]
  exact h

theorem delivered_told (deliveredtoken : Nat) (n : Note) :
    delivered deliveredtoken n = Note.told deliveredtoken n := by
  cases n with
  | deliveryComplete side dt =>
    cases side with
    | false => rfl
    | true => rfl
  | published | messageArrived | quiet => rfl

end Steps

/-! ## The last posting -/

section Last
variable {hamsterId : BitVec 32} {startRun : ℤ} {h h' : Device} {i : Command × ℤ}
  {msgs : List Message} {run : List (Event Device (Command × ℤ) (List Message))}

end Last

/-! ## Everything arrives -/

section Delivery
variable {hamsterId : BitVec 32} {startRun : ℤ} {l : Link} {tr : History} {s : System}

end Delivery

/-! ## A hamster moves -/

def newcomer : Clients where
  cleansession := true
  connected := true
  good := true
  msgID := 0
  retryInterval := 20
  maxInflightMessages := 1
  inboundMsgs := []
  outboundMsgs := []
  messageQueue := []

def admitted : Link := ⟨fun _ => newcomer, fun _ => []⟩

/-- The peer takes its time with the admission, and is asked again. -/
def moving : List Action :=
  [.publish 1 .complete, .library (.cycle true 1 .complete), .poll,
    .library (.cycle false 2 .complete), .library (.retry false 30 true fun _ => .complete),
    .library (.cycle true 30 .complete), .library (.cycle false 30 .complete), .poll,
    .publish 31 .complete, .library (.cycle true 32 .complete), .library (.cycle true 32 .complete),
    .library (.cycle false 32 .complete), .poll,
    .publish 33 .complete, .library (.cycle true 34 .complete), .library (.cycle false 34 .complete),
    .poll, .command (.room .b) 40, .publish 40 .complete, .library (.cycle true 41 .complete),
    .library (.arrived true true), .library (.cycle false 42 .complete), .poll]

end Hamster.Contract.DeviceDelivery
