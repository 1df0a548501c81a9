import Hamster.Iot.Wheel
import Hamster.Mqtt.Connection

/-!
# The MQTT hamster on a connection

main of hamster_mqtt.c from the first publication on: what it hands to the library, and how it
waits. The library works in a thread of its own; the other end is any client.
-/
namespace Hamster.Iot.Device

open Lib.Bytes Lib.Scanf Lib.Runs Mqtt.Session Mqtt.Connection Iot.Wheel

/-- The arguments of `MQTTClient_publish`, and whether `deliveredtoken` is set to zero before. -/
structure Posting where
  topic : CString
  payload : List Byte
  qos : Qos
  retained : Bool
  clears : Bool

section Topics
variable (hamsterId : BitVec 32)

def clientid : List Byte := printInt hamsterId.toInt

def pensionTopic : CString := cstr (ascii "/pension" ++ ascii "/livestock")

def hamsterTopic (name : List Byte) : CString :=
  cstr (ascii "/pension" ++ ascii "/hamster" ++ ascii "/" ++ clientid hamsterId ++ name)

def stateTopic : CString := hamsterTopic hamsterId (ascii "/state")

def positionTopic : CString := hamsterTopic hamsterId (ascii "/position")

def wheelsTopic : CString := hamsterTopic hamsterId (ascii "/wheels")

/-- `RUN`, `SLP`, `EAT` and `MAT` -/
def stateName : State → List Byte
  | .run => ascii "RUNNING"
  | .sleep => ascii "SLEEPING"
  | .eat => ascii "EATING"
  | .mate => ascii "MATEING"

def roomName : Room → List Byte
  | .a => ascii "A"
  | .b => ascii "B"
  | .c => ascii "C"
  | .d => ascii "D"

def posting : Message → Posting
  | .position room => ⟨positionTopic hamsterId, roomName room, .atLeastOnce, false, false⟩
  | .state state => ⟨stateTopic hamsterId, stateName state, .atLeastOnce, false, false⟩
  | .wheels roundsString => ⟨wheelsTopic hamsterId, roundsString, .atMostOnce, false, false⟩

/-- What is published before the menu appears. -/
def startup : List Posting :=
  [⟨pensionTopic, clientid hamsterId, .exactlyOnce, true, true⟩,
    ⟨stateTopic hamsterId, stateName .run, .atLeastOnce, false, true⟩,
    ⟨positionTopic hamsterId, roomName .a, .atLeastOnce, false, true⟩]

end Topics

/-- What is left to publish, the first perhaps published and waited for. `token` has no value
before the library gives it one. -/
structure Main where
  hamster : Device
  todo : List Posting
  waiting : Bool
  token : Option Nat
  deliveredtoken : Nat

structure System where
  main : Main
  link : Link

inductive Action
  /-- A command of the menu, and what `time` shows. -/
  | command (c : Command) (now : ℤ)
  | publish (now : ℤ) (rc : Rc)
  /-- `while (deliveredtoken != token)` -/
  | poll
  /-- Whatever else happens on the connection. -/
  | library (m : Move)

/-- `delivered` -/
def delivered (deliveredtoken : Nat) : Note → Nat
  | .deliveryComplete false dt => dt
  | _ => deliveredtoken

/-- The token, if one is given out. -/
def given (token : Option Nat) : Note → Option Nat
  | .published _ (some dt) => some dt
  | _ => token

def step (hamsterId : BitVec 32) (s : System) : Action → Option (Note × System)
  | .command c now =>
    match s.main.todo with
    | [] =>
      (Wheel.step s.main.hamster (c, now)).map fun (sent, hamster) =>
        (.quiet, { s with main := { s.main with hamster, todo := sent.map (posting hamsterId) } })
    | _ :: _ => none
  | .publish now rc =>
    match s.main.todo, s.main.waiting with
    | post :: _, false =>
      (s.link.step (.publish false post.topic post.payload post.qos post.retained now rc)).map
        fun (n, link) =>
          let deliveredtoken := if post.clears then 0 else s.main.deliveredtoken
          let token := given s.main.token n
          (n, ⟨{ s.main with waiting := true, token, deliveredtoken }, link⟩)
    | _, _ => none
  | .poll =>
    match s.main.todo, s.main.waiting, s.main.token with
    | _ :: todo, true, some token =>
      some (.quiet,
        if s.main.deliveredtoken = token then { s with main := { s.main with todo, waiting := false } }
        else s)
    | _, _, _ => none
  | .library (.publish false _ _ _ _ _ _) => none
  | .library m =>
    (s.link.step m).map fun (n, link) =>
      let deliveredtoken := delivered s.main.deliveredtoken n
      (n, ⟨{ s.main with deliveredtoken }, link⟩)

/-- The client is connected, and the command loop has not begun. -/
def start (hamsterId : BitVec 32) (startRun : ℤ) (link : Link) : System :=
  ⟨⟨initial startRun, startup hamsterId, false, none, 0⟩, link⟩

section Steps
variable {hamsterId : BitVec 32} {s s' : System} {n : Note}

theorem command_cases {c : Command} {now : ℤ}
    (h : step hamsterId s (.command c now) = some (n, s')) :
    ∃ msgs hamster, s.main.todo = [] ∧ Wheel.step s.main.hamster (c, now) = some (msgs, hamster) ∧
      n = .quiet ∧
      s' = { s with main := { s.main with hamster, todo := msgs.map (posting hamsterId) } } := by
  cases htodo : s.main.todo with
  | cons p todo =>
    simp only [step, htodo] at h
    cases h
  | nil =>
    simp only [step, htodo] at h
    obtain ⟨⟨msgs, hamster⟩, hwheel, heq⟩ := Option.map_eq_some_iff.mp h
    obtain ⟨rfl, rfl⟩ := Prod.mk.inj heq
    exact ⟨msgs, hamster, rfl, hwheel, rfl, rfl⟩

theorem publish_cases {now : ℤ} {rc : Rc}
    (h : step hamsterId s (.publish now rc) = some (n, s')) :
    ∃ p todo q, s.main.todo = p :: todo ∧ s.main.waiting = false ∧
      mqttClientPublish p.topic p.payload p.qos p.retained now rc (s.link.clients false) = some q ∧
      n = .published q.rc q.token ∧
      s' = ⟨⟨s.main.hamster, p :: todo, true, given s.main.token n,
          if p.clears then 0 else s.main.deliveredtoken⟩,
        s.link.resend false (q.client, q.sent)⟩ := by
  cases htodo : s.main.todo with
  | nil =>
    simp only [step, htodo] at h
    cases h
  | cons p todo =>
    cases hwaiting : s.main.waiting with
    | true =>
      simp only [step, htodo, hwaiting] at h
      cases h
    | false =>
      simp only [step, htodo, hwaiting] at h
      obtain ⟨⟨note, link⟩, hlink, heq⟩ := Option.map_eq_some_iff.mp h
      obtain ⟨q, hq, hlink⟩ := Option.map_eq_some_iff.mp hlink
      obtain ⟨rfl, rfl⟩ := Prod.mk.inj hlink
      obtain ⟨rfl, rfl⟩ := Prod.mk.inj heq
      exact ⟨p, todo, q, rfl, rfl, hq, rfl, rfl⟩

theorem poll_cases (h : step hamsterId s .poll = some (n, s')) :
    ∃ p todo token, s.main.todo = p :: todo ∧ s.main.waiting = true ∧ s.main.token = some token ∧
      n = .quiet ∧ (s.main.deliveredtoken = token ∧
          s' = { s with main := { s.main with todo, waiting := false } } ∨
        s.main.deliveredtoken ≠ token ∧ s' = s) := by
  cases htodo : s.main.todo with
  | nil =>
    simp only [step, htodo] at h
    cases h
  | cons p todo =>
    cases hwaiting : s.main.waiting with
    | false =>
      simp only [step, htodo, hwaiting] at h
      cases h
    | true =>
      cases htoken : s.main.token with
      | none =>
        simp only [step, htodo, hwaiting, htoken] at h
        cases h
      | some token =>
        simp only [step, htodo, hwaiting, htoken] at h
        obtain ⟨rfl, heq⟩ := Prod.mk.inj (Option.some.inj h)
        refine ⟨p, todo, token, rfl, rfl, rfl, rfl, ?_⟩
        split at heq
        · rename_i hdone
          exact .inl ⟨hdone, by rw [← heq, ← htoken]⟩
        · rename_i hdone
          exact .inr ⟨hdone, heq.symm⟩

theorem library_cases {m : Move} (h : step hamsterId s (.library m) = some (n, s')) :
    (∀ topicName payload qos retained now rc,
      m ≠ .publish false topicName payload qos retained now rc) ∧
    ∃ link, s.link.step m = some (n, link) ∧
      s' = ⟨{ s.main with deliveredtoken := delivered s.main.deliveredtoken n }, link⟩ := by
  have hm (topicName : CString) (payload : List Byte) (qos : Qos) (retained : Bool) (now : ℤ)
      (rc : Rc) : m ≠ .publish false topicName payload qos retained now rc := by
    rintro rfl
    cases h
  rw [step] at h
  · obtain ⟨⟨note, link⟩, hlink, heq⟩ := Option.map_eq_some_iff.mp h
    obtain ⟨rfl, rfl⟩ := Prod.mk.inj heq
    exact ⟨hm, link, hlink, rfl⟩
  · exact hm

/-- What the library takes on or refuses, main waits for. -/
theorem publish_step {p : Posting} {todo : List Posting} {q : Publication} {now : ℤ} {rc : Rc}
    (htodo : s.main.todo = p :: todo) (hwaiting : s.main.waiting = false)
    (hq : mqttClientPublish p.topic p.payload p.qos p.retained now rc (s.link.clients false) =
      some q) :
    step hamsterId s (.publish now rc) = some (.published q.rc q.token,
      ⟨{ s.main with
          waiting := true
          token := given s.main.token (.published q.rc q.token)
          deliveredtoken := if p.clears then 0 else s.main.deliveredtoken },
        s.link.resend false (q.client, q.sent)⟩) := by
  simp only [step, htodo, hwaiting, Link.step, hq, Option.map_some]
  rfl

/-- The wait is over. -/
theorem poll_done {p : Posting} {todo : List Posting} (htodo : s.main.todo = p :: todo)
    (hwaiting : s.main.waiting = true) (htoken : s.main.token = some s.main.deliveredtoken) :
    step hamsterId s .poll =
      some (.quiet, { s with main := { s.main with todo, waiting := false } }) := by
  simp [step, htodo, hwaiting, htoken]

end Steps

end Hamster.Iot.Device
