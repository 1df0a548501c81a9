import Hamster.Mqtt.Progress
import Hamster.Mqtt.Single

/-!
# A connection that holds

Every move of a connection over which the client at the end `false` has room for one message is
a step of sending one message after the other, as long as both ends stay connected.
-/
namespace Hamster.Mqtt.Steady

open Lib.Bytes Lib.StopAndWait Lib.Runs
open Mqtt.Utf8 Mqtt.Session Mqtt.Exchange Mqtt.Outgoing Mqtt.Connection Mqtt.Single
open Relation (ReflTransGen)

/-! ## What one end does -/

section Ends
variable {client : Clients}

theorem closed (client : Clients) : (closeSession client).connected = false := by
  unfold closeSession
  dsimp only
  split
  · rfl
  · rfl

/-- What is published, refused or taken on. -/
theorem publish_cases {topicName : CString} {payload : List Byte} {qos : Qos} {retained : Bool}
    {now : ℤ} {rc : Rc} {p : Publication}
    (h : mqttClientPublish topicName payload qos retained now rc client = some p) :
    ((∃ code, p = ⟨code, none, [], client⟩) ∧ (client.connected = false ∨
      utf8ValidateString topicName [] = some false ∨
      client.outboundMsgs.length < client.maxInflightMessages ∧
        assignMsgId client = some (0, client))) ∨
    client.outboundMsgs.length < client.maxInflightMessages ∧
      (qos = .atMostOnce ∧
        p = publishWith ⟨false, qos, retained, topicName, 0, payload⟩ now rc client ∨
      qos ≠ .atMostOnce ∧ ∃ msgid, msgid ≠ 0 ∧
        assignMsgId client = some (msgid, { client with msgID := msgid }) ∧
        p = publishWith ⟨false, qos, retained, topicName, msgid, payload⟩ now rc
          { client with msgID := msgid }) := by
  unfold mqttClientPublish at h
  split at h
  · rename_i hconnected
    cases h
    exact .inl ⟨⟨_, rfl⟩, .inl (by simpa using hconnected)⟩
  · split at h
    · cases h
    · rename_i hutf8
      cases h
      exact .inl ⟨⟨_, rfl⟩, .inr (.inl hutf8)⟩
    · split at h
      · cases h
      · rename_i hroom
        have hlt := not_le.mp hroom
        split at h
        · rename_i hqos
          cases h
          exact .inr ⟨hlt, .inl ⟨hqos, rfl⟩⟩
        · rename_i hqos
          split at h
          · cases h
          · rename_i client' hassign
            cases h
            obtain rfl := assignMsgId_zero hassign
            exact .inl ⟨⟨_, rfl⟩, .inr (.inr ⟨hlt, hassign⟩)⟩
          · rename_i msgid client' hne hassign
            cases h
            obtain ⟨-, rfl⟩ := assignMsgId_fresh hne hassign
            exact .inr ⟨hlt, .inr ⟨hqos, msgid, hne, hassign, rfl⟩⟩

end Ends

/-! ## What is seen of a connection -/

/-- The connection holds, and there is room for one message. -/
structure Holds (l : Link) : Prop where
  connected : ∀ i, (l.clients i).connected = true
  few : Few (l.clients false)
  room : (l.clients false).maxInflightMessages = 1
  holding : Holding (l.clients true)
  plain : ∀ p ∈ l.written false, Plain p

def line (l : Link) (told : Nat) (sent got : List (Post Content)) : Line Content where
  waits := waiting (l.clients false).outboundMsgs
  last := (l.clients false).msgID
  told := told
  held := storing (l.clients true).inboundMsgs
  forth := (l.written false).filterMap forth
  back := (l.written true).filterMap back
  sent := sent
  got := got

def arrivals (peer : Clients) : List (Post Content) := peer.messageQueue.map arrival

/-- The token the application has seen last. -/
def Note.told (told : Nat) : Note → Nat
  | .deliveryComplete false dt => dt
  | _ => told

/-- What an event takes out of the queue of the peer. -/
def taken : Event Link Move Note → List (Post Content)
  | ⟨_, _, .messageArrived true message true⟩ => [arrival message]
  | _ => []

/-! ## What a move does -/

section Moves
variable {l l' : Link} {told : Nat} {sent got : List (Post Content)}

theorem react_frame (l : Link) (side : Bool) (rest : List Packet) (r : Reaction) :
    ((l.read side rest).react side r).clients side =
        (if r.rc = .error then closeSession r.client else r.client) ∧
      ((l.read side rest).react side r).clients (!side) = l.clients (!side) ∧
      ((l.read side rest).react side r).written side = l.written side ++ r.sent ∧
      ((l.read side rest).react side r).written (!side) = rest := by
  simp [Link.react, Link.read, Link.setClient, Link.write]

theorem resend_frame (l : Link) (side : Bool) (r : Clients × List Packet) :
    (l.resend side r).clients side = r.1 ∧ (l.resend side r).clients (!side) = l.clients (!side) ∧
      (l.resend side r).written side = l.written side ++ r.2 ∧
      (l.resend side r).written (!side) = l.written (!side) := by
  simp [Link.resend, Link.setClient, Link.write]

theorem told_confirms_peer (told : Nat) (pack : Packet) :
    Note.told told (Link.confirms true pack) = told := by
  cases pack with
  | publish => rfl
  | ack ack =>
    obtain ⟨type, dup, msgId⟩ := ack
    cases type <;> rfl

end Moves

/-! ## What the client publishes -/

section Publishing
variable {l : Link} {topicName : CString} {payload : List Byte} {qos : Qos} {retained : Bool}
  {now : ℤ} {rc : Rc} {p : Publication}

theorem nextMsgId_ne (x : Nat) : nextMsgId x ≠ x ∧ nextMsgId x ≠ 0 := by
  unfold nextMsgId maxMsgId
  split <;> omega

/-- With nothing under way the next id is free. -/
theorem assignMsgId_empty {client : Clients} (h : client.outboundMsgs = []) :
    assignMsgId client =
      some (nextMsgId client.msgID, { client with msgID := nextMsgId client.msgID }) := by
  have hloop : assignLoop client maxMsgId (nextMsgId client.msgID) = some (nextMsgId client.msgID) := by
    rw [assignLoop.eq_def, h]
    rfl
  rw [assignMsgId, hloop, Option.map_some, if_pos (nextMsgId_ne _).2]

/-- The token is the new id, if there is one; and the message is on its way. -/
structure Published (l l' : Link) (quality : Quality) (c : Content) (token : Option Nat) : Prop where
  holds : Holds l'
  peer : l'.clients true = l.clients true
  idle : waiting (l.clients false).outboundMsgs = none
  token : if quality = .atMostOnce then token = none ∧
    (l'.clients false).msgID = (l.clients false).msgID else token = some (l'.clients false).msgID
  waits : quality ≠ .atMostOnce → waiting (l'.clients false).outboundMsgs ≠ none
  steps : ∀ told sent got,
    ReflTransGen Step (line l told sent got) (line l' told (sent ++ [⟨quality, c⟩]) got)

/-- A write that does not fail. -/
theorem publishWith_open {publish : Publish} {client : Clients}
    (hopen : (publishWith publish now rc client).client.connected = true) :
    publishWith publish now rc client =
      ⟨mqttclientSuccess, tokenOf publish, [.publish publish], startPublish publish now client⟩ := by
  unfold publishWith at hopen ⊢
  dsimp only at hopen ⊢
  split at hopen
  · rw [closed] at hopen
    cases hopen
  · rename_i hrc
    rw [if_neg hrc, Rc.written, if_neg hrc]
    rfl

/-- The only message that waits. -/
theorem start_empty (publish : Publish) {client : Clients} (hempty : client.outboundMsgs = [])
    (hne : publish.qos ≠ .atMostOnce) :
    startPublish publish now client =
      { client with outboundMsgs := [⟨publish.qos, publish.retain, publish.msgId, publish.topic,
        publish.payload, now, if publish.qos = .exactlyOnce then some .pubrec else none⟩] } := by
  rw [startPublish, if_neg hne, hempty]
  rfl

/-- The message is on its way. -/
theorem posted_moves (publish : Publish) {client' : Clients} {token : Option Nat} (h : Holds l)
    (hopen : client'.connected = true) (hfew : Few client')
    (hroom : client'.maxInflightMessages = (l.clients false).maxInflightMessages)
    (hidle : waiting (l.clients false).outboundMsgs = none)
    (htoken : if quality publish.qos = .atMostOnce then token = none ∧
      client'.msgID = (l.clients false).msgID else token = some client'.msgID)
    (hwaits : quality publish.qos ≠ .atMostOnce → waiting client'.outboundMsgs ≠ none)
    (hsteps : ∀ told held f b s g, ReflTransGen Step
      ⟨none, (l.clients false).msgID, told, held, f, b, s, g⟩
      ⟨waiting client'.outboundMsgs, client'.msgID, told, held,
        f ++ [Packet.publish publish].filterMap forth, b,
        s ++ [⟨quality publish.qos, publish.topic, publish.payload, publish.retain⟩], g⟩) :
    Published l ((l.setClient false client').write false [.publish publish]) (quality publish.qos)
      ⟨publish.topic, publish.payload, publish.retain⟩ token := by
  obtain ⟨hclient, hother, hsent, hrest⟩ := resend_frame l false (client', [.publish publish])
  change ((l.setClient false client').write false [.publish publish]).clients false = client'
    at hclient
  change ((l.setClient false client').write false [.publish publish]).clients true =
    l.clients true at hother
  change ((l.setClient false client').write false [.publish publish]).written false =
    l.written false ++ [.publish publish] at hsent
  change ((l.setClient false client').write false [.publish publish]).written true =
    l.written true at hrest
  refine ⟨⟨?_, ?_, ?_, ?_, ?_⟩, hother, hidle, ?_, ?_, fun told s g => ?_⟩
  · intro i
    cases i with
    | false =>
      rw [hclient]
      exact hopen
    | true =>
      rw [hother]
      exact h.connected true
  · rw [hclient]
    exact hfew
  · rw [hclient, hroom]
    exact h.room
  · rw [hother]
    exact h.holding
  · rw [hsent]
    intro p hp
    rcases List.mem_append.mp hp with hp | hp
    · exact h.plain p hp
    · rw [List.mem_singleton.mp hp]
      trivial
  · rw [hclient]
    exact htoken
  · rw [hclient]
    exact hwaits
  · unfold line
    rw [hclient, hother, hsent, hrest, hidle, List.filterMap_append]
    exact hsteps _ _ _ _ _ _

theorem published (h : Holds l) (hqos : qos ≠ .reserved)
    (hvalid : utf8ValidateString topicName [] = some true)
    (hp : mqttClientPublish topicName payload qos retained now rc (l.clients false) = some p)
    (hopen : p.client.connected = true) :
    Published l ((l.setClient false p.client).write false p.sent) (quality qos)
      ⟨topicName, payload, retained⟩ p.token := by
  have hempty (hlt : (l.clients false).outboundMsgs.length < (l.clients false).maxInflightMessages) :
      (l.clients false).outboundMsgs = [] := by
    rw [h.room] at hlt
    exact List.length_eq_zero_iff.mp (by omega)
  rcases publish_cases hp with ⟨-, hclosed | hinvalid | ⟨hlt, hassign⟩⟩ |
    ⟨hlt, ⟨rfl, rfl⟩ | ⟨hne, msgid, -, hassign, rfl⟩⟩
  · rw [h.connected false] at hclosed
    cases hclosed
  · rw [hvalid] at hinvalid
    cases hinvalid
  · rw [assignMsgId_empty (hempty hlt)] at hassign
    exact absurd (Prod.mk.inj (Option.some.inj hassign)).1 (nextMsgId_ne _).2
  · have hnil := hempty hlt
    have hstart : startPublish ⟨false, .atMostOnce, retained, topicName, 0, payload⟩ now
        (l.clients false) = l.clients false := if_pos rfl
    have hidle : waiting (l.clients false).outboundMsgs = none := by rw [hnil]; rfl
    rw [publishWith_open hopen, hstart]
    refine posted_moves ⟨false, .atMostOnce, retained, topicName, 0, payload⟩ h
      (h.connected false) h.few rfl hidle ⟨rfl, rfl⟩ (fun hne => (hne rfl).elim)
      fun told held f b s g => ?_
    rw [hidle]
    exact .single (.plain _)
  · have hnil := hempty hlt
    rw [assignMsgId_empty hnil] at hassign
    obtain rfl : nextMsgId (l.clients false).msgID = msgid :=
      (Prod.mk.inj (Option.some.inj hassign)).1
    obtain ⟨hfresh, hzero⟩ := nextMsgId_ne (l.clients false).msgID
    have hidle : waiting (l.clients false).outboundMsgs = none := by rw [hnil]; rfl
    have hassigned : ({ l.clients false with msgID := nextMsgId (l.clients false).msgID } :
        Clients).outboundMsgs = [] := hnil
    have heq := publishWith_open hopen
    rw [heq] at hopen ⊢
    cases qos with
    | atMostOnce => exact absurd rfl hne
    | reserved => exact absurd rfl hqos
    | atLeastOnce =>
      rw [start_empty ⟨false, .atLeastOnce, retained, topicName, _, payload⟩ hassigned hne] at hopen ⊢
      refine posted_moves ⟨false, .atLeastOnce, retained, topicName, _, payload⟩ h hopen
        ⟨le_refl 1, ?_⟩ rfl hidle rfl (fun _ => Option.some_ne_none _)
        fun told held f b s g => .single (.once _ _ hfresh hzero)
      intro m hm
      rw [List.mem_singleton.mp hm]
      exact .inl rfl
    | exactlyOnce =>
      rw [start_empty ⟨false, .exactlyOnce, retained, topicName, _, payload⟩ hassigned hne] at hopen ⊢
      refine posted_moves ⟨false, .exactlyOnce, retained, topicName, _, payload⟩ h hopen
        ⟨le_refl 1, ?_⟩ rfl hidle rfl (fun _ => Option.some_ne_none _)
        fun told held f b s g => .single (.data _ _ hfresh hzero)
      intro m hm
      rw [List.mem_singleton.mp hm]
      exact .inr ⟨rfl, .inl rfl⟩

end Publishing

end Hamster.Mqtt.Steady
