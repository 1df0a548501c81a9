import Hamster.Lib.StopAndWait
import Hamster.Mqtt.Connection
import Hamster.Mqtt.Outgoing

/-!
# A client with room for one message

What its packets and those of its peer say as long as the connection holds, and what each
function of the session does to that. The client is the one at the end `false`.
-/
namespace Hamster.Mqtt.Single

open Lib.Bytes Lib.Rows Lib.StopAndWait Mqtt.Session Mqtt.Exchange Mqtt.Outgoing Mqtt.Connection

/-- What of a publication the applications see. -/
structure Content where
  topic : CString
  payload : List Byte
  retain : Bool
  deriving DecidableEq

/-- The value that is not used counts for the first. -/
def quality : Qos → Quality
  | .atMostOnce | .reserved => .atMostOnce
  | .atLeastOnce => .atLeastOnce
  | .exactlyOnce => .exactlyOnce

def content (m : Messages) : Content := ⟨m.topic, m.payload, m.retain⟩

def arrival (q : QEntry) : Post Content := ⟨quality q.qos, q.topicName, q.payload, q.retained⟩

def opening (m : Messages) : Option (Open Content) :=
  match m.qos with
  | .atLeastOnce => some (.once m.msgid (content m))
  | .exactlyOnce =>
    if m.nextMessageType = some .pubcomp then some (.released m.msgid (content m))
    else some (.data m.msgid (content m))
  | .atMostOnce | .reserved => none

def waiting (outboundMsgs : List Messages) : Option (Open Content) := outboundMsgs.head?.bind opening

def storing (inboundMsgs : List Messages) : Option (Nat × Content) :=
  inboundMsgs.head?.map fun m => (m.msgid, content m)

def forth : Packet → Option (Forth Content)
  | .publish pack =>
    match pack.qos with
    | .atMostOnce => some (.plain ⟨pack.topic, pack.payload, pack.retain⟩)
    | .atLeastOnce => some (.once pack.msgId ⟨pack.topic, pack.payload, pack.retain⟩)
    | .exactlyOnce => some (.data pack.msgId ⟨pack.topic, pack.payload, pack.retain⟩)
    | .reserved => none
  | .ack pack => if pack.type = .pubrel then some (.release pack.msgId) else none

def back : Packet → Option Back
  | .publish _ => none
  | .ack pack =>
    match pack.type with
    | .puback => some (.acked pack.msgId)
    | .pubrec => some (.stored pack.msgId)
    | .pubcomp => some (.done pack.msgId)
    | .pubrel => none

/-- At most one message of QoS 1 or 2 waits, for what there is to wait for. -/
structure Few (client : Clients) : Prop where
  one : client.outboundMsgs.length ≤ 1
  kinds : ∀ m ∈ client.outboundMsgs, m.qos = .atLeastOnce ∨ m.qos = .exactlyOnce ∧
    (m.nextMessageType = some .pubrec ∨ m.nextMessageType = some .pubcomp)

/-- At most one message is held back. -/
structure Holding (peer : Clients) : Prop where
  one : peer.inboundMsgs.length ≤ 1
  kinds : ∀ m ∈ peer.inboundMsgs, m.qos = .exactlyOnce ∧ m.nextMessageType = some .pubrel

section One
variable {ms : List Messages}

theorem nil_or_single (h : ms.length ≤ 1) : ms = [] ∨ ∃ m, ms = [m] := by
  cases ms with
  | nil => exact .inl rfl
  | cons m ms =>
    cases ms with
    | nil => exact .inr ⟨m, rfl⟩
    | cons m' ms =>
      rw [List.length_cons, List.length_cons] at h
      omega

end One

section Peer
variable {peer : Clients} {pack : Packet} {rc : Rc} {now : ℤ}

/-- What a reaction does for the receiver. -/
structure Heard (peer : Clients) (pack : Packet) (r : Reaction) : Prop where
  holding : Holding r.client
  hears : ∃ q, r.client.messageQueue = peer.messageQueue ++ q ∧
    Hears (forth pack) (storing peer.inboundMsgs) (storing r.client.inboundMsgs)
      (r.sent.filterMap back) (q.map arrival)

theorem sendAck_of_ne {type : AckType} {msgId : Nat} (h : rc ≠ .error) :
    sendAck type msgId rc = [.ack ⟨type, false, msgId⟩] := if_neg h

theorem unheard {r : Reaction} (h : Holding peer) (hpack : forth pack = none)
    (hinbound : r.client.inboundMsgs = peer.inboundMsgs)
    (hqueue : r.client.messageQueue = peer.messageQueue) (hsent : r.sent.filterMap back = []) :
    Heard peer pack r := by
  refine ⟨⟨by rw [hinbound]; exact h.one, by rw [hinbound]; exact h.kinds⟩, [], ?_, ?_⟩
  · rw [hqueue, List.append_nil]
  · rw [hpack, hinbound, hsent]
    exact .other _

/-- In place of the message that is there, or as the first. -/
theorem store_single (h : Holding peer) {publish : Publish}
    (hroom : ∀ m ∈ peer.inboundMsgs, m.msgid = publish.msgId) :
    storePublication peer publish = [inboundMessage publish] := by
  unfold storePublication
  rcases nil_or_single h.one with hnil | ⟨m, hm⟩
  · rw [hnil]
    rfl
  · have hid : hasId publish.msgId m = true :=
      hasId_iff.mpr (hroom m (by rw [hm]; exact List.mem_singleton.mpr rfl))
    rw [hm, List.any_cons, hid, Bool.true_or, if_pos rfl, patchFirst_cons_of_pos hid]

theorem publishes_heard (h : Holding peer) {publish : Publish}
    (hrc : (handlePublishes rc peer publish).rc ≠ .error)
    (hroom : ∀ x c, forth (.publish publish) = some (.data x c) →
      ∀ m ∈ peer.inboundMsgs, m.msgid = x) :
    Heard peer (.publish publish) (handlePublishes rc peer publish) := by
  unfold handlePublishes at hrc ⊢
  cases hqos : publish.qos with
  | atMostOnce =>
    have hforth : forth (.publish publish) =
        some (.plain ⟨publish.topic, publish.payload, publish.retain⟩) := by rw [forth, hqos]
    refine ⟨⟨h.one, h.kinds⟩, _, rfl, ?_⟩
    rw [hforth, List.map_singleton, arrival, hqos]
    exact .plain _ _
  | atLeastOnce =>
    rw [hqos] at hrc
    have hforth : forth (.publish publish) =
        some (.once publish.msgId ⟨publish.topic, publish.payload, publish.retain⟩) := by
      rw [forth, hqos]
    refine ⟨⟨h.one, h.kinds⟩, _, rfl, ?_⟩
    dsimp only
    rw [hforth, List.map_singleton, arrival, hqos, sendAck_of_ne hrc]
    exact .once _ _ _
  | exactlyOnce =>
    rw [hqos] at hrc
    have hforth : forth (.publish publish) =
        some (.data publish.msgId ⟨publish.topic, publish.payload, publish.retain⟩) := by
      rw [forth, hqos]
    have hstore := store_single h (hroom _ _ hforth)
    refine ⟨⟨?_, ?_⟩, [], (List.append_nil _).symm, ?_⟩
    · show (storePublication peer publish).length ≤ 1
      rw [hstore]
      exact le_refl 1
    · show ∀ m ∈ storePublication peer publish, _
      rw [hstore]
      intro m hm
      rw [List.mem_singleton.mp hm]
      exact ⟨hqos, rfl⟩
    · dsimp only
      rw [hforth, hstore, sendAck_of_ne hrc]
      exact .data _ _ _
  | reserved =>
    exact unheard h (by rw [forth, hqos]) rfl rfl rfl

theorem pubrels_heard (h : Holding peer) {msgId : Nat}
    (hrc : (handlePubrels rc peer ⟨.pubrel, false, msgId⟩).rc ≠ .error) :
    Heard peer (.ack ⟨.pubrel, false, msgId⟩) (handlePubrels rc peer ⟨.pubrel, false, msgId⟩) := by
  have hstray (hnone : ∀ c, storing peer.inboundMsgs ≠ some (msgId, c)) :
      Heard peer (.ack ⟨.pubrel, false, msgId⟩) (ignored peer) :=
    ⟨h, [], (List.append_nil _).symm, .stray msgId hnone⟩
  unfold handlePubrels at hrc ⊢
  rcases nil_or_single h.one with hnil | ⟨m, hm⟩
  · have hfind : peer.inboundMsgs.find? (hasId msgId) = none := by rw [hnil]; rfl
    rw [hfind]
    refine hstray fun c => ?_
    rw [hnil]
    exact nofun
  · obtain ⟨hqos, hnext⟩ := h.kinds m (by rw [hm]; exact List.mem_singleton.mpr rfl)
    by_cases hid : m.msgid = msgId
    · have hfind : peer.inboundMsgs.find? (hasId msgId) = some m := by
        rw [hm]
        exact List.find?_cons_of_pos (hasId_iff.mpr hid)
      have herase : peer.inboundMsgs.eraseP (hasId msgId) = [] := by
        rw [hm]
        exact List.eraseP_cons_of_pos (hasId_iff.mpr hid)
      rw [hfind] at hrc ⊢
      dsimp only at hrc ⊢
      rw [if_neg (fun hne => hne hqos), if_neg (fun hne => hne hnext)] at hrc ⊢
      refine ⟨⟨?_, ?_⟩, _, rfl, ?_⟩
      · show (peer.inboundMsgs.eraseP (hasId msgId)).length ≤ 1
        rw [herase]
        exact Nat.zero_le 1
      · show ∀ m ∈ peer.inboundMsgs.eraseP (hasId msgId), _
        rw [herase]
        exact fun m hm => nomatch hm
      · show Hears _ _ (storing (peer.inboundMsgs.eraseP (hasId msgId))) _ _
        dsimp only
        rw [herase, hm, sendAck_of_ne hrc, List.map_singleton, arrival, hqos]
        subst hid
        exact .handOver _ _
    · have hfind : peer.inboundMsgs.find? (hasId msgId) = none := by
        rw [hm]
        exact List.find?_cons_of_neg fun h => hid (hasId_iff.mp h)
      rw [hfind]
      refine hstray fun c => ?_
      rw [hm]
      exact fun heq => hid (Prod.mk.inj (Option.some.inj heq)).1

end Peer

/-- The token of which the application is told. -/
def tell : Packet → Option Nat
  | .publish _ => none
  | .ack pack =>
    match pack.type with
    | .puback | .pubcomp => some pack.msgId
    | .pubrec | .pubrel => none

section Client
variable {client : Clients} {pack : Packet} {rc : Rc} {now : ℤ} {m : Messages}

/-- What a reaction does for the sender. -/
structure Learnt (client : Clients) (pack : Packet) (r : Reaction) : Prop where
  few : Few r.client
  room : r.client.maxInflightMessages = client.maxInflightMessages
  msgID : r.client.msgID = client.msgID
  learns : Learns (back pack) (waiting client.outboundMsgs) (waiting r.client.outboundMsgs)
    (tell pack) (r.sent.filterMap forth)

theorem waiting_single (m : Messages) : waiting [m] = opening m := rfl

theorem find_single_of_ne {x : Nat} (h : m.msgid ≠ x) : [m].find? (hasId x) = none :=
  List.find?_cons_of_neg fun hid => h (hasId_iff.mp hid)

theorem find_single {x : Nat} (h : m.msgid = x) : [m].find? (hasId x) = some m :=
  List.find?_cons_of_pos (hasId_iff.mpr h)

theorem erase_single {x : Nat} (h : m.msgid = x) : [m].eraseP (hasId x) = [] :=
  List.eraseP_cons_of_pos (hasId_iff.mpr h)

/-- The message that waits, and its id. -/
theorem opening_id (hkind : m.qos = .atLeastOnce ∨ m.qos = .exactlyOnce) :
    opening m = some (.once m.msgid (content m)) ∧ m.qos = .atLeastOnce ∨
    opening m = some (.released m.msgid (content m)) ∧ m.qos = .exactlyOnce ∧
      m.nextMessageType = some .pubcomp ∨
    opening m = some (.data m.msgid (content m)) ∧ m.qos = .exactlyOnce ∧
      m.nextMessageType ≠ some .pubcomp := by
  rcases hkind with hqos | hqos
  · exact .inl ⟨by rw [opening, hqos], hqos⟩
  · by_cases hnext : m.nextMessageType = some .pubcomp
    · refine .inr (.inl ⟨?_, hqos, hnext⟩)
      rw [opening, hqos]
      exact if_pos hnext
    · refine .inr (.inr ⟨?_, hqos, hnext⟩)
      rw [opening, hqos]
      exact if_neg hnext

/-- A message with another id waits for other answers. -/
theorem waiting_other {x : Nat} (hid : m.msgid ≠ x) (c : Content) : waiting [m] ≠ some (.once x c) ∧
    waiting [m] ≠ some (.data x c) ∧ waiting [m] ≠ some (.released x c) := by
  rw [waiting_single, opening]
  cases m.qos with
  | atMostOnce | reserved => simp
  | atLeastOnce => simp [hid]
  | exactlyOnce => by_cases hnext : m.nextMessageType = some .pubcomp <;> simp [hid, hnext]

theorem pubacks_learnt (h : Few client) (dup : Bool) (msgId : Nat) :
    Learnt client (.ack ⟨.puback, dup, msgId⟩) (handlePubacks client ⟨.puback, dup, msgId⟩) := by
  -- nothing waits for this `PUBACK`
  have hlate (hnone : ∀ c, waiting client.outboundMsgs ≠ some (.once msgId c)) :
      Learnt client (.ack ⟨.puback, dup, msgId⟩) (ignored client) :=
    ⟨h, rfl, rfl, .lateAcked msgId hnone⟩
  unfold handlePubacks
  rcases nil_or_single h.one with hnil | ⟨m, hm⟩
  · rw [hnil]
    exact hlate fun c => by rw [hnil]; exact nofun
  · obtain hkind := h.kinds m (by rw [hm]; exact List.mem_singleton.mpr rfl)
    rw [hm]
    dsimp only
    by_cases hid : m.msgid = msgId
    · rw [find_single hid]
      dsimp only
      rcases opening_id (hkind.imp_right And.left) with ⟨hopening, hqos⟩ | ⟨hopening, hqos, -⟩ |
        ⟨hopening, hqos, -⟩
      · rw [if_neg (fun hne => hne hqos), erase_single hid]
        refine ⟨⟨Nat.zero_le 1, fun m hm => nomatch hm⟩, rfl, rfl, ?_⟩
        rw [hm, waiting_single, hopening]
        subst hid
        exact .acked _ _
      · rw [if_pos (by rw [hqos]; decide)]
        exact hlate fun c => by rw [hm, waiting_single, hopening]; exact nofun
      · rw [if_pos (by rw [hqos]; decide)]
        exact hlate fun c => by rw [hm, waiting_single, hopening]; exact nofun
    · rw [find_single_of_ne hid]
      exact hlate fun c => by rw [hm]; exact (waiting_other hid c).1

theorem pubrecs_learnt (h : Few client) {dup : Bool} {msgId : Nat}
    (hrc : (handlePubrecs rc client now ⟨.pubrec, dup, msgId⟩).rc ≠ .error) :
    Learnt client (.ack ⟨.pubrec, dup, msgId⟩) (handlePubrecs rc client now ⟨.pubrec, dup, msgId⟩) := by
  -- nothing waits for this `PUBREC`
  have hlate (hnone : ∀ c, waiting client.outboundMsgs ≠ some (.data msgId c)) :
      Learnt client (.ack ⟨.pubrec, dup, msgId⟩) (ignored client) :=
    ⟨h, rfl, rfl, .lateStored msgId hnone⟩
  unfold handlePubrecs at hrc ⊢
  rcases nil_or_single h.one with hnil | ⟨m, hm⟩
  · rw [hnil]
    exact hlate fun c => by rw [hnil]; exact nofun
  · have hkind := h.kinds m (by rw [hm]; exact List.mem_singleton.mpr rfl)
    rw [hm] at hrc ⊢
    dsimp only at hrc ⊢
    by_cases hid : m.msgid = msgId
    · rw [find_single hid] at hrc ⊢
      dsimp only at hrc ⊢
      rcases opening_id (hkind.imp_right And.left) with ⟨hopening, hqos⟩ |
        ⟨hopening, hqos, hnext⟩ | ⟨hopening, hqos, hnext⟩
      · rw [if_pos (by rw [hqos]; decide)]
        exact hlate fun c => by rw [hm, waiting_single, hopening]; exact nofun
      · rw [if_neg (fun hne => hne hqos), if_pos (by rw [hnext]; decide)]
        exact hlate fun c => by rw [hm, waiting_single, hopening]; exact nofun
      · obtain hwaits : m.nextMessageType = some .pubrec := by
          rcases hkind with hkind | ⟨-, hwaits | hwaits⟩
          · rw [hqos] at hkind
            cases hkind
          · exact hwaits
          · exact absurd hwaits hnext
        rw [if_neg (fun hne => hne hqos), if_neg (fun hne => hne hwaits)] at hrc ⊢
        rw [patchFirst_cons_of_pos (hasId_iff.mpr hid)]
        refine ⟨⟨le_refl 1, fun m' hm' => ?_⟩, rfl, rfl, ?_⟩
        · rw [List.mem_singleton.mp hm']
          exact .inr ⟨hqos, .inr rfl⟩
        · have hreleased : waiting [awaitPubcomp now m] = some (.released m.msgid (content m)) := by
            rw [waiting_single, opening, show (awaitPubcomp now m).qos = .exactlyOnce from hqos]
            rfl
          show Learns _ (waiting client.outboundMsgs) (waiting [awaitPubcomp now m]) _ _
          rw [hreleased, hm, waiting_single, hopening]
          dsimp only
          rw [sendAck_of_ne hrc]
          subst hid
          exact .stored _ _
    · rw [find_single_of_ne hid]
      exact hlate fun c => by rw [hm]; exact (waiting_other hid c).2.1

theorem pubcomps_learnt (h : Few client) (dup : Bool) (msgId : Nat) :
    Learnt client (.ack ⟨.pubcomp, dup, msgId⟩) (handlePubcomps client ⟨.pubcomp, dup, msgId⟩) := by
  -- nothing waits for this `PUBCOMP`
  have hlate (hnone : ∀ c, waiting client.outboundMsgs ≠ some (.released msgId c)) :
      Learnt client (.ack ⟨.pubcomp, dup, msgId⟩) (ignored client) :=
    ⟨h, rfl, rfl, .lateDone msgId hnone⟩
  unfold handlePubcomps
  rcases nil_or_single h.one with hnil | ⟨m, hm⟩
  · rw [hnil]
    exact hlate fun c => by rw [hnil]; exact nofun
  · have hkind := h.kinds m (by rw [hm]; exact List.mem_singleton.mpr rfl)
    rw [hm]
    dsimp only
    by_cases hid : m.msgid = msgId
    · rw [find_single hid]
      dsimp only
      rcases opening_id (hkind.imp_right And.left) with ⟨hopening, hqos⟩ |
        ⟨hopening, hqos, hnext⟩ | ⟨hopening, hqos, hnext⟩
      · rw [if_pos (by rw [hqos]; decide)]
        exact hlate fun c => by rw [hm, waiting_single, hopening]; exact nofun
      · rw [if_neg (fun hne => hne hqos), if_neg (fun hne => hne hnext), erase_single hid]
        refine ⟨⟨Nat.zero_le 1, fun m hm => nomatch hm⟩, rfl, rfl, ?_⟩
        rw [hm, waiting_single, hopening]
        subst hid
        exact .done _ _
      · rw [if_neg (fun hne => hne hqos), if_pos hnext]
        exact hlate fun c => by rw [hm, waiting_single, hopening]; exact nofun
    · rw [find_single_of_ne hid]
      exact hlate fun c => by rw [hm]; exact (waiting_other hid c).2.2

end Client

end Hamster.Mqtt.Single
