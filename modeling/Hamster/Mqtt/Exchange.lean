import Hamster.Lib.Handshake
import Hamster.Mqtt.Session

/-!
# The exchange of one message id

What a client and its packets say about the QoS 2 messages with one id, and what each
function of the session does to that.
-/
namespace Hamster.Mqtt.Exchange

open Lib.Bytes Lib.Handshake Lib.Rows Mqtt.Session

/-! ## What is exchanged -/

/-- What of a publication reaches the other application. -/
structure Letter where
  msgid : Nat
  topic : CString
  payload : List Byte
  retain : Bool
  deriving DecidableEq

def letter (m : Messages) : Letter := ⟨m.msgid, m.topic, m.payload, m.retain⟩

def arrival (q : QEntry) : Option Letter :=
  if q.qos = .exactlyOnce then some ⟨q.msgid, q.topicName, q.payload, q.retained⟩ else none

def offering (m : Messages) : Option (Letter × Bool) :=
  if m.qos = .exactlyOnce then some (letter m, m.nextMessageType = some .pubcomp) else none

def offered (x : Nat) (outboundMsgs : List Messages) : Option (Letter × Bool) :=
  (outboundMsgs.find? (hasId x)).bind offering

def held (x : Nat) (inboundMsgs : List Messages) : Option Letter :=
  (inboundMsgs.find? (hasId x)).map letter

def forth (x : Nat) : Packet → Option (Forth Letter)
  | .publish pack =>
    if pack.qos = .exactlyOnce ∧ pack.msgId = x then
      some (.data ⟨x, pack.topic, pack.payload, pack.retain⟩)
    else none
  | .ack pack => if pack.type = .pubrel ∧ pack.msgId = x then some .release else none

def back (x : Nat) : Packet → Option Back
  | .publish _ => none
  | .ack pack =>
    if pack.msgId = x then
      match pack.type with
      | .pubrec => some .stored
      | .pubcomp => some .done
      | _ => none
    else none

/-- No acknowledgement is marked as a duplicate. -/
def Plain : Packet → Prop
  | .publish _ => True
  | .ack pack => pack.dup = false

/-- The ids on a list are different; what is kept for a message of QoS 2 is what it waits for. -/
structure Tidy (client : Clients) : Prop where
  keeps : client.cleansession = false
  outbound : (client.outboundMsgs.map (·.msgid)).Nodup
  inbound : (client.inboundMsgs.map (·.msgid)).Nodup
  known : ∀ m ∈ client.outboundMsgs, m.qos ≠ .reserved
  waits : ∀ m ∈ client.outboundMsgs, m.qos = .exactlyOnce →
    m.nextMessageType = some .pubrec ∨ m.nextMessageType = some .pubcomp
  holds : ∀ m ∈ client.inboundMsgs, m.qos = .exactlyOnce ∧ m.nextMessageType = some .pubrel

/-! ## Lists of messages -/

section Lists
variable {x y : Nat} {m : Messages} {ms : List Messages}

theorem hasId_iff : hasId x m = true ↔ m.msgid = x := decide_eq_true_iff

theorem hasId_of_ne (h : hasId y m = true) (hne : x ≠ y) : hasId x m = false := by
  rw [hasId_iff] at h
  exact decide_eq_false fun hx => hne (hx.symm.trans h)

theorem msgid_of_find (h : ms.find? (hasId x) = some m) : m.msgid = x :=
  hasId_iff.mp (List.find?_some h)

theorem find_of_mem (h : (ms.map (·.msgid)).Nodup) (hm : m ∈ ms) :
    ms.find? (hasId m.msgid) = some m := by
  induction ms with
  | nil => exact nomatch hm
  | cons m' ms ih =>
    rw [List.map_cons, List.nodup_cons] at h
    rcases List.mem_cons.mp hm with rfl | hm
    · exact List.find?_cons_of_pos (hasId_iff.mpr rfl)
    · have hne : ¬hasId m.msgid m' = true := fun hid =>
        h.1 (List.mem_map.mpr ⟨m, hm, (hasId_iff.mp hid).symm⟩)
      rw [List.find?_cons_of_neg hne, ih h.2 hm]

theorem find_of_any (h : ms.any (hasId x) = false) : ms.find? (hasId x) = none := by
  rw [List.find?_eq_none]
  exact List.any_eq_false.mp h

/-- A patch that keeps the ids. -/
theorem ids_patch {f : Messages → Messages} (hf : ∀ m, hasId y m = true → (f m).msgid = y) :
    (patchFirst (hasId y) f ms).map (·.msgid) = ms.map (·.msgid) := by
  induction ms with
  | nil => rfl
  | cons m ms ih =>
    cases hy : hasId y m with
    | true =>
      rw [patchFirst_cons_of_pos hy, List.map_cons, List.map_cons, hf m hy, hasId_iff.mp hy]
    | false => rw [patchFirst_cons_of_neg hy, List.map_cons, List.map_cons, ih]

theorem forall_mem_patch {P : Messages → Prop} {f : Messages → Messages} (h : ∀ m ∈ ms, P m)
    (hf : ∀ m ∈ ms, hasId y m = true → P (f m)) : ∀ m ∈ patchFirst (hasId y) f ms, P m := by
  induction ms with
  | nil => exact h
  | cons m ms ih =>
    rw [List.forall_mem_cons] at h
    rw [List.forall_mem_cons] at hf
    cases hy : hasId y m with
    | true =>
      rw [patchFirst_cons_of_pos hy, List.forall_mem_cons]
      exact ⟨hf.1 hy, h.2⟩
    | false =>
      rw [patchFirst_cons_of_neg hy, List.forall_mem_cons]
      exact ⟨h.1, ih h.2 hf.2⟩

/-- Where the message was there is none with its id any more. -/
theorem find_eraseP_self (h : (ms.map (·.msgid)).Nodup) :
    (ms.eraseP (hasId x)).find? (hasId x) = none := by
  induction ms with
  | nil => rfl
  | cons m ms ih =>
    rw [List.map_cons, List.nodup_cons] at h
    by_cases hx : hasId x m = true
    · rw [List.eraseP_cons_of_pos hx, List.find?_eq_none]
      intro m' hm' hx'
      rw [hasId_iff] at hx hx'
      exact h.1 (List.mem_map.mpr ⟨m', hm', hx'.trans hx.symm⟩)
    · rw [List.eraseP_cons_of_neg hx, List.find?_cons_of_neg hx]
      exact ih h.2

theorem find_eraseP_of_ne (h : x ≠ y) :
    (ms.eraseP (hasId y)).find? (hasId x) = ms.find? (hasId x) := by
  induction ms with
  | nil => rfl
  | cons m ms ih =>
    by_cases hy : hasId y m = true
    · rw [List.eraseP_cons_of_pos hy, List.find?_cons_of_neg (by rw [hasId_of_ne hy h]; simp)]
    · rw [List.eraseP_cons_of_neg hy, List.find?_cons, List.find?_cons, ih]

theorem find_replaced (hid : hasId x m = true) (h : ms.any (hasId x) = true) :
    (patchFirst (hasId x) (fun _ => m) ms).find? (hasId x) = some m := by
  induction ms with
  | nil => exact nomatch h
  | cons m' ms ih =>
    cases hx : hasId x m' with
    | true => rw [patchFirst_cons_of_pos hx, List.find?_cons_of_pos hid]
    | false =>
      rw [List.any_cons, hx, Bool.false_or] at h
      rw [patchFirst_cons_of_neg hx, List.find?_cons_of_neg (by rw [hx]; simp), ih h]

theorem find_patch_of_ne {f : Messages → Messages} (hf : ∀ m, hasId y m = true → (f m).msgid = y)
    (h : x ≠ y) : (patchFirst (hasId y) f ms).find? (hasId x) = ms.find? (hasId x) :=
  find?_patchFirst fun m _ hm => ⟨hasId_of_ne hm h, hasId_of_ne (hasId_iff.mpr (hf m hm)) h⟩

end Lists

/-! ## What is written -/

section Written
variable {ε : Type} {f : Packet → Option ε} {pack : Packet}

theorem written_sublist (f : Packet → Option ε) (pack : Packet) (rc : Rc) : ((rc.written pack).filterMap f).Sublist (f pack).toList := by
  unfold Rc.written
  split
  · exact List.nil_sublist _
  · cases hf : f pack with
    | none => rw [List.filterMap_cons_none hf]; exact List.nil_sublist _
    | some e => rw [List.filterMap_cons_some hf]; exact List.Sublist.refl _

theorem written_none (h : f pack = none) (rc : Rc) : (rc.written pack).filterMap f = [] := by
  have hsub := written_sublist f pack rc
  rw [h] at hsub
  exact List.sublist_nil.mp hsub

theorem plain_written (h : Plain pack) (rc : Rc) : ∀ p ∈ rc.written pack, Plain p := by
  unfold Rc.written
  split
  · exact fun p hp => nomatch hp
  · intro p hp
    rw [List.mem_singleton.mp hp]
    exact h

end Written

/-! ## The receiver -/

section Receiver
variable {client : Clients} {x : Nat}

theorem id_inbound (publish : Publish) (m : Messages) (_ : hasId publish.msgId m = true) :
    (inboundMessage publish).msgid = publish.msgId := rfl

theorem held_store (publish : Publish) (x : Nat) :
    held x (storePublication client publish) =
      if publish.msgId = x then some ⟨x, publish.topic, publish.payload, publish.retain⟩
      else held x client.inboundMsgs := by
  unfold storePublication held
  by_cases hx : publish.msgId = x
  · rw [if_pos hx]
    subst hx
    have hid : hasId publish.msgId (inboundMessage publish) = true := hasId_iff.mpr rfl
    split
    · rename_i hany
      rw [find_replaced hid hany]
      rfl
    · rename_i hany
      rw [List.find?_append, find_of_any (Bool.eq_false_iff.mpr hany), Option.none_or,
        List.find?_cons_of_pos hid]
      rfl
  · have hid : hasId x (inboundMessage publish) = false := decide_eq_false hx
    rw [if_neg hx]
    split
    · rw [find_patch_of_ne (id_inbound publish) (Ne.symm hx)]
    · rw [find?_append_of_neg hid]

theorem ids_store (publish : Publish) (h : (client.inboundMsgs.map (·.msgid)).Nodup) :
    ((storePublication client publish).map (·.msgid)).Nodup := by
  unfold storePublication
  split
  · rwa [ids_patch (id_inbound publish)]
  · rename_i hany
    rw [List.map_append, List.nodup_append]
    refine ⟨h, List.nodup_singleton _, ?_⟩
    intro y hy z hz hyz
    obtain ⟨m, hm, rfl⟩ := List.mem_map.mp hy
    obtain rfl := List.mem_singleton.mp hz
    exact hany (List.any_eq_true.mpr ⟨m, hm, hasId_iff.mpr hyz⟩)

theorem holds_store {publish : Publish} (hqos : publish.qos = .exactlyOnce)
    (h : ∀ m ∈ client.inboundMsgs, m.qos = .exactlyOnce ∧ m.nextMessageType = some .pubrel) :
    ∀ m ∈ storePublication client publish,
      m.qos = .exactlyOnce ∧ m.nextMessageType = some .pubrel := by
  unfold storePublication
  split
  · exact forall_mem_patch h fun _ _ _ => ⟨hqos, rfl⟩
  · intro m hm
    rcases List.mem_append.mp hm with hm | hm
    · exact h m hm
    · rw [List.mem_singleton.mp hm]
      exact ⟨hqos, rfl⟩

/-- What concerns the receiver stays. -/
structure KeepsInbound (client : Clients) (r : Reaction) : Prop where
  inbound : r.client.inboundMsgs = client.inboundMsgs
  queue : r.client.messageQueue = client.messageQueue
  sent : ∀ x, r.sent.filterMap (back x) = []

theorem pubacks_keep (puback : Ack) : KeepsInbound client (handlePubacks client puback) := by
  unfold handlePubacks
  split
  · exact ⟨rfl, rfl, fun _ => rfl⟩
  · split
    · exact ⟨rfl, rfl, fun _ => rfl⟩
    · exact ⟨rfl, rfl, fun _ => rfl⟩

theorem back_pubrel (x : Nat) (dup : Bool) (msgId : Nat) :
    back x (.ack ⟨.pubrel, dup, msgId⟩) = none := by
  simp [back]

theorem pubrecs_keep (rc : Rc) (now : ℤ) (pubrec : Ack) :
    KeepsInbound client (handlePubrecs rc client now pubrec) := by
  unfold handlePubrecs
  split
  · exact ⟨rfl, rfl, fun _ => rfl⟩
  · split
    · exact ⟨rfl, rfl, fun _ => rfl⟩
    · split
      · exact ⟨rfl, rfl, fun _ => rfl⟩
      · exact ⟨rfl, rfl, fun x => written_none (back_pubrel ..) rc⟩

theorem pubcomps_keep (pubcomp : Ack) : KeepsInbound client (handlePubcomps client pubcomp) := by
  unfold handlePubcomps
  split
  · exact ⟨rfl, rfl, fun _ => rfl⟩
  · split
    · exact ⟨rfl, rfl, fun _ => rfl⟩
    · split
      · exact ⟨rfl, rfl, fun _ => rfl⟩
      · exact ⟨rfl, rfl, fun _ => rfl⟩

/-- What a reaction does for the receiver. -/
def Heard (client : Clients) (pack : Packet) (r : Reaction) : Prop :=
  ∃ q, r.client.messageQueue = client.messageQueue ++ q ∧
    ∀ x, Hears (forth x pack) (held x client.inboundMsgs) (held x r.client.inboundMsgs)
      (r.sent.filterMap (back x)) ((q.filterMap arrival).filter (·.msgid = x))

theorem KeepsInbound.heard {r : Reaction} {pack : Packet} (h : KeepsInbound client r)
    (hpack : ∀ x, forth x pack = none) : Heard client pack r := by
  refine ⟨[], by rw [h.queue, List.append_nil], fun x => ?_⟩
  rw [hpack x, h.inbound, h.sent x]
  exact .other _

theorem forth_of_qos {publish : Publish} (h : publish.qos ≠ .exactlyOnce) (x : Nat) :
    forth x (.publish publish) = none := if_neg fun hx => h hx.1

theorem arrival_of_qos {q : QEntry} (h : q.qos ≠ .exactlyOnce) : arrival q = none := if_neg h

/-- Below QoS 2 what is handed over does not count. -/
theorem lesser_heard {publish : Publish} (h : publish.qos ≠ .exactlyOnce) {sent : List Packet}
    (hsent : ∀ x, sent.filterMap (back x) = []) (rc : Rc) :
    Heard client (.publish publish) ⟨processPublication publish client, sent, rc⟩ := by
  refine ⟨_, rfl, fun x => ?_⟩
  rw [forth_of_qos h, List.filterMap_cons_none (arrival_of_qos h), hsent]
  exact .other _

theorem publishes_heard (rc : Rc) (publish : Publish) :
    Heard client (.publish publish) (handlePublishes rc client publish) := by
  unfold handlePublishes
  split
  · rename_i hqos
    exact lesser_heard (by rw [hqos]; decide) (fun _ => rfl) _
  · rename_i hqos
    refine lesser_heard (by rw [hqos]; decide) (fun x => written_none ?_ rc) _
    simp [back]
  · rename_i hqos
    refine ⟨[], (List.append_nil _).symm, fun x => ?_⟩
    dsimp only
    rw [held_store]
    by_cases hx : publish.msgId = x
    · have hforth : forth x (.publish publish) =
          some (.data ⟨x, publish.topic, publish.payload, publish.retain⟩) := if_pos ⟨hqos, hx⟩
      have hback : back x (.ack ⟨.pubrec, false, publish.msgId⟩) = some .stored := by simp [back, hx]
      have hsent := written_sublist (back x) (.ack ⟨.pubrec, false, publish.msgId⟩) rc
      rw [hback] at hsent
      rw [hforth, if_pos hx]
      exact .data _ _ hsent
    · have hforth : forth x (.publish publish) = none := if_neg fun h => hx h.2
      have hback : back x (.ack ⟨.pubrec, false, publish.msgId⟩) = none := if_neg hx
      rw [hforth, if_neg hx, sendAck, written_none hback]
      exact .other _
  · rename_i hqos
    refine KeepsInbound.heard ⟨rfl, rfl, fun _ => rfl⟩ (forth_of_qos ?_)
    rw [hqos]
    decide

theorem pubrels_heard (h : Tidy client) (rc : Rc) {msgId : Nat} :
    Heard client (.ack ⟨.pubrel, false, msgId⟩) (handlePubrels rc client ⟨.pubrel, false, msgId⟩) := by
  have hforth (x : Nat) : forth x (.ack ⟨.pubrel, false, msgId⟩) =
      if msgId = x then some .release else none := by simp [forth]
  unfold handlePubrels
  cases hfind : client.inboundMsgs.find? (hasId msgId) with
  | none =>
    refine ⟨[], (List.append_nil _).symm, fun x => ?_⟩
    rw [hforth]
    by_cases hx : msgId = x
    · subst hx
      have hheld : held msgId client.inboundMsgs = none := by rw [held, hfind]; rfl
      change Hears _ _ (held msgId client.inboundMsgs) [] []
      rw [if_pos rfl, hheld]
      exact .stray
    · rw [if_neg hx]
      exact .other _
  | some m =>
    obtain ⟨hqos, hnext⟩ := h.holds m (List.mem_of_find?_eq_some hfind)
    have hid := msgid_of_find hfind
    dsimp only
    rw [if_neg (fun hne => hne hqos), if_neg (fun hne => hne hnext)]
    refine ⟨_, rfl, fun x => ?_⟩
    have harrival : arrival ⟨m.topic, m.payload, m.qos, m.retain,
        if m.qos = .exactlyOnce then false else false, m.msgid⟩ = some (letter m) := if_pos hqos
    change Hears _ _ (held x (client.inboundMsgs.eraseP (hasId msgId))) _ _
    rw [hforth, List.filterMap_cons_some harrival, List.filterMap_nil]
    by_cases hx : msgId = x
    · subst hx
      have hback : back msgId (.ack ⟨.pubcomp, false, msgId⟩) = some .done := by simp [back]
      have hsent := written_sublist (back msgId) (.ack ⟨.pubcomp, false, msgId⟩) rc
      rw [hback] at hsent
      have hheld : held msgId client.inboundMsgs = some (letter m) := by rw [held, hfind]; rfl
      have hgone : held msgId (client.inboundMsgs.eraseP (hasId msgId)) = none := by
        rw [held, find_eraseP_self h.inbound]
        rfl
      have hthis : [letter m].filter (·.msgid = msgId) = [letter m] := by
        simpa [letter] using hid
      rw [if_pos rfl, hheld, hgone, hthis]
      exact .release _ hsent
    · have hback : back x (.ack ⟨.pubcomp, false, msgId⟩) = none := if_neg hx
      have hstays : held x (client.inboundMsgs.eraseP (hasId msgId)) = held x client.inboundMsgs := by
        rw [held, find_eraseP_of_ne (Ne.symm hx), held]
      have hother : [letter m].filter (·.msgid = x) = [] := by
        simpa [letter, hid] using hx
      change Hears _ _ _ ((sendAck .pubcomp msgId rc).filterMap (back x)) _
      rw [if_neg hx, hstays, hother, sendAck, written_none hback]
      exact .other _

theorem handle_heard (h : Tidy client) {pack : Packet} (hp : Plain pack) (rc : Rc) (now : ℤ) :
    Heard client pack (handle rc client now pack) := by
  cases pack with
  | publish publish => exact publishes_heard rc publish
  | ack ack =>
    obtain ⟨type, dup, msgId⟩ := ack
    obtain rfl : dup = false := hp
    cases type with
    | puback => exact (pubacks_keep _).heard fun x => by simp [forth]
    | pubrec => exact (pubrecs_keep rc now _).heard fun x => by simp [forth]
    | pubrel => exact pubrels_heard h rc
    | pubcomp => exact (pubcomps_keep _).heard fun x => by simp [forth]

end Receiver

/-! ## The sender -/

section Sender
variable {client : Clients} {x : Nat} {m : Messages}

/-- What concerns the sender stays. -/
structure KeepsOutbound (client : Clients) (r : Reaction) : Prop where
  outbound : r.client.outboundMsgs = client.outboundMsgs
  sent : ∀ x, r.sent.filterMap (forth x) = []

/-- What a reaction does for the sender. -/
def Learnt (client : Clients) (pack : Packet) (r : Reaction) : Prop :=
  ∀ x, Learns (back x pack) (offered x client.outboundMsgs) (offered x r.client.outboundMsgs)
    (r.sent.filterMap (forth x))

theorem KeepsOutbound.learnt {r : Reaction} {pack : Packet} (h : KeepsOutbound client r)
    (hpack : ∀ x, back x pack = none) : Learnt client pack r := by
  intro x
  rw [hpack x, h.outbound, h.sent x]
  exact .other _

theorem publishes_keep (rc : Rc) (publish : Publish) :
    KeepsOutbound client (handlePublishes rc client publish) := by
  unfold handlePublishes
  split
  · exact ⟨rfl, fun _ => rfl⟩
  · exact ⟨rfl, fun x => written_none (by simp [forth]) rc⟩
  · exact ⟨rfl, fun x => written_none (by simp [forth]) rc⟩
  · exact ⟨rfl, fun _ => rfl⟩

theorem pubrels_keep (rc : Rc) (pubrel : Ack) :
    KeepsOutbound client (handlePubrels rc client pubrel) := by
  have hsent (x : Nat) : (sendAck .pubcomp pubrel.msgId rc).filterMap (forth x) = [] :=
    written_none (by simp [forth]) rc
  unfold handlePubrels
  split
  · split
    · exact ⟨rfl, hsent⟩
    · exact ⟨rfl, fun _ => rfl⟩
  · split
    · exact ⟨rfl, fun _ => rfl⟩
    · split
      · exact ⟨rfl, fun _ => rfl⟩
      · exact ⟨rfl, hsent⟩

theorem offered_of_find {ms : List Messages} (h : ms.find? (hasId x) = some m) :
    offered x ms = offering m := by
  rw [offered, h, Option.bind_some]

theorem offered_eraseP_self {ms : List Messages} (h : (ms.map (·.msgid)).Nodup) :
    offered x (ms.eraseP (hasId x)) = none := by
  rw [offered, find_eraseP_self h, Option.bind_none]

theorem offered_eraseP_of_ne {ms : List Messages} {y : Nat} (h : x ≠ y) :
    offered x (ms.eraseP (hasId y)) = offered x ms := by
  rw [offered, find_eraseP_of_ne h, offered]

theorem pubacks_learnt (h : Tidy client) {msgId : Nat} :
    Learnt client (.ack ⟨.puback, false, msgId⟩) (handlePubacks client ⟨.puback, false, msgId⟩) := by
  intro x
  have hback : back x (.ack ⟨.puback, false, msgId⟩) = none := by simp [back]
  unfold handlePubacks
  rw [hback]
  cases hfind : client.outboundMsgs.find? (hasId msgId) with
  | none => exact .other _
  | some m =>
    by_cases hqos : m.qos = .atLeastOnce
    · dsimp only
      rw [if_neg (fun hne => hne hqos)]
      have hsame : offered x (client.outboundMsgs.eraseP (hasId msgId)) =
          offered x client.outboundMsgs := by
        by_cases hx : x = msgId
        · subst hx
          rw [offered_eraseP_self h.outbound, offered_of_find hfind, offering,
            if_neg (by rw [hqos]; decide)]
        · exact offered_eraseP_of_ne hx
      change Learns none _ (offered x (client.outboundMsgs.eraseP (hasId msgId))) []
      rw [hsame]
      exact .other _
    · dsimp only
      rw [if_pos hqos]
      exact .other _

theorem id_await (now : ℤ) (y : Nat) (m : Messages) (h : hasId y m = true) :
    (awaitPubcomp now m).msgid = y := hasId_iff.mp h

theorem offered_await_self {ms : List Messages} (now : ℤ) (h : ms.find? (hasId x) = some m)
    (hqos : m.qos = .exactlyOnce) :
    offered x (patchFirst (hasId x) (awaitPubcomp now) ms) = some (letter m, true) := by
  have hfind := find?_patchFirst_self (p := hasId x) (f := awaitPubcomp now) (fun _ => rfl) ms
  rw [h] at hfind
  rw [offered_of_find hfind, offering, if_pos (show (awaitPubcomp now m).qos = .exactlyOnce from hqos)]
  rfl

theorem offered_await_of_ne {ms : List Messages} {y : Nat} (now : ℤ) (h : x ≠ y) :
    offered x (patchFirst (hasId y) (awaitPubcomp now) ms) = offered x ms := by
  rw [offered, find_patch_of_ne (id_await now y) h, offered]

theorem pubrecs_learnt (h : Tidy client) (rc : Rc) (now : ℤ) {msgId : Nat} :
    Learnt client (.ack ⟨.pubrec, false, msgId⟩)
      (handlePubrecs rc client now ⟨.pubrec, false, msgId⟩) := by
  intro x
  have hback : back x (.ack ⟨.pubrec, false, msgId⟩) = if msgId = x then some .stored else none := rfl
  have hforth : forth x (.ack ⟨.pubrel, false, msgId⟩) = if msgId = x then some .release else none := by
    simp [forth]
  -- a message that is not there, of another QoS, or released before
  have hlate (hoffered : ∀ m, offered msgId client.outboundMsgs ≠ some (m, false)) :
      Learns (back x (.ack ⟨.pubrec, false, msgId⟩)) (offered x client.outboundMsgs)
        (offered x client.outboundMsgs) [] := by
    rw [hback]
    by_cases hx : msgId = x
    · subst hx
      rw [if_pos rfl]
      exact .lateStored hoffered
    · rw [if_neg hx]
      exact .other _
  unfold handlePubrecs
  cases hfind : client.outboundMsgs.find? (hasId msgId) with
  | none =>
    refine hlate fun m' => ?_
    rw [offered, hfind]
    exact nofun
  | some m =>
    dsimp only
    have hoffered := offered_of_find hfind
    by_cases hqos : m.qos = .exactlyOnce
    · rw [if_neg (fun hne => hne hqos)]
      rw [offering, if_pos hqos] at hoffered
      by_cases hnext : m.nextMessageType = some .pubrec
      · rw [if_neg (fun hne => hne hnext)]
        rw [hnext] at hoffered
        change Learns _ _ (offered x (patchFirst (hasId msgId) (awaitPubcomp now) client.outboundMsgs))
          ((sendAck .pubrel msgId rc).filterMap (forth x))
        by_cases hx : msgId = x
        · subst hx
          have hsent := written_sublist (forth msgId) (.ack ⟨.pubrel, false, msgId⟩) rc
          rw [hforth, if_pos rfl] at hsent
          rw [hback, if_pos rfl, hoffered, offered_await_self now hfind hqos]
          exact .stored _ hsent
        · rw [if_neg hx] at hforth
          rw [hback, if_neg hx, sendAck, written_none hforth, offered_await_of_ne now (Ne.symm hx)]
          exact .other _
      · rw [if_pos hnext]
        have hwait := (h.waits m (List.mem_of_find?_eq_some hfind) hqos).resolve_left hnext
        rw [hwait] at hoffered
        exact hlate fun m' => by rw [hoffered]; simp
    · rw [if_pos hqos]
      exact hlate fun m' => by rw [hoffered, offering, if_neg hqos]; exact nofun

theorem pubcomps_learnt (h : Tidy client) {msgId : Nat} :
    Learnt client (.ack ⟨.pubcomp, false, msgId⟩)
      (handlePubcomps client ⟨.pubcomp, false, msgId⟩) := by
  intro x
  have hback : back x (.ack ⟨.pubcomp, false, msgId⟩) = if msgId = x then some .done else none := rfl
  -- a message that is not there, of another QoS, or not released yet
  have hlate (hoffered : ∀ m, offered msgId client.outboundMsgs ≠ some (m, true)) :
      Learns (back x (.ack ⟨.pubcomp, false, msgId⟩)) (offered x client.outboundMsgs)
        (offered x client.outboundMsgs) [] := by
    rw [hback]
    by_cases hx : msgId = x
    · subst hx
      rw [if_pos rfl]
      exact .lateDone hoffered
    · rw [if_neg hx]
      exact .other _
  unfold handlePubcomps
  cases hfind : client.outboundMsgs.find? (hasId msgId) with
  | none =>
    refine hlate fun m' => ?_
    rw [offered, hfind]
    exact nofun
  | some m =>
    dsimp only
    have hoffered := offered_of_find hfind
    by_cases hqos : m.qos = .exactlyOnce
    · rw [if_neg (fun hne => hne hqos)]
      rw [offering, if_pos hqos] at hoffered
      by_cases hnext : m.nextMessageType = some .pubcomp
      · rw [if_neg (fun hne => hne hnext)]
        rw [hnext] at hoffered
        change Learns _ _ (offered x (client.outboundMsgs.eraseP (hasId msgId))) []
        by_cases hx : msgId = x
        · subst hx
          rw [hback, if_pos rfl, hoffered, offered_eraseP_self h.outbound]
          exact .done _
        · rw [hback, if_neg hx, offered_eraseP_of_ne (Ne.symm hx)]
          exact .other _
      · rw [if_pos hnext]
        exact hlate fun m' => by rw [hoffered]; simp [hnext]
    · rw [if_pos hqos]
      exact hlate fun m' => by rw [hoffered, offering, if_neg hqos]; exact nofun

theorem handle_learnt (h : Tidy client) {pack : Packet} (hp : Plain pack) (rc : Rc) (now : ℤ) :
    Learnt client pack (handle rc client now pack) := by
  cases pack with
  | publish publish => exact (publishes_keep rc publish).learnt fun _ => rfl
  | ack ack =>
    obtain ⟨type, dup, msgId⟩ := ack
    obtain rfl : dup = false := hp
    cases type with
    | puback => exact pubacks_learnt h
    | pubrec => exact pubrecs_learnt h rc now
    | pubrel => exact (pubrels_keep rc _).learnt fun x => by simp [back]
    | pubcomp => exact pubcomps_learnt h

end Sender

/-! ## What is kept -/

section Tidy
variable {client : Clients}

/-- The lists stay tidy, and what is written is plain. -/
structure Sound (client : Clients) (r : Reaction) : Prop where
  tidy : Tidy r.client
  room : r.client.maxInflightMessages = client.maxInflightMessages
  plain : ∀ p ∈ r.sent, Plain p

theorem Tidy.ignored (h : Tidy client) : Sound client (ignored client) := ⟨h, rfl, fun _ hp => nomatch hp⟩

theorem plain_sendAck (type : AckType) (msgId : Nat) (rc : Rc) :
    ∀ p ∈ sendAck type msgId rc, Plain p :=
  plain_written (show Plain (.ack ⟨type, false, msgId⟩) from rfl) rc

theorem Tidy.process (h : Tidy client) (publish : Publish) : Tidy (processPublication publish client) :=
  ⟨h.keeps, h.outbound, h.inbound, h.known, h.waits, h.holds⟩

theorem Tidy.eraseOut (h : Tidy client) (x : Nat) :
    Tidy { client with outboundMsgs := client.outboundMsgs.eraseP (hasId x) } where
  keeps := h.keeps
  outbound := h.outbound.sublist (List.eraseP_sublist.map _)
  inbound := h.inbound
  known m hm := h.known m (List.eraseP_sublist.subset hm)
  waits m hm := h.waits m (List.eraseP_sublist.subset hm)
  holds := h.holds

theorem Tidy.eraseIn (h : Tidy client) (x : Nat) :
    Tidy { client with inboundMsgs := client.inboundMsgs.eraseP (hasId x) } where
  keeps := h.keeps
  outbound := h.outbound
  inbound := h.inbound.sublist (List.eraseP_sublist.map _)
  known := h.known
  waits := h.waits
  holds m hm := h.holds m (List.eraseP_sublist.subset hm)

theorem publishes_sound (h : Tidy client) (rc : Rc) (publish : Publish) :
    Sound client (handlePublishes rc client publish) := by
  unfold handlePublishes
  split
  · exact ⟨h.process publish, rfl, fun _ hp => nomatch hp⟩
  · exact ⟨h.process publish, rfl, plain_sendAck _ _ _⟩
  · rename_i hqos
    refine ⟨⟨h.keeps, h.outbound, ids_store publish h.inbound, h.known, h.waits, ?_⟩, rfl,
      plain_sendAck _ _ _⟩
    exact holds_store hqos h.holds
  · exact h.ignored

theorem handle_sound (h : Tidy client) (rc : Rc) (now : ℤ) (pack : Packet) :
    Sound client (handle rc client now pack) := by
  cases pack with
  | publish publish => exact publishes_sound h rc publish
  | ack ack =>
    unfold handle
    dsimp only
    split
    · unfold handlePubacks
      split
      · exact h.ignored
      · split
        · exact h.ignored
        · exact ⟨h.eraseOut _, rfl, fun _ hp => nomatch hp⟩
    · unfold handlePubrecs
      split
      · exact h.ignored
      · split
        · exact h.ignored
        · split
          · exact h.ignored
          · refine ⟨⟨h.keeps, ?_, h.inbound, ?_, ?_, h.holds⟩, rfl, plain_sendAck _ _ _⟩
            · show ((patchFirst _ (awaitPubcomp now) _).map (·.msgid)).Nodup
              rw [ids_patch (id_await now _)]
              exact h.outbound
            · exact forall_mem_patch h.known fun m hm _ => h.known m hm
            · exact forall_mem_patch h.waits fun _ _ _ _ => .inr rfl
    · unfold handlePubrels
      split
      · split
        · exact ⟨h, rfl, plain_sendAck _ _ _⟩
        · exact h.ignored
      · split
        · exact h.ignored
        · split
          · exact h.ignored
          · exact ⟨(h.process _).eraseIn _, rfl, plain_sendAck _ _ _⟩
    · unfold handlePubcomps
      split
      · exact h.ignored
      · split
        · exact h.ignored
        · split
          · exact h.ignored
          · exact ⟨h.eraseOut _, rfl, fun _ hp => nomatch hp⟩

theorem Tidy.setConnected (h : Tidy client) (good connected : Bool) :
    Tidy { client with good, connected } :=
  ⟨h.keeps, h.outbound, h.inbound, h.known, h.waits, h.holds⟩

/-- A session that is kept is not emptied. -/
theorem Tidy.close (h : Tidy client) :
    closeSession client = { client with good := false, connected := false } := by
  unfold closeSession
  exact if_neg (by rw [h.keeps]; exact Bool.false_ne_true)

end Tidy

end Hamster.Mqtt.Exchange
