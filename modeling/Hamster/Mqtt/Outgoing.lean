import Hamster.Mqtt.Exchange

/-!
# What a client sends of its own accord

What sending again and publishing do to the exchange of one message id.
-/
namespace Hamster.Mqtt.Outgoing

open Lib.Bytes Lib.Handshake Lib.Rows Mqtt.Session Mqtt.Exchange

section Retry
variable {client : Clients} {x : Nat} {m : Messages} {ms : List Messages}

/-- A message but for the time. -/
def untouched (m : Messages) : Messages := { m with lastTouch := 0 }

theorem offered_untouched (x : Nat) (ms : List Messages) :
    offered x (ms.map untouched) = offered x ms := by
  rw [offered, List.find?_map, offered]
  change ((ms.find? (hasId x)).map untouched).bind offering = _
  cases ms.find? (hasId x) <;> rfl

theorem ids_untouched (ms : List Messages) :
    (ms.map untouched).map (·.msgid) = ms.map (·.msgid) := by
  rw [List.map_map]
  rfl

/-- A list that differs in the times only. -/
def Retouched (ms ms' : List Messages) : Prop := ms'.map untouched = ms.map untouched

theorem tidy_retouch (h : Tidy client) {ms : List Messages}
    (hms : Retouched client.outboundMsgs ms) : Tidy { client with outboundMsgs := ms } := by
  have hmem : ∀ m ∈ ms, ∃ m' ∈ client.outboundMsgs, untouched m' = untouched m := by
    intro m hm
    have hm' := List.mem_map_of_mem (f := untouched) hm
    rw [hms] at hm'
    exact List.mem_map.mp hm'
  refine ⟨h.keeps, ?_, h.inbound, fun m hm => ?_, fun m hm => ?_, h.holds⟩
  · show (ms.map (·.msgid)).Nodup
    rw [← ids_untouched, hms, ids_untouched]
    exact h.outbound
  · obtain ⟨m', hm', heq⟩ := hmem m hm
    rw [show m.qos = m'.qos from (congrArg Messages.qos heq).symm]
    exact h.known m' hm'
  · obtain ⟨m', hm', heq⟩ := hmem m hm
    rw [show m.qos = m'.qos from (congrArg Messages.qos heq).symm,
      show m.nextMessageType = m'.nextMessageType from (congrArg Messages.nextMessageType heq).symm]
    exact h.waits m' hm'

theorem Retouched.cons {ms ms' : List Messages} {m m' : Messages} (hm : untouched m' = untouched m)
    (h : Retouched ms ms') : Retouched (m :: ms) (m' :: ms') := by
  unfold Retouched
  rw [List.map_cons, List.map_cons, hm, h]

/-- Messages that are passed over are as they were, and what is written is due. -/
theorem retryLoop_spec (due : Messages → Bool) (now : ℤ) (rc : Nat → Rc) (ms : List Messages) :
    Retouched ms (retryLoop due now rc ms).1 ∧
      (retryLoop due now rc ms).2.1.Sublist (ms.filterMap repeated) := by
  induction ms with
  | nil => exact ⟨rfl, List.Sublist.refl _⟩
  | cons m ms ih =>
    obtain ⟨hms, hsent⟩ := ih
    have hpass := hsent.trans (((List.sublist_cons_self m ms).filterMap repeated))
    have hskip : Retouched (m :: ms) (m :: (retryLoop due now rc ms).1) := hms.cons rfl
    have htouch : Retouched (m :: ms) ({ m with lastTouch := now } :: (retryLoop due now rc ms).1) :=
      hms.cons rfl
    have hrest : Retouched (m :: ms) (m :: ms) := rfl
    have hrest' : Retouched (m :: ms) ({ m with lastTouch := now } :: ms) := rfl
    rw [retryLoop]
    split
    · cases hrepeated : repeated m with
      | none => exact ⟨hskip, hpass⟩
      | some pack =>
        rw [List.filterMap_cons_some hrepeated]
        cases pack with
        | publish pack =>
          dsimp only
          cases rc m.msgid with
          | complete => exact ⟨htouch, hsent.cons_cons _⟩
          | interrupted => exact ⟨hrest', (List.nil_sublist _).cons_cons _⟩
          | error => exact ⟨hrest, List.nil_sublist _⟩
        | ack pack =>
          dsimp only
          cases rc m.msgid with
          | complete => exact ⟨htouch, hsent.cons_cons _⟩
          | interrupted | error => exact ⟨hrest, List.nil_sublist _⟩
    · exact ⟨hskip, hpass⟩

/-- One message is due for one packet at most, and that says what is known of it. -/
theorem repeated_forth (hknown : m.qos ≠ .reserved)
    (hwaits : m.qos = .exactlyOnce →
      m.nextMessageType = some .pubrec ∨ m.nextMessageType = some .pubcomp) (x : Nat) :
    (repeated m).bind (forth x) =
      if m.msgid = x then (offering m).map fun o => if o.2 then .release else .data o.1 else none := by
  unfold repeated offering
  cases hqos : m.qos with
  | atMostOnce => simp
  | atLeastOnce => simp [forth]
  | exactlyOnce =>
    rcases hwaits hqos with hnext | hnext
    · by_cases hx : m.msgid = x
      · subst hx
        simp [forth, hnext, letter]
      · simp [forth, hnext, hx]
    · by_cases hx : m.msgid = x
      · subst hx
        simp [forth, hnext]
      · simp [forth, hnext, hx]
  | reserved => exact absurd hqos hknown

theorem plain_repeated {pack : Packet} (h : repeated m = some pack) : Plain pack := by
  unfold repeated at h
  split at h
  · cases h
    trivial
  · split at h
    · cases h
      rfl
    · cases h

theorem repeated_back {pack : Packet} (h : repeated m = some pack) (x : Nat) : back x pack = none := by
  unfold repeated at h
  split at h
  · cases h
    rfl
  · split at h
    · cases h
      exact back_pubrel ..
    · cases h

/-- Of different ids one counts at most. -/
theorem filterMap_of_ids {ε : Type} {f : Messages → Option ε} (hids : (ms.map (·.msgid)).Nodup)
    (hf : ∀ m ∈ ms, hasId x m = false → f m = none) :
    ms.filterMap f = ((ms.find? (hasId x)).bind f).toList := by
  induction ms with
  | nil => rfl
  | cons m ms ih =>
    rw [List.map_cons, List.nodup_cons] at hids
    rw [List.forall_mem_cons] at hf
    cases hx : hasId x m with
    | false =>
      rw [List.filterMap_cons_none (hf.1 hx), ih hids.2 hf.2,
        List.find?_cons_of_neg (by rw [hx]; simp)]
    | true =>
      have hrest : ms.filterMap f = [] := by
        refine List.filterMap_eq_nil_iff.mpr fun m' hm' => hf.2 m' hm' (decide_eq_false fun hid => ?_)
        exact hids.1 (List.mem_map.mpr ⟨m', hm', hid.trans (hasId_iff.mp hx).symm⟩)
      rw [List.find?_cons_of_pos hx, Option.bind_some]
      cases hm : f m with
      | none => rw [List.filterMap_cons_none hm, hrest]; rfl
      | some e => rw [List.filterMap_cons_some hm, hrest]; rfl

theorem repeats_due (h : Tidy client) {sent : List Packet}
    (hsent : sent.Sublist (client.outboundMsgs.filterMap repeated)) (x : Nat) :
    Repeats (offered x client.outboundMsgs) (sent.filterMap (forth x)) := by
  have hone (m : Messages) (hm : m ∈ client.outboundMsgs) :=
    repeated_forth (h.known m hm) (h.waits m hm) x
  have hsub := hsent.filterMap (forth x)
  rw [List.filterMap_filterMap, filterMap_of_ids (x := x) h.outbound
    fun m hm hx => by rw [hone m hm, if_neg (of_decide_eq_false hx)]] at hsub
  cases hfind : client.outboundMsgs.find? (hasId x) with
  | none =>
    rw [hfind] at hsub
    rw [List.sublist_nil.mp hsub]
    exact .nothing _
  | some m =>
    rw [hfind, Option.bind_some, hone m (List.mem_of_find?_eq_some hfind),
      if_pos (msgid_of_find hfind)] at hsub
    rw [offered_of_find hfind]
    cases hoffering : offering m with
    | none =>
      rw [hoffering] at hsub
      rw [List.sublist_nil.mp hsub]
      exact .nothing _
    | some o =>
      rw [hoffering] at hsub
      obtain ⟨l, released⟩ := o
      cases released with
      | false => exact .data l hsub
      | true => exact .release l hsub

/-- What sending again does to a client, and what it writes. -/
structure Resent (client : Clients) (r : Clients × List Packet) : Prop where
  tidy : Tidy r.1
  inbound : r.1.inboundMsgs = client.inboundMsgs
  queue : r.1.messageQueue = client.messageQueue
  room : r.1.maxInflightMessages = client.maxInflightMessages
  offers : ∀ x, offered x r.1.outboundMsgs = offered x client.outboundMsgs
  forth : ∀ x, Repeats (offered x client.outboundMsgs) (r.2.filterMap (forth x))
  back : ∀ x, r.2.filterMap (back x) = []
  plain : ∀ p ∈ r.2, Plain p

theorem still_resent (h : Tidy client) : Resent client (client, []) :=
  ⟨h, rfl, rfl, rfl, fun _ => rfl, fun _ => .nothing _, fun _ => rfl, fun _ hp => nomatch hp⟩

theorem closed_resent (h : Tidy client) : Resent client (closeSession client, []) := by
  rw [h.close]
  exact ⟨h.setConnected _ _, rfl, rfl, rfl, fun _ => rfl, fun _ => .nothing _, fun _ => rfl,
    fun _ hp => nomatch hp⟩

theorem Resent.close {r : Clients × List Packet} (h : Resent client r) :
    Resent client (closeSession r.1, r.2) := by
  rw [h.tidy.close]
  exact ⟨h.tidy.setConnected _ _, h.inbound, h.queue, h.room, h.offers, h.forth, h.back, h.plain⟩

theorem loop_resent (h : Tidy client) (due : Messages → Bool) (now : ℤ) (rc : Nat → Rc) :
    Resent client ({ client with outboundMsgs := (retryLoop due now rc client.outboundMsgs).1 },
      (retryLoop due now rc client.outboundMsgs).2.1) := by
  obtain ⟨hms, hsent⟩ := retryLoop_spec due now rc client.outboundMsgs
  have hdue {p : Packet} (hp : p ∈ (retryLoop due now rc client.outboundMsgs).2.1) :
      ∃ m, repeated m = some p := by
    obtain ⟨m, -, hm⟩ := List.mem_filterMap.mp (hsent.subset hp)
    exact ⟨m, hm⟩
  refine ⟨tidy_retouch h hms, rfl, rfl, rfl, fun x => ?_, repeats_due h hsent, fun x => ?_, fun p hp => ?_⟩
  · show offered x (retryLoop due now rc client.outboundMsgs).1 = _
    rw [← offered_untouched, hms, offered_untouched]
  · refine List.filterMap_eq_nil_iff.mpr fun p hp => ?_
    obtain ⟨m, hm⟩ := hdue hp
    exact repeated_back hm x
  · obtain ⟨m, hm⟩ := hdue hp
    exact plain_repeated hm

theorem retry_resent (h : Tidy client) (now : ℤ) (doRetry regardless : Bool) (time : ℤ)
    (rc : Nat → Rc) : Resent client (retry now doRetry regardless time rc client) := by
  unfold retry
  split
  · exact still_resent h
  · split
    · exact closed_resent h
    · split
      · unfold retries
        split
        · exact still_resent h
        · have hloop := loop_resent h
            (fun m => regardless || decide (now - m.lastTouch > max client.retryInterval 10)) time rc
          dsimp only
          split
          · exact hloop.close
          · exact hloop
      · exact still_resent h

theorem connected_resent (h : Tidy client) (time : ℤ) (rc : Nat → Rc) :
    Resent client (connected time rc client) := by
  have hopen := h.setConnected true true
  have hkeeps : ¬client.cleansession = true := by rw [h.keeps]; exact Bool.false_ne_true
  have hms : Retouched client.outboundMsgs (client.outboundMsgs.map untouched) := by
    unfold Retouched
    rw [List.map_map]
    rfl
  unfold connected
  dsimp only
  rw [if_neg hkeeps]
  split
  · exact ⟨hopen, rfl, rfl, rfl, fun _ => rfl, fun _ => .nothing _, fun _ => rfl, fun _ hp => nomatch hp⟩
  · have hretry := retry_resent (tidy_retouch hopen hms) 0 true true time rc
    have hoffers (x : Nat) : offered x (client.outboundMsgs.map untouched) =
        offered x client.outboundMsgs := offered_untouched x _
    refine ⟨hretry.tidy, hretry.inbound, hretry.queue, hretry.room, fun x => ?_, fun x => ?_, hretry.back,
      hretry.plain⟩
    · rw [← hoffers x]
      exact hretry.offers x
    · rw [← hoffers x]
      exact hretry.forth x

end Retry

section Publishing
variable {client client' : Clients} {x msgid : Nat} {publish : Publish}

/-- An id that is given out is not in use. -/
theorem assignLoop_fresh {turns : Nat} (hx : x ≠ 0) (h : assignLoop client turns msgid = some x) :
    client.outboundMsgs.any (hasId x) = false := by
  induction turns generalizing msgid with
  | zero =>
    rw [assignLoop] at h
    split at h
    · cases h
    · cases h
      rename_i hany
      exact Bool.eq_false_iff.mpr hany
  | succ turns ih =>
    rw [assignLoop] at h
    split at h
    · split at h
      · cases h
        exact absurd rfl hx
      · exact ih h
    · cases h
      rename_i hany
      exact Bool.eq_false_iff.mpr hany

theorem assignMsgId_fresh (hx : x ≠ 0) (h : assignMsgId client = some (x, client')) :
    client.outboundMsgs.any (hasId x) = false ∧ client' = { client with msgID := x } := by
  obtain ⟨y, hy, heq⟩ := Option.map_eq_some_iff.mp h
  obtain ⟨rfl, rfl⟩ := Prod.mk.inj heq
  exact ⟨assignLoop_fresh hx hy, if_pos hx⟩

theorem assignMsgId_zero (h : assignMsgId client = some (0, client')) : client' = client := by
  obtain ⟨y, hy, heq⟩ := Option.map_eq_some_iff.mp h
  obtain ⟨rfl, rfl⟩ := Prod.mk.inj heq
  exact if_neg (fun h => h rfl)

/-- The letter that a publication brings under way, if it is one of QoS 2. -/
def posted (topicName : CString) (payload : List Byte) (qos : Qos) (retained : Bool)
    (token : Option Nat) : Option Letter :=
  if qos = .exactlyOnce then token.map fun msgid => ⟨msgid, topicName, payload, retained⟩ else none

/-- What a publication does to a client, and what it writes. -/
structure Posted (client : Clients) (item : Option Letter) (p : Publication) : Prop where
  tidy : Tidy p.client
  inbound : p.client.inboundMsgs = client.inboundMsgs
  queue : p.client.messageQueue = client.messageQueue
  room : p.client.maxInflightMessages = client.maxInflightMessages
  forth : ∀ x, Offers (item.filter (·.msgid = x)) (offered x client.outboundMsgs)
    (offered x p.client.outboundMsgs) (p.sent.filterMap (forth x))
  back : ∀ x, p.sent.filterMap (back x) = []
  plain : ∀ pack ∈ p.sent, Plain pack

theorem refused_posted (h : Tidy client) (rc : ℤ) : Posted client none ⟨rc, none, [], client⟩ :=
  ⟨h, rfl, rfl, rfl, fun _ => .nothing _, fun _ => rfl, fun _ hp => nomatch hp⟩

theorem Posted.close {item : Option Letter} {p : Publication} (h : Posted client item p) (rc : ℤ) :
    Posted client item ⟨rc, p.token, p.sent, closeSession p.client⟩ := by
  rw [h.tidy.close]
  exact ⟨h.tidy.setConnected _ _, h.inbound, h.queue, h.room, h.forth, h.back, h.plain⟩

/-- The message that is stored is the only one with its id. -/
theorem tidy_start (h : Tidy client) (now : ℤ) (hqos : publish.qos ≠ .reserved)
    (hfresh : publish.qos ≠ .atMostOnce → client.outboundMsgs.any (hasId publish.msgId) = false) :
    Tidy (startPublish publish now client) := by
  unfold startPublish
  split
  · exact h
  · rename_i hsome
    have hids := List.any_eq_false.mp (hfresh hsome)
    refine ⟨h.keeps, ?_, h.inbound, fun m hm => ?_, fun m hm hm' => ?_, h.holds⟩
    · rw [List.map_append, List.nodup_append]
      refine ⟨h.outbound, List.nodup_singleton _, ?_⟩
      intro y hy z hz hyz
      obtain ⟨m, hm, rfl⟩ := List.mem_map.mp hy
      obtain rfl := List.mem_singleton.mp hz
      exact hids m hm (hasId_iff.mpr hyz)
    · rcases List.mem_append.mp hm with hm | hm
      · exact h.known m hm
      · rw [List.mem_singleton.mp hm]
        exact hqos
    · rcases List.mem_append.mp hm with hm | hm
      · exact h.waits m hm hm'
      · rw [List.mem_singleton.mp hm] at hm' ⊢
        exact .inl (if_pos hm')

/-- The token is the id of the packet. -/
def tokenOf (publish : Publish) : Option Nat :=
  if publish.qos = .atMostOnce then none else some publish.msgId

theorem offered_of_any {ms : List Messages} (h : ms.any (hasId x) = false) :
    offered x ms = none := by
  rw [offered, find_of_any h, Option.bind_none]

theorem offered_append_self {ms : List Messages} {m : Messages} (hm : m.msgid = x)
    (h : ms.any (hasId x) = false) : offered x (ms ++ [m]) = offering m := by
  rw [offered, List.find?_append, find_of_any h, Option.none_or,
    List.find?_cons_of_pos (hasId_iff.mpr hm), Option.bind_some]

theorem offered_append_of_ne {ms : List Messages} {m : Messages} (hm : m.msgid ≠ x) :
    offered x (ms ++ [m]) = offered x ms := by
  have hid : hasId x m = false := decide_eq_false hm
  rw [offered, find?_append_of_neg hid, offered]

theorem start_outbound (client : Clients) (now : ℤ) (hsome : publish.qos ≠ .atMostOnce) : ∃ m : Messages,
    (startPublish publish now client).outboundMsgs = client.outboundMsgs ++ [m] ∧
      m.msgid = publish.msgId ∧
      offering m = if publish.qos = .exactlyOnce then
        some (⟨publish.msgId, publish.topic, publish.payload, publish.retain⟩, false) else none := by
  rw [startPublish, if_neg hsome]
  refine ⟨_, rfl, rfl, ?_⟩
  by_cases hqos : publish.qos = .exactlyOnce
  · simp [offering, hqos, letter]
  · simp [offering, hqos]

theorem offered_start (now : ℤ)
    (hfresh : publish.qos ≠ .atMostOnce → client.outboundMsgs.any (hasId publish.msgId) = false)
    (rc : Rc) (x : Nat) :
    Offers ((posted publish.topic publish.payload publish.qos publish.retain
        (tokenOf publish)).filter (·.msgid = x))
      (offered x client.outboundMsgs) (offered x (startPublish publish now client).outboundMsgs)
      ((rc.written (.publish publish)).filterMap (forth x)) := by
  have hforth : forth x (.publish publish) =
      if publish.qos = .exactlyOnce ∧ publish.msgId = x then
        some (.data ⟨x, publish.topic, publish.payload, publish.retain⟩) else none := rfl
  by_cases hzero : publish.qos = .atMostOnce
  · have hqos : publish.qos ≠ .exactlyOnce := by rw [hzero]; decide
    rw [if_neg fun h => hqos h.1] at hforth
    rw [written_none hforth, startPublish, if_pos hzero, posted, if_neg hqos]
    exact .nothing _
  · obtain ⟨m, hm, hid, hoffering⟩ := start_outbound client now hzero
    rw [hm]
    by_cases hx : publish.msgId = x
    · subst hx
      rw [offered_append_self hid (hfresh hzero), offered_of_any (hfresh hzero), hoffering]
      by_cases hqos : publish.qos = .exactlyOnce
      · have hsent := written_sublist (forth publish.msgId) (.publish publish) rc
        rw [hforth, if_pos ⟨hqos, rfl⟩] at hsent
        rw [posted, if_pos hqos, tokenOf, if_neg hzero, Option.map_some, Option.filter_some,
          if_pos (decide_eq_true rfl), if_pos hqos]
        exact .message _ hsent
      · rw [if_neg fun h => hqos h.1] at hforth
        rw [written_none hforth, posted, if_neg hqos, if_neg hqos]
        exact .nothing _
    · rw [if_neg fun h => hx h.2] at hforth
      have hother : (posted publish.topic publish.payload publish.qos publish.retain
          (tokenOf publish)).filter (·.msgid = x) = none := by
        simp [posted, tokenOf, hzero, hx]
      rw [written_none hforth, offered_append_of_ne (hid.trans_ne hx), hother]
      exact .nothing _

theorem publishWith_posted (publish : Publish) (h : Tidy client) (now : ℤ) (rc : Rc)
    (hqos : publish.qos ≠ .reserved)
    (hfresh : publish.qos ≠ .atMostOnce → client.outboundMsgs.any (hasId publish.msgId) = false) :
    (publishWith publish now rc client).token = tokenOf publish ∧
      Posted client (posted publish.topic publish.payload publish.qos publish.retain
        (tokenOf publish)) (publishWith publish now rc client) := by
  have hkeep : (startPublish publish now client).inboundMsgs = client.inboundMsgs ∧
      (startPublish publish now client).messageQueue = client.messageQueue ∧
      (startPublish publish now client).maxInflightMessages = client.maxInflightMessages := by
    unfold startPublish
    split
    · exact ⟨rfl, rfl, rfl⟩
    · exact ⟨rfl, rfl, rfl⟩
  have hposted (code : ℤ) : Posted client (posted publish.topic publish.payload publish.qos
      publish.retain (tokenOf publish)) ⟨code, tokenOf publish, rc.written (.publish publish),
        startPublish publish now client⟩ :=
    ⟨tidy_start h now hqos hfresh, hkeep.1, hkeep.2.1, hkeep.2.2, offered_start now hfresh rc,
      fun _ => written_none rfl rc,
      plain_written (show Plain (.publish publish) from trivial) rc⟩
  unfold publishWith
  dsimp only
  split
  · exact ⟨rfl, (hposted 0).close _⟩
  · exact ⟨rfl, hposted _⟩

theorem publish_posted (h : Tidy client) {topicName : CString} {payload : List Byte} {qos : Qos}
    {retained : Bool} {now : ℤ} {rc : Rc} {p : Publication} (hqos : qos ≠ .reserved)
    (hp : mqttClientPublish topicName payload qos retained now rc client = some p) :
    Posted client (posted topicName payload qos retained p.token) p := by
  have hnone : posted topicName payload qos retained none = none := by simp [posted]
  have hrefused {code : ℤ} (hp : (some ⟨code, none, [], client⟩ : Option Publication) = some p) :
      Posted client (posted topicName payload qos retained p.token) p := by
    cases hp
    rw [hnone]
    exact refused_posted h code
  unfold mqttClientPublish at hp
  split at hp
  · exact hrefused hp
  · split at hp
    · cases hp
    · exact hrefused hp
    · split at hp
      · cases hp
      · split at hp
        · rename_i hzero
          cases hp
          obtain ⟨htoken, hposted⟩ := publishWith_posted
            ⟨false, qos, retained, topicName, 0, payload⟩ h now rc hqos fun hne => absurd hzero hne
          rw [htoken]
          exact hposted
        · split at hp
          · cases hp
          · rename_i client' hassign
            cases hp
            obtain rfl := assignMsgId_zero hassign
            rw [hnone]
            exact refused_posted h _
          · rename_i msgid client' hne hassign
            cases hp
            have hmsgid : msgid ≠ 0 := hne
            obtain ⟨hfresh, rfl⟩ := assignMsgId_fresh hmsgid hassign
            have hassigned : Tidy { client with msgID := msgid } :=
              ⟨h.keeps, h.outbound, h.inbound, h.known, h.waits, h.holds⟩
            obtain ⟨htoken, hposted⟩ := publishWith_posted
              ⟨false, qos, retained, topicName, msgid, payload⟩ hassigned now rc hqos fun _ => hfresh
            rw [htoken]
            exact ⟨hposted.tidy, hposted.inbound, hposted.queue, hposted.room, hposted.forth,
              hposted.back, hposted.plain⟩

end Publishing

end Hamster.Mqtt.Outgoing
