import Hamster.Mqtt.Progress

/-!
# Exactly once

What the applications at both ends of a connection can rely on for the messages they publish
with QoS 2, whatever is lost and however often the connection breaks; and what happens to a
message whose `PUBCOMP` is lost.
-/
namespace Hamster.Contract.ExactlyOnce

open Lib.Bytes Lib.Handshake Lib.Runs
open Mqtt.Session Mqtt.Exchange Mqtt.Connection Mqtt.Progress

/-- Two sessions that are kept, and nothing has happened in them. -/
structure Fresh (l : Link) : Prop where
  keeps : ∀ i, (l.clients i).cleansession = false
  outbound : ∀ i, (l.clients i).outboundMsgs = []
  inbound : ∀ i, (l.clients i).inboundMsgs = []
  queue : ∀ i, (l.clients i).messageQueue = []
  written : ∀ i, l.written i = []

/-- What one end has taken on to send with QoS 2. -/
def sentBy (i : Bool) (tr : History) : List Letter := tr.filterMap (postedBy i)

/-- What the application at one end was given, or is about to be given. -/
def receivedBy (j : Bool) (tr : History) (l : Link) : List Letter :=
  tr.filterMap (takenBy j) ++ arrivals (l.clients j)

/-- Both sessions are in order, and each message id is as far as it can be. -/
structure Kept (tr : History) (l : Link) : Prop where
  sane : Sane l
  phase : ∀ i x, Phase (slot l i x (sentBy i tr) (receivedBy (!i) tr l))

section Histories
variable {tr : History} {l l' : Link}

theorem kept_fresh (h : Fresh l) : Kept [] l := by
  refine ⟨⟨fun i => ⟨h.keeps i, ?_, ?_, ?_, ?_, ?_⟩, fun i p hp => ?_⟩, fun i x => ?_⟩
  · rw [h.outbound i]
    exact List.nodup_nil
  · rw [h.inbound i]
    exact List.nodup_nil
  · rw [h.outbound i]
    exact fun m hm => nomatch hm
  · rw [h.outbound i]
    exact fun m hm => nomatch hm
  · rw [h.inbound i]
    exact fun m hm => nomatch hm
  · rw [h.written i] at hp
    exact nomatch hp
  · unfold slot receivedBy arrivals
    rw [h.outbound, h.inbound, h.queue, h.written, h.written]
    exact phase_empty

theorem sentBy_snoc (i : Bool) (e : Event Link Move Note) :
    sentBy i (tr ++ [e]) = sentBy i tr ++ (postedBy i e).toList := by
  rw [sentBy, List.filterMap_append, sentBy]
  cases h : postedBy i e with
  | none => rw [List.filterMap_cons_none h]; rfl
  | some item => rw [List.filterMap_cons_some h]; rfl

theorem takenBy_snoc (j : Bool) (e : Event Link Move Note) :
    (tr ++ [e]).filterMap (takenBy j) = tr.filterMap (takenBy j) ++ (takenBy j e).toList := by
  rw [List.filterMap_append]
  cases h : takenBy j e with
  | none => rw [List.filterMap_cons_none h]; rfl
  | some item => rw [List.filterMap_cons_some h]; rfl

/-- What a move adds to the history, seen from each id. -/
theorem slot_steps {e : Event Link Move Note} {got : Bool → List Letter}
    (h : Advances l l' (fun i => postedBy i e) (fun j => takenBy j e) got) (i : Bool) (x : Nat) :
    Relation.ReflTransGen Step (slot l i x (sentBy i tr) (receivedBy (!i) tr l))
      (slot l' i x (sentBy i (tr ++ [e])) (receivedBy (!i) (tr ++ [e]) l')) := by
  have hreceived : receivedBy (!i) (tr ++ [e]) l' = receivedBy (!i) tr l ++ got (!i) := by
    rw [receivedBy, takenBy_snoc, List.append_assoc, h.queue (!i), ← List.append_assoc, receivedBy]
  rw [sentBy_snoc, hreceived]
  exact h.steps i x _ _

theorem kept_run (hfresh : Fresh l) (h : Run Link.step l tr l') (hknown : ∀ e ∈ tr, Known e.input) :
    Kept tr l' := by
  suffices hkept : (∀ e ∈ tr, Known e.input) → Kept tr l' from hkept hknown
  refine Run.extend (P := fun tr l' => (∀ e ∈ tr, Known e.input) → Kept tr l')
    (fun _ => kept_fresh hfresh) (fun past l m n l' ih hstep hknown => ?_) h
  obtain ⟨hsane, hphase⟩ := ih fun e he => hknown e (List.mem_append_left _ he)
  have hm : Known m := hknown ⟨l, m, n⟩ (List.mem_append_right _ (List.mem_singleton.mpr rfl))
  obtain ⟨got, hadvances⟩ := step_advances hsane hm hstep
  exact ⟨hadvances.sane, fun i x => (hphase i x).steps (slot_steps hadvances i x)⟩

end Histories

theorem doorbell_zero_free : (0 : Byte) ∉ [100, 111, 111, 114] := by decide

def door : CString := ⟨[100, 111, 111, 114], doorbell_zero_free⟩

def session : Clients where
  cleansession := false
  connected := false
  good := false
  msgID := 0
  retryInterval := 20
  maxInflightMessages := 1
  inboundMsgs := []
  outboundMsgs := []
  messageQueue := []

def start : Link := ⟨fun _ => session, fun _ => []⟩

theorem fresh_start : Fresh start := ⟨fun _ => rfl, fun _ => rfl, fun _ => rfl, fun _ => rfl, fun _ => rfl⟩

def reliably (_ : Bool) (_ : Nat) : Rc := .complete

/-- The publication is lost with its connection, and sent again on the next one. -/
def broken : List Move :=
  [.connect 1 reliably, .publish false door [33] .exactlyOnce false 2 .complete,
    .lose fun _ => [], .disconnect true, .disconnect false, .connect 3 reliably,
    .cycle true 4 .complete, .cycle false 5 .complete, .cycle true 6 .complete]

def ringing : Letter := ⟨1, door, [33], false⟩

theorem known_trace {is : List Move} (h : ∀ m ∈ is, Known m) (l : Link) :
    ∀ e ∈ (trace Link.step l is).1, Known e.input := fun _ he =>
  h _ ((Run.inputs_trace is l).subset (List.mem_map_of_mem he))

/-- On the new connection everything goes well. -/
def restored : List Move := broken ++ [.arrived true true, .cycle false 7 .complete]

/-- The last answer is lost. -/
def silenced : List Move := broken ++ [.lose fun _ => []]

/-- It is asked for again. -/
def unanswered : List Move :=
  [.retry false 100 true (reliably true), .cycle true 101 .complete, .disconnect false,
    .publish false door [34] .exactlyOnce false 102 .complete]

theorem known_broken : ∀ m ∈ broken, Known m := by simp [broken, Known]

theorem known_restored : ∀ m ∈ restored, Known m := by simp [restored, broken, Known]

theorem known_silenced : ∀ m ∈ silenced, Known m := by simp [silenced, broken, Known]

theorem known_unanswered : ∀ m ∈ unanswered, Known m := by simp [unanswered, Known]

section Delivery
variable {tr tr' : History} {initial l l' : Link}

theorem of_offered {x : Nat} {ms : List Messages} {item : Letter} {released : Bool}
    (h : offered x ms = some (item, released)) : ∃ m ∈ ms, m.qos = .exactlyOnce ∧ m.msgid = x ∧
      letter m = item ∧ decide (m.nextMessageType = some .pubcomp) = released := by
  obtain ⟨m, hfind, hoffering⟩ := Option.bind_eq_some_iff.mp h
  rw [offering] at hoffering
  split at hoffering
  · rename_i hqos
    obtain ⟨rfl, rfl⟩ := Prod.mk.inj (Option.some.inj hoffering)
    exact ⟨m, List.mem_of_find?_eq_some hfind, hqos, msgid_of_find hfind, rfl, rfl⟩
  · cases hoffering

/-- Lists with the same letters under each id have the same letters. -/
theorem perm_of_ids {l l' : List Letter}
    (h : ∀ x, l.filter (·.msgid = x) = l'.filter (·.msgid = x)) : l.Perm l' := by
  rw [List.perm_iff_count]
  intro item
  have hid : decide (item.msgid = item.msgid) = true := decide_eq_true rfl
  rw [← List.count_filter (p := fun m : Letter => decide (m.msgid = item.msgid)) hid, h item.msgid,
    List.count_filter (p := fun m : Letter => decide (m.msgid = item.msgid)) hid]

/-- Of the messages with one id that a client took on, the other application has each exactly
once and in order, but for at most the last, which the client still keeps. When it keeps none,
the other application has them all. -/
theorem exactly_once (hfresh : Fresh initial) (h : Run Link.step initial tr l)
    (hknown : ∀ e ∈ tr, Known e.input) (i : Bool) :
    (∀ x, (sentBy i tr).filter (·.msgid = x) = (receivedBy (!i) tr l).filter (·.msgid = x) ∨
      ∃ m ∈ (l.clients i).outboundMsgs, m.qos = .exactlyOnce ∧ m.msgid = x ∧
        (sentBy i tr).filter (·.msgid = x) =
          (receivedBy (!i) tr l).filter (·.msgid = x) ++ [letter m]) ∧
    ((∀ m ∈ (l.clients i).outboundMsgs, m.qos ≠ .exactlyOnce) →
      (sentBy i tr).Perm (receivedBy (!i) tr l)) := by
  have hkept := kept_run hfresh h hknown
  have hids (x : Nat) : (sentBy i tr).filter (·.msgid = x) =
      (receivedBy (!i) tr l).filter (·.msgid = x) ∨
      ∃ m ∈ (l.clients i).outboundMsgs, m.qos = .exactlyOnce ∧ m.msgid = x ∧
        (sentBy i tr).filter (·.msgid = x) =
          (receivedBy (!i) tr l).filter (·.msgid = x) ++ [letter m] := by
    rcases (hkept.phase i x).accounts with hsame | ⟨item, released, hoffered, hlast⟩
    · exact .inl hsame
    · obtain ⟨m, hm, hqos, hid, rfl, -⟩ := of_offered hoffered
      exact .inr ⟨m, hm, hqos, hid, hlast⟩
  refine ⟨hids, fun hnone => perm_of_ids fun x => (hids x).resolve_right ?_⟩
  rintro ⟨m, hm, hqos, -⟩
  exact hnone m hm hqos

theorem exactly_once_restored : ∃ tr l, Run Link.step start tr l ∧ sentBy false tr = [ringing] ∧
    (sentBy false tr).Perm (receivedBy true tr l) := by
  refine ⟨_, _, Run.of_trace restored start, by decide, ?_⟩
  have hall := exactly_once fresh_start (Run.of_trace restored start)
    (known_trace known_restored start) false
  exact hall.2 (by decide)

/-- A `PUBCOMP` under way speaks of a message that is kept until it comes, and that the other
application has, with all that had its id before. -/
theorem pubcomp_delivered (hfresh : Fresh initial) (h : Run Link.step initial tr l)
    (hknown : ∀ e ∈ tr, Known e.input) (i : Bool) {dup : Bool} {x : Nat}
    (hpubcomp : .ack ⟨.pubcomp, dup, x⟩ ∈ l.written (!i)) :
    (∃ m ∈ (l.clients i).outboundMsgs, m.qos = .exactlyOnce ∧ m.msgid = x ∧
      m.nextMessageType = some .pubcomp ∧ letter m ∈ receivedBy (!i) tr l) ∧
    (sentBy i tr).filter (·.msgid = x) = (receivedBy (!i) tr l).filter (·.msgid = x) := by
  have hkept := kept_run hfresh h hknown
  have hback : Back.done ∈ (l.written (!i)).filterMap (back x) :=
    List.mem_filterMap.mpr ⟨_, hpubcomp, by simp [back]⟩
  obtain ⟨⟨item, hitem, hoffered⟩, hsame⟩ := (hkept.phase i x).done hback
  obtain ⟨m, hm, hqos, hid, rfl, hnext⟩ := of_offered hoffered
  exact ⟨⟨m, hm, hqos, hid, of_decide_eq_true hnext, List.mem_of_mem_filter hitem⟩, hsame⟩

theorem pubcomp_delivered_broken : ∃ tr l, Run Link.step start tr l ∧
    (.ack ⟨.pubcomp, false, 1⟩ ∈ l.written true) ∧
    (sentBy false tr).filter (·.msgid = 1) = (receivedBy true tr l).filter (·.msgid = 1) :=
  ⟨_, _, Run.of_trace broken start, by decide,
    (pubcomp_delivered fresh_start (Run.of_trace broken start) (known_trace known_broken start)
      false (by decide : .ack ⟨.pubcomp, false, 1⟩ ∈ (trace Link.step start broken).2.written true)).2⟩

end Delivery

section Lost
variable {tr tr' : History} {initial l l' : Link} {i : Bool} {x : Nat} {item : Letter}

theorem of_back_done {pack : Packet} (h : back x pack = some .done) :
    ∃ dup, pack = .ack ⟨.pubcomp, dup, x⟩ := by
  cases pack with
  | publish => cases h
  | ack ack =>
    obtain ⟨type, dup, msgId⟩ := ack
    rw [back] at h
    split at h
    · rename_i hx
      obtain rfl : msgId = x := hx
      cases type with
      | pubcomp => exact ⟨dup, rfl⟩
      | puback | pubrec | pubrel => cases h
    · cases h

/-- The exchange with one id is stuck for good. -/
structure Hopeless (i : Bool) (x : Nat) (item : Letter) (room : Nat) (l : Link) : Prop where
  sane : Sane l
  stuck : ∃ s g, Stuck item (slot l i x s g)
  room : (l.clients i).maxInflightMessages = room

theorem Hopeless.run {room : Nat} (h : Run Link.step l tr l') (hknown : ∀ e ∈ tr, Known e.input)
    (hl : Hopeless i x item room l) : Hopeless i x item room l' := by
  refine h.invariant_of (Hopeless i x item room) (fun e => Known e.input)
    (fun l m n l' hl hm hstep => ?_) hknown hl
  obtain ⟨s, g, hstuck⟩ := hl.stuck
  obtain ⟨got, hadvances⟩ := step_advances hl.sane hm hstep
  exact ⟨hadvances.sane, ⟨_, _, hstuck.steps (hadvances.steps i x s g)⟩,
    (hadvances.room i).trans hl.room⟩

/-- What waits is not published. -/
theorem token_of_full {client : Clients} {topicName : CString} {payload : List Byte} {qos : Qos}
    {retained : Bool} {now : ℤ} {rc : Rc} {p : Publication}
    (hfull : client.maxInflightMessages ≤ client.outboundMsgs.length)
    (hp : mqttClientPublish topicName payload qos retained now rc client = some p) :
    p.token = none := by
  unfold mqttClientPublish at hp
  rw [if_pos hfull] at hp
  split at hp
  · cases hp
    rfl
  · split at hp
    · cases hp
    · cases hp
      rfl
    · cases hp

theorem Hopeless.publish {n : Note} {topicName : CString} {payload : List Byte} {qos : Qos}
    {retained : Bool} {now : ℤ} {rc : Rc} {room : Nat} (hroom : room ≤ 1)
    (hl : Hopeless i x item room l)
    (h : l.step (.publish i topicName payload qos retained now rc) = some (n, l')) :
    ∃ code, n = .published code none := by
  obtain ⟨p, hp, heq⟩ := Option.map_eq_some_iff.mp h
  obtain ⟨rfl, -⟩ := Prod.mk.inj heq
  obtain ⟨s, g, hstuck⟩ := hl.stuck
  obtain ⟨m, hm, -⟩ := of_offered hstuck.offered
  have hsome : 1 ≤ (l.clients i).outboundMsgs.length := List.length_pos_of_mem hm
  have hfull : (l.clients i).maxInflightMessages ≤ (l.clients i).outboundMsgs.length := by
    rw [hl.room]
    exact hroom.trans hsome
  exact ⟨p.rc, by rw [token_of_full hfull hp]⟩

/-- A message that the other application has is kept for ever when its `PUBCOMP` is lost: no
`PUBREL` of this client is marked as a duplicate, so none is answered any more. A client with
room for one message never publishes again. -/
theorem lost_pubcomp (hfresh : Fresh initial) (h : Run Link.step initial tr l)
    (hknown : ∀ e ∈ tr, Known e.input) {m : Messages} (hm : m ∈ (l.clients i).outboundMsgs)
    (hqos : m.qos = .exactlyOnce) (hnext : m.nextMessageType = some .pubcomp)
    (hgone : ∀ m' ∈ (l.clients (!i)).inboundMsgs, m'.msgid ≠ m.msgid)
    (hlost : ∀ dup, .ack ⟨.pubcomp, dup, m.msgid⟩ ∉ l.written (!i))
    (h' : Run Link.step l tr' l') (hknown' : ∀ e ∈ tr', Known e.input) :
    letter m ∈ receivedBy (!i) tr l ∧
    (∃ m' ∈ (l'.clients i).outboundMsgs, letter m' = letter m ∧ m'.qos = .exactlyOnce ∧
      m'.nextMessageType = some .pubcomp) ∧
    ((l.clients i).maxInflightMessages ≤ 1 → ∀ s topicName payload qos retained now rc n,
      ⟨s, .publish i topicName payload qos retained now rc, n⟩ ∈ tr' →
      ∃ code, n = .published code none) := by
  have hkept := kept_run hfresh h hknown
  have hfind := find_of_mem (hkept.sane.tidy i).outbound hm
  have hoffered : offered m.msgid (l.clients i).outboundMsgs = some (letter m, true) := by
    rw [offered_of_find hfind, offering, if_pos hqos, hnext]
    rfl
  have hheld : held m.msgid (l.clients (!i)).inboundMsgs = none := by
    rw [held, List.find?_eq_none.mpr fun m' hm' hid => hgone m' hm' (hasId_iff.mp hid)]
    rfl
  have hback : Back.done ∉ (l.written (!i)).filterMap (back m.msgid) := by
    intro hdone
    obtain ⟨pack, hpack, hdone⟩ := List.mem_filterMap.mp hdone
    obtain ⟨dup, rfl⟩ := of_back_done hdone
    exact hlost dup hpack
  obtain ⟨hstuck, hgot⟩ := (hkept.phase i m.msgid).stuck hoffered hheld hback
  have hl : Hopeless i m.msgid (letter m) (l.clients i).maxInflightMessages l :=
    ⟨hkept.sane, ⟨_, _, hstuck⟩, rfl⟩
  refine ⟨List.mem_of_mem_filter hgot, ?_, ?_⟩
  · obtain ⟨s, g, hstuck'⟩ := (hl.run h' hknown').stuck
    obtain ⟨m', hm', hqos', -, hletter, hnext'⟩ := of_offered hstuck'.offered
    exact ⟨m', hm', hletter, hqos', of_decide_eq_true hnext'⟩
  · intro hroom s topicName payload qos retained now rc n he
    obtain ⟨past, rest, rfl⟩ := List.append_of_mem he
    obtain ⟨hpast, l'', hstep, -⟩ := h'.split_at
    exact (hl.run hpast fun e he => hknown' e (List.mem_append_left _ he)).publish hroom hstep

/-- What waits for the `PUBCOMP`. -/
def waiting : Messages := ⟨.exactlyOnce, false, 1, door, [33], 5, some .pubcomp⟩

theorem lost_pubcomp_unanswered : ∃ tr l tr' l', Run Link.step start tr l ∧
    Run Link.step l tr' l' ∧ tr'.length = 4 ∧ ∃ m ∈ (l'.clients false).outboundMsgs,
      letter m = ringing ∧ m.qos = .exactlyOnce ∧ m.nextMessageType = some .pubcomp := by
  refine ⟨_, (trace Link.step start silenced).2, _, _, Run.of_trace silenced start,
    Run.of_trace unanswered _, by decide, ?_⟩
  have hlost := lost_pubcomp (i := false) (m := waiting) fresh_start (Run.of_trace silenced start)
    (known_trace known_silenced start) (by decide) rfl rfl (by decide) (by decide)
    (Run.of_trace unanswered _) (known_trace known_unanswered _)
  exact hlost.2.1

end Lost

end Hamster.Contract.ExactlyOnce
