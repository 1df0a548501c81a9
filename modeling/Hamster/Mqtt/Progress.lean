import Hamster.Mqtt.Connection
import Hamster.Mqtt.Outgoing

/-!
# A connection, one message id at a time

What one end does is, for each direction and each message id, a few steps of the exchange of
one message. So every move of a connection is.
-/
namespace Hamster.Mqtt.Progress

open Lib.Bytes Lib.Handshake Lib.Runs Mqtt.Session Mqtt.Exchange Mqtt.Outgoing Mqtt.Connection
open Relation (ReflTransGen)

/-- The messages with one id on their way from one end to the other. -/
def slot (l : Link) (i : Bool) (x : Nat) (sent got : List Letter) : Slot Letter where
  offered := offered x (l.clients i).outboundMsgs
  held := held x (l.clients (!i)).inboundMsgs
  forth := (l.written i).filterMap (forth x)
  back := (l.written (!i)).filterMap (back x)
  sent := sent.filter (·.msgid = x)
  got := got.filter (·.msgid = x)

def arrivals (client : Clients) : List Letter := client.messageQueue.filterMap arrival

/-- What an event gives to the client at one end to send with QoS 2. -/
def postedBy (i : Bool) : Event Link Move Note → Option Letter
  | ⟨_, .publish side topicName payload qos retained _ _, .published _ token⟩ =>
    if side = i then posted topicName payload qos retained token else none
  | _ => none

/-- What an event takes out of the queue at one end. -/
def takenBy (j : Bool) : Event Link Move Note → Option Letter
  | ⟨_, _, .messageArrived side message true⟩ => if side = j then arrival message else none
  | _ => none

/-- The QoS is one that there is. -/
def Known : Move → Prop
  | .publish _ _ _ qos _ _ _ => qos ≠ .reserved
  | _ => True

/-- Both sessions are kept, and in order. -/
structure Sane (l : Link) : Prop where
  tidy : ∀ i, Tidy (l.clients i)
  plain : ∀ i, ∀ p ∈ l.written i, Plain p

/-- The packets it reads, those it writes, and what that says of each id. -/
structure Acts (client client' : Clients) (read sent : List Packet) (item : Option Letter)
    (got : List Letter) : Prop where
  tidy : Tidy client'
  room : client'.maxInflightMessages = client.maxInflightMessages
  plain : ∀ p ∈ sent, Plain p
  queue : arrivals client' = arrivals client ++ got
  sends : ∀ (x : Nat) (h : Option Letter) (f : List (Forth Letter)) (b : List Back)
    (s g : List Letter), ReflTransGen Step
      ⟨offered x client.outboundMsgs, h, f, read.filterMap (back x) ++ b, s, g⟩
      ⟨offered x client'.outboundMsgs, h, f ++ sent.filterMap (forth x), b,
        s ++ (item.filter (·.msgid = x)).toList, g⟩
  receives : ∀ (x : Nat) (o : Option (Letter × Bool)) (f : List (Forth Letter)) (b : List Back)
    (s g : List Letter), ReflTransGen Step
      ⟨o, held x client.inboundMsgs, read.filterMap (forth x) ++ f, b, s, g⟩
      ⟨o, held x client'.inboundMsgs, f, b ++ sent.filterMap (back x), s,
        g ++ got.filter (·.msgid = x)⟩

section Acts
variable {client : Clients}

theorem filterMap_single {ε : Type} (f : Packet → Option ε) (pack : Packet) :
    [pack].filterMap f = (f pack).toList := by
  cases h : f pack with
  | none => rw [List.filterMap_cons_none h]; rfl
  | some e => rw [List.filterMap_cons_some h]; rfl

theorem handle_acts (h : Tidy client) {pack : Packet} (hp : Plain pack) (rc : Rc) (now : ℤ) :
    ∃ got, Acts client (handle rc client now pack).client [pack] (handle rc client now pack).sent
      none got := by
  obtain ⟨htidy, hroom, hplain⟩ := handle_sound h rc now pack
  obtain ⟨q, hq, hheard⟩ := handle_heard h hp rc now
  have hlearnt := handle_learnt h hp rc now
  refine ⟨q.filterMap arrival, htidy, hroom, hplain, ?_, fun x o f b s g => ?_,
    fun x o f b s g => ?_⟩
  · rw [arrivals, hq, List.filterMap_append, arrivals]
  · rw [filterMap_single, Option.filter_none, Option.toList_none, List.append_nil]
    exact (hlearnt x).steps
  · rw [filterMap_single]
    exact (hheard x).steps

/-- Who writes of its own accord reads nothing, and hands nothing over. -/
theorem resent_acts {r : Clients × List Packet} (h : Resent client r) :
    Acts client r.1 [] r.2 none [] := by
  refine ⟨h.tidy, h.room, h.plain, ?_, fun x o f b s g => ?_, fun x o f b s g => ?_⟩
  · rw [arrivals, h.queue, arrivals, List.append_nil]
  · rw [h.offers, Option.filter_none, Option.toList_none, List.append_nil]
    exact (h.forth x).steps
  · rw [h.inbound, h.back, List.filter_nil, List.append_nil, List.append_nil]
    exact .refl

theorem posted_acts {item : Option Letter} {p : Publication} (h : Posted client item p) :
    Acts client p.client [] p.sent item [] := by
  refine ⟨h.tidy, h.room, h.plain, ?_, fun x o f b s g => (h.forth x).steps,
    fun x o f b s g => ?_⟩
  · rw [arrivals, h.queue, arrivals, List.append_nil]
  · rw [h.inbound, h.back, List.filter_nil, List.append_nil, List.append_nil]
    exact .refl

theorem Acts.close {client' : Clients} {read sent : List Packet} {item : Option Letter}
    {got : List Letter} (h : Acts client client' read sent item got) :
    Acts client (closeSession client') read sent item got := by
  rw [h.tidy.close]
  exact ⟨h.tidy.setConnected _ _, h.room, h.plain, h.queue, h.sends, h.receives⟩

end Acts

/-- What is posted, taken and handed over on the way from one state to another. -/
structure Advances (l l' : Link) (item taken : Bool → Option Letter) (got : Bool → List Letter) :
    Prop where
  sane : Sane l'
  room : ∀ i, (l'.clients i).maxInflightMessages = (l.clients i).maxInflightMessages
  queue : ∀ j, (taken j).toList ++ arrivals (l'.clients j) = arrivals (l.clients j) ++ got j
  steps : ∀ (i : Bool) (x : Nat) (s g : List Letter), ReflTransGen Step (slot l i x s g)
    (slot l' i x (s ++ (item i).toList) (g ++ got (!i)))

theorem filter_toList (item : Option Letter) (x : Nat) :
    item.toList.filter (·.msgid = x) = (item.filter (·.msgid = x)).toList := by
  cases item with
  | none => rfl
  | some l => by_cases hx : l.msgid = x <;> simp [Option.filter_some, hx]

/-- One end acts, the other does not. -/
theorem Acts.advances {l : Link} (l' : Link) {side : Bool} {client' : Clients} {read sent : List Packet}
    {item : Option Letter} {got : List Letter} (hsane : Sane l)
    (h : Acts (l.clients side) client' read sent item got)
    (hclient : l'.clients side = client') (hother : l'.clients (!side) = l.clients (!side))
    (hsent : l'.written side = l.written side ++ sent)
    (hread : l.written (!side) = read ++ l'.written (!side)) :
    Advances l l' (fun i => if side = i then item else none) (fun _ => none)
      (fun j => if side = j then got else []) := by
  subst hclient
  refine ⟨⟨fun i => ?_, fun i => ?_⟩, fun i => ?_, fun j => ?_, fun i x s g => ?_⟩
  · rcases Bool.eq_or_eq_not i side with rfl | rfl
    · exact h.tidy
    · rw [hother]
      exact hsane.tidy _
  · rcases Bool.eq_or_eq_not i side with rfl | rfl
    · rw [hsent]
      intro p hp
      exact (List.mem_append.mp hp).elim (hsane.plain _ p) (h.plain p)
    · intro p hp
      refine hsane.plain (!side) p ?_
      rw [hread]
      exact List.mem_append_right _ hp
  · rcases Bool.eq_or_eq_not i side with rfl | rfl
    · exact h.room
    · rw [hother]
  · rw [Option.toList_none, List.nil_append]
    rcases Bool.eq_or_eq_not j side with rfl | rfl
    · rw [if_pos rfl]
      exact h.queue
    · rw [hother, if_neg (Bool.eq_not.mp rfl).symm, List.append_nil]
  · rcases Bool.eq_or_eq_not i side with rfl | rfl
    · have hsteps := h.sends x (held x (l.clients (!i)).inboundMsgs)
        ((l.written i).filterMap (forth x)) ((l'.written (!i)).filterMap (back x))
        (s.filter (·.msgid = x)) (g.filter (·.msgid = x))
      unfold slot
      rw [hother, hsent, hread, if_pos rfl, if_neg (by simp), List.append_nil,
        List.filterMap_append, List.filterMap_append, List.filter_append, filter_toList]
      exact hsteps
    · have hsteps := h.receives x (offered x (l.clients (!side)).outboundMsgs)
        ((l'.written (!side)).filterMap (forth x)) ((l.written side).filterMap (back x))
        (s.filter (·.msgid = x)) (g.filter (·.msgid = x))
      unfold slot
      rw [Bool.not_not, hother, hsent, hread, if_pos rfl, if_neg (by simp), Option.toList_none,
        List.append_nil, List.filterMap_append, List.filterMap_append, List.filter_append]
      exact hsteps

/-- Nobody acts; something may be lost. -/
theorem lose_advances {l l' : Link} (hsane : Sane l)
    (hclients : ∀ i, l'.clients i = l.clients i ∨ l'.clients i = closeSession (l.clients i))
    (hwritten : ∀ i, (l'.written i).Sublist (l.written i)) :
    Advances l l' (fun _ => none) (fun _ => none) (fun _ => []) := by
  have hsame (i : Bool) : Tidy (l'.clients i) ∧
      (l'.clients i).outboundMsgs = (l.clients i).outboundMsgs ∧
      (l'.clients i).inboundMsgs = (l.clients i).inboundMsgs ∧
      (l'.clients i).messageQueue = (l.clients i).messageQueue ∧
      (l'.clients i).maxInflightMessages = (l.clients i).maxInflightMessages := by
    rcases hclients i with h | h
    · rw [h]
      exact ⟨hsane.tidy i, rfl, rfl, rfl, rfl⟩
    · rw [h, (hsane.tidy i).close]
      exact ⟨(hsane.tidy i).setConnected _ _, rfl, rfl, rfl, rfl⟩
  refine ⟨⟨fun i => (hsame i).1, fun i p hp => hsane.plain i p ((hwritten i).subset hp)⟩,
    fun i => (hsame i).2.2.2.2, fun j => ?_, fun i x s g => ?_⟩
  · rw [arrivals, (hsame j).2.2.2.1, arrivals, Option.toList_none, List.nil_append, List.append_nil]
  · unfold slot
    rw [(hsame i).2.1, (hsame (!i)).2.2.1, Option.toList_none, List.append_nil, List.append_nil]
    exact .single (.lose ((hwritten i).filterMap _) ((hwritten (!i)).filterMap _))

theorem Advances.trans {l l' l'' : Link}
    (h : Advances l l' (fun _ => none) (fun _ => none) (fun _ => []))
    (h' : Advances l' l'' (fun _ => none) (fun _ => none) (fun _ => [])) :
    Advances l l'' (fun _ => none) (fun _ => none) (fun _ => []) := by
  refine ⟨h'.sane, fun i => (h'.room i).trans (h.room i), fun j => ?_, fun i x s g => ?_⟩
  · rw [h'.queue j, ← h.queue j]
    exact List.append_nil _
  · have hsteps := h'.steps i x (s ++ (none : Option Letter).toList) (g ++ [])
    rw [List.append_assoc, List.append_assoc] at hsteps
    exact (h.steps i x s g).trans hsteps

theorem resend_advances {l : Link} (hsane : Sane l) (side : Bool) {r : Clients × List Packet}
    (h : Resent (l.clients side) r) :
    Advances l (l.resend side r) (fun _ => none) (fun _ => none) (fun _ => []) := by
  have hadvances := (resent_acts h).advances (l.resend side r) hsane
    (by simp [Link.resend, Link.setClient, Link.write])
    (by simp [Link.resend, Link.setClient, Link.write])
    (by simp [Link.resend, Link.setClient, Link.write])
    (by simp [Link.resend, Link.setClient, Link.write])
  simpa using hadvances

theorem reopen_advances {l : Link} (hsane : Sane l) (now : ℤ) (rc : Bool → Nat → Rc) :
    Advances l (l.reopen now rc) (fun _ => none) (fun _ => none) (fun _ => []) := by
  have hempty : Advances l { l with written := fun _ => [] } (fun _ => none) (fun _ => none)
      (fun _ => []) := lose_advances hsane (fun _ => .inl rfl) fun _ => List.nil_sublist _
  have hfirst := resend_advances hempty.sane false
    (connected_resent (hempty.sane.tidy false) now (rc false))
  have hsecond := resend_advances hfirst.sane true
    (connected_resent (hfirst.sane.tidy true) now (rc true))
  exact (hempty.trans hfirst).trans hsecond

theorem takenBy_confirms (j side : Bool) (l : Link) (m : Move) (pack : Packet) :
    takenBy j ⟨l, m, Link.confirms side pack⟩ = none := by
  cases pack with
  | publish => rfl
  | ack ack =>
    obtain ⟨type, dup, msgId⟩ := ack
    cases type <;> rfl

theorem cycle_advances {l : Link} (hsane : Sane l) {side : Bool} {pack : Packet}
    {rest : List Packet} (hwritten : l.written (!side) = pack :: rest) (rc : Rc) (now : ℤ) :
    ∃ got, Advances l ((l.read side rest).react side (handle rc (l.clients side) now pack))
      (fun _ => none) (fun _ => none) got := by
  have hplain : Plain pack := hsane.plain (!side) pack (by rw [hwritten]; exact List.mem_cons_self)
  obtain ⟨got, hacts⟩ := handle_acts (hsane.tidy side) hplain rc now
  have hclosed : Acts (l.clients side)
      (if (handle rc (l.clients side) now pack).rc = .error then
        closeSession (handle rc (l.clients side) now pack).client
      else (handle rc (l.clients side) now pack).client) [pack]
      (handle rc (l.clients side) now pack).sent none got := by
    split
    · exact hacts.close
    · exact hacts
  have hadvances := hclosed.advances
    ((l.read side rest).react side (handle rc (l.clients side) now pack)) hsane
    (by simp [Link.react, Link.read, Link.setClient, Link.write])
    (by simp [Link.react, Link.read, Link.setClient, Link.write])
    (by simp [Link.react, Link.read, Link.setClient, Link.write])
    (by simp [Link.react, Link.read, Link.setClient, Link.write, hwritten])
  refine ⟨fun j => if side = j then got else [], ?_⟩
  simpa using hadvances

theorem arrived_advances {l : Link} (hsane : Sane l) {side : Bool} {message : QEntry}
    {rest : List QEntry} (hqueue : (l.clients side).messageQueue = message :: rest) :
    Advances l (l.setClient side { l.clients side with messageQueue := rest }) (fun _ => none)
      (fun j => if side = j then arrival message else none) (fun _ => []) := by
  have hsame (i : Bool) :
      let client := (l.setClient side { l.clients side with messageQueue := rest }).clients i
      Tidy client ∧ client.outboundMsgs = (l.clients i).outboundMsgs ∧
        client.inboundMsgs = (l.clients i).inboundMsgs ∧
        client.maxInflightMessages = (l.clients i).maxInflightMessages := by
    have h := hsane.tidy i
    rcases Bool.eq_or_eq_not i side with rfl | rfl
    · simpa [Link.setClient] using
        (⟨h.keeps, h.outbound, h.inbound, h.known, h.waits, h.holds⟩ :
          Tidy { l.clients i with messageQueue := rest })
    · simpa [Link.setClient] using h
  refine ⟨⟨fun i => (hsame i).1, hsane.plain⟩, fun i => (hsame i).2.2.2, fun j => ?_,
    fun i x s g => ?_⟩
  · rcases Bool.eq_or_eq_not j side with rfl | rfl
    · rw [arrivals, arrivals, hqueue, if_pos rfl, List.append_nil]
      cases harrival : arrival message with
      | none => simp [Link.setClient, harrival]
      | some letter => simp [Link.setClient, harrival]
    · simp [arrivals, Link.setClient]
  · unfold slot
    rw [(hsame i).2.1, (hsame (!i)).2.2.1, Option.toList_none, List.append_nil, List.append_nil]
    exact .refl

theorem step_advances {l l' : Link} {m : Move} {n : Note} (hsane : Sane l) (hm : Known m)
    (h : l.step m = some (n, l')) : ∃ got, Advances l l' (fun i => postedBy i ⟨l, m, n⟩)
      (fun j => takenBy j ⟨l, m, n⟩) got := by
  cases m with
  | publish side topicName payload qos retained now rc =>
    obtain ⟨p, hp, heq⟩ := Option.map_eq_some_iff.mp h
    obtain ⟨rfl, rfl⟩ := Prod.mk.inj heq
    have hposted := posted_acts (publish_posted (hsane.tidy side) hm hp)
    exact ⟨_, hposted.advances _ hsane (by simp [Link.setClient, Link.write])
      (by simp [Link.setClient, Link.write]) (by simp [Link.setClient, Link.write])
      (by simp [Link.setClient, Link.write])⟩
  | cycle side now rc =>
    rw [Link.step] at h
    split at h
    · split at h
      · cases h
      · rename_i pack rest hwritten
        cases h
        obtain ⟨got, hadvances⟩ := cycle_advances hsane hwritten rc now
        refine ⟨got, ?_⟩
        simp only [takenBy_confirms]
        exact hadvances
    · cases h
  | retry side now doRetry rc =>
    cases h
    exact ⟨_, resend_advances hsane side (retry_resent (hsane.tidy side) now doRetry false now rc)⟩
  | arrived side taken =>
    rw [Link.step] at h
    split at h
    · split at h
      · cases h
      · rename_i message rest hqueue
        cases h
        cases taken with
        | false => exact ⟨_, lose_advances hsane (fun _ => .inl rfl) fun _ => List.Sublist.refl _⟩
        | true => exact ⟨_, arrived_advances hsane hqueue⟩
    · cases h
  | lose left =>
    rw [Link.step] at h
    split at h
    · rename_i hleft
      cases h
      refine ⟨_, lose_advances hsane (fun _ => .inl rfl) fun i => ?_⟩
      cases i with
      | false => exact hleft.1
      | true => exact hleft.2
    · cases h
  | disconnect side =>
    cases h
    refine ⟨_, lose_advances hsane (fun i => ?_) fun _ => List.Sublist.refl _⟩
    rcases Bool.eq_or_eq_not i side with rfl | rfl
    · exact .inr (by simp [Link.setClient])
    · exact .inl (by simp [Link.setClient])
  | connect now rc =>
    rw [Link.step] at h
    split at h
    · cases h
    · cases h
      exact ⟨_, reopen_advances hsane now rc⟩

end Hamster.Mqtt.Progress
