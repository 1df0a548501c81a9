import Hamster.Contract.DeviceDelivery

/-!
# When the connection of the MQTT hamster is gone

main connects once, looks at no return code of `MQTTClient_publish`, and connlost only prints.
What becomes of it depends on where it is when the connection ends.
-/
namespace Hamster.Contract.DeviceLost

open Lib.Bytes Lib.Scanf Lib.Runs Mqtt.Session Mqtt.Connection Mqtt.Steady Iot.Wheel Iot.Device
open DeviceDelivery

/-- main does this only once, before the admission. -/
def opens : Action → Bool
  | .library (.connect _ _) => true
  | _ => false

/-- main goes on by itself. -/
def ofMain : Action → Bool
  | .poll | .publish _ _ => true
  | .command _ _ | .library _ => false

section Closed
variable {l l' : Link} {m : Move} {n : Note}

/-- What is left of a connection whose end `false` is gone. -/
structure Gone (l l' : Link) : Prop where
  closed : (l'.clients false).connected = false
  written : (l'.written false).Sublist (l.written false)

theorem Gone.trans {l'' : Link} (h : Gone l l') (h' : Gone l' l'') : Gone l l'' :=
  ⟨h'.closed, h'.written.trans h.written⟩

/-- The other end acts. -/
theorem gone_other (hclosed : (l.clients false).connected = false)
    (hclient : l'.clients false = l.clients false) (hwritten : l'.written false = l.written false) :
    Gone l l' :=
  ⟨by rw [hclient]; exact hclosed, by rw [hwritten]⟩

theorem gone_publish (topicName : CString) (payload : List Byte) (qos : Qos) (retained : Bool)
    (now : ℤ) (rc : Rc) {client : Clients} (hclosed : client.connected = false) :
    mqttClientPublish topicName payload qos retained now rc client =
      some ⟨mqttclientDisconnected, none, [], client⟩ := by
  unfold mqttClientPublish
  rw [hclosed]
  rfl

theorem gone_step (deliveredtoken : Nat) (hclosed : (l.clients false).connected = false)
    (hopens : opens (.library m) = false)
    (hpublish : ∀ topicName payload qos retained now rc,
      m ≠ .publish false topicName payload qos retained now rc)
    (h : l.step m = some (n, l')) : Gone l l' ∧ delivered deliveredtoken n = deliveredtoken := by
  cases m with
  | publish side topicName payload qos retained now rc =>
    cases side with
    | false => exact (hpublish _ _ _ _ _ _ rfl).elim
    | true =>
      obtain ⟨p, -, heq⟩ := Option.map_eq_some_iff.mp h
      obtain ⟨rfl, rfl⟩ := Prod.mk.inj heq
      obtain ⟨-, hclient, -, hwritten⟩ := resend_frame l true (p.client, p.sent)
      exact ⟨gone_other hclosed hclient hwritten, rfl⟩
  | cycle side now rc =>
    rw [Link.step] at h
    split at h
    · rename_i hopen
      split at h
      · cases h
      · rename_i pack rest hpacks
        cases h
        cases side with
        | false =>
          rw [hclosed] at hopen
          cases hopen
        | true =>
          obtain ⟨-, hclient, -, hrest⟩ :=
            react_frame l true rest (handle rc (l.clients true) now pack)
          rw [Bool.not_true] at hclient hrest hpacks
          refine ⟨⟨by rw [hclient]; exact hclosed, ?_⟩, ?_⟩
          · rw [hrest, hpacks]
            exact List.sublist_cons_self ..
          · rw [delivered_told, told_confirms_peer]
    · cases h
  | retry side now doRetry rc =>
    cases h
    cases side with
    | false =>
      have hretry : Mqtt.Session.retry now doRetry false now rc (l.clients false) =
          (l.clients false, []) := by
        unfold Mqtt.Session.retry
        rw [hclosed]
        rfl
      obtain ⟨hclient, -, hwritten, -⟩ := resend_frame l false (l.clients false, [])
      rw [hretry]
      exact ⟨gone_other hclosed hclient (hwritten.trans (List.append_nil _)), rfl⟩
    | true =>
      obtain ⟨-, hclient, -, hwritten⟩ :=
        resend_frame l true (Mqtt.Session.retry now doRetry false now rc (l.clients true))
      exact ⟨gone_other hclosed hclient hwritten, rfl⟩
  | arrived side taken =>
    rw [Link.step] at h
    split at h
    · rename_i hopen
      split at h
      · cases h
      · cases h
        cases side with
        | false =>
          rw [hclosed] at hopen
          cases hopen
        | true =>
          refine ⟨gone_other hclosed ?_ ?_, rfl⟩
          · split
            · simp [Link.setClient]
            · rfl
          · split
            · rfl
            · rfl
    · cases h
  | lose left =>
    rw [Link.step] at h
    split at h
    · rename_i hleft
      cases h
      exact ⟨⟨hclosed, hleft.1⟩, rfl⟩
    · cases h
  | disconnect side =>
    cases h
    cases side with
    | false =>
      refine ⟨⟨?_, List.Sublist.refl _⟩, rfl⟩
      have hclient : (l.setClient false (closeSession (l.clients false))).clients false =
          closeSession (l.clients false) := by simp [Link.setClient]
      rw [hclient]
      exact closed _
    | true => exact ⟨gone_other hclosed (by simp [Link.setClient]) rfl, rfl⟩
  | connect now rc => cases hopens

end Closed

section Runs
variable {hamsterId : BitVec 32} {s s' : System} {tr : DeviceDelivery.History} {n : Note} {token : Nat}

/-- main waits for a confirmation that does not come any more. -/
structure Hangs (main : Main) (l : Link) (s : System) : Prop where
  main : s.main = main
  gone : Gone l s.link

theorem hangs_step {main : Main} {l : Link} {a : Action} (htodo : main.todo ≠ [])
    (hwaiting : main.waiting = true) (htoken : main.token = some token)
    (hne : main.deliveredtoken ≠ token) (h : Hangs main l s)
    (hopens : opens a = false) (hstep : Iot.Device.step hamsterId s a = some (n, s')) :
    Hangs main l s' ∧ (a = .poll ∨ ∃ m, a = .library m) := by
  obtain ⟨hmain, hgone⟩ := h
  cases a with
  | command c now =>
    obtain ⟨msgs, hamster, hnil, -⟩ := command_cases hstep
    rw [hmain] at hnil
    exact absurd hnil htodo
  | publish now rc =>
    obtain ⟨p, todo, q, -, hidle, -⟩ := publish_cases hstep
    rw [hmain, hwaiting] at hidle
    cases hidle
  | poll =>
    obtain ⟨p, todo, given, -, -, hgiven, -, ⟨hdone, -⟩ | ⟨-, rfl⟩⟩ := poll_cases hstep
    · rw [hmain] at hdone hgiven
      obtain rfl : given = token := Option.some.inj (hgiven.symm.trans htoken)
      exact absurd hdone hne
    · exact ⟨⟨hmain, hgone⟩, .inl rfl⟩
  | library m =>
    obtain ⟨hpublish, link, hlink, rfl⟩ := library_cases hstep
    obtain ⟨hrest, hdelivered⟩ :=
      gone_step s.main.deliveredtoken hgone.closed hopens hpublish hlink
    refine ⟨⟨?_, hgone.trans hrest⟩, .inr ⟨m, rfl⟩⟩
    dsimp only
    rw [hdelivered]
    exact hmain

/-- A connection that ends while main waits leaves it waiting: no further command is carried out,
nothing more is published, in any continuation. -/
theorem lost_waiting (h : Run (Iot.Device.step hamsterId) s tr s')
    (hclosed : (s.link.clients false).connected = false) (htodo : s.main.todo ≠ [])
    (hwaiting : s.main.waiting = true) (htoken : s.main.token = some token)
    (hne : s.main.deliveredtoken ≠ token) (honce : ∀ e ∈ tr, opens e.input = false) :
    s'.main = s.main ∧ commands tr = [] ∧ (∀ e ∈ tr, e.input = .poll ∨ ∃ m, e.input = .library m) ∧
      (s'.link.written false).Sublist (s.link.written false) := by
  have hrun : Hangs s.main s.link s' ∧ ∀ e ∈ tr, e.input = .poll ∨ ∃ m, e.input = .library m := by
    refine h.extend (P := fun tr s' => (∀ e ∈ tr, opens e.input = false) → Hangs s.main s.link s' ∧
      ∀ e ∈ tr, e.input = .poll ∨ ∃ m, e.input = .library m) ?_ ?_ honce
    · exact fun _ => ⟨⟨rfl, hclosed, List.Sublist.refl _⟩, List.forall_mem_nil _⟩
    · intro tr t a n t' ih hstep honce
      obtain ⟨hhangs, hpast⟩ := ih fun e he => honce e (List.mem_append_left _ he)
      have hopens : opens a = false :=
        honce ⟨t, a, n⟩ (List.mem_append_right _ (List.mem_singleton.mpr rfl))
      obtain ⟨hnext, ha⟩ := hangs_step htodo hwaiting htoken hne hhangs hopens hstep
      refine ⟨hnext, fun e he => ?_⟩
      rcases List.mem_append.mp he with he | he
      · exact hpast e he
      · rw [List.mem_singleton.mp he]
        exact ha
  obtain ⟨hhangs, hinputs⟩ := hrun
  refine ⟨hhangs.main, List.filterMap_eq_nil_iff.mpr fun e he => ?_, hinputs, hhangs.gone.written⟩
  rcases hinputs e he with hpoll | ⟨m, hm⟩
  · rw [hpoll]
  · rw [hm]

/-- main goes on as if it had published. -/
structure Drops (hamster : Device) (l : Link) (tr : DeviceDelivery.History) (s : System) : Prop where
  gone : Gone l s.link
  token : s.main.token = some s.main.deliveredtoken
  wheel : ∃ run, Run Iot.Wheel.step hamster run s.main.hamster ∧ inputs run = commands tr
  keeps : ∀ p ∈ s.main.todo, p.clears = false
  busy : s.main.waiting = true → s.main.todo ≠ []
  dropped : ∀ e ∈ tr, ∀ now rc, e.input = .publish now rc →
    e.output = .published mqttclientDisconnected none

theorem clears_posting (m : Message) : (posting hamsterId m).clears = false := by
  cases m with
  | position | state | wheels => rfl

/-- What is added to a history without a command or a publication. -/
theorem dropped_snoc {e : Event System Action Note}
    (h : ∀ e ∈ tr, ∀ now rc, e.input = .publish now rc →
      e.output = .published mqttclientDisconnected none)
    (he : ∀ now rc, e.input = .publish now rc → e.output = .published mqttclientDisconnected none) :
    ∀ e' ∈ tr ++ [e], ∀ now rc, e'.input = .publish now rc →
      e'.output = .published mqttclientDisconnected none := by
  intro e' he'
  rcases List.mem_append.mp he' with he' | he'
  · exact h e' he'
  · rw [List.mem_singleton.mp he']
    exact he

theorem drops_step {hamster : Device} {l : Link} {a : Action} (h : Drops hamster l tr s)
    (hopens : opens a = false) (hstep : Iot.Device.step hamsterId s a = some (n, s')) :
    Drops hamster l (tr ++ [⟨s, a, n⟩]) s' := by
  obtain ⟨run, hrun, hinputs⟩ := h.wheel
  cases a with
  | command c now =>
    obtain ⟨msgs, next, htodo, hwheel, rfl, rfl⟩ := command_cases hstep
    refine ⟨h.gone, h.token, ⟨run ++ [⟨s.main.hamster, (c, now), msgs⟩], ?_, ?_⟩, ?_, ?_, ?_⟩
    · exact hrun.append (.single hwheel)
    · rw [commands_snoc, ← hinputs]
      exact List.map_append
    · intro p hp
      obtain ⟨m, -, rfl⟩ := List.mem_map.mp hp
      exact clears_posting m
    · exact fun hw => absurd htodo (h.busy hw)
    · exact dropped_snoc h.dropped fun _ _ heq => nomatch heq
  | publish now rc =>
    obtain ⟨p, todo, q, htodo, -, hq, rfl, rfl⟩ := publish_cases hstep
    rw [gone_publish p.topic p.payload p.qos p.retained now rc h.gone.closed] at hq
    obtain rfl := Option.some.inj hq
    have hkeeps : p.clears = false := h.keeps p (by rw [htodo]; exact List.mem_cons_self)
    obtain ⟨hclient, -, hwritten, -⟩ := resend_frame s.link false (s.link.clients false, [])
    have hrest : Gone s.link (s.link.resend false (s.link.clients false, [])) :=
      gone_other h.gone.closed hclient (hwritten.trans (List.append_nil _))
    refine ⟨h.gone.trans hrest, ?_, ⟨run, hrun, ?_⟩, ?_, fun _ => List.cons_ne_nil _ _, ?_⟩
    · dsimp only
      rw [hkeeps]
      exact h.token
    · exact carried_snoc hinputs rfl
    · intro p' hp'
      apply h.keeps
      rw [htodo]
      exact hp'
    · exact dropped_snoc h.dropped fun _ _ _ => rfl
  | poll =>
    obtain ⟨p, todo, token, htodo, -, -, rfl, ⟨-, rfl⟩ | ⟨-, rfl⟩⟩ := poll_cases hstep
    · refine ⟨h.gone, h.token, ⟨run, hrun, ?_⟩, ?_, fun hw => (nomatch hw), ?_⟩
      · exact carried_snoc hinputs rfl
      · intro p' hp'
        apply h.keeps
        rw [htodo]
        exact List.mem_cons_of_mem _ hp'
      · exact dropped_snoc h.dropped fun _ _ heq => nomatch heq
    · refine ⟨h.gone, h.token, ⟨run, hrun, ?_⟩, h.keeps, h.busy, ?_⟩
      · exact carried_snoc hinputs rfl
      · exact dropped_snoc h.dropped fun _ _ heq => nomatch heq
  | library m =>
    obtain ⟨hpublish, link, hlink, rfl⟩ := library_cases hstep
    obtain ⟨hrest, hdelivered⟩ :=
      gone_step s.main.deliveredtoken h.gone.closed hopens hpublish hlink
    refine ⟨h.gone.trans hrest, ?_, ⟨run, hrun, ?_⟩, h.keeps, h.busy, ?_⟩
    · dsimp only
      rw [hdelivered]
      exact h.token
    · exact carried_snoc hinputs rfl
    · exact dropped_snoc h.dropped fun _ _ heq => nomatch heq

/-- Nothing is published, and main does not see it. -/
theorem publish_dropped {p : Posting} {todo : List Posting}
    (hclosed : (s.link.clients false).connected = false) (htodo : s.main.todo = p :: todo)
    (hwaiting : s.main.waiting = false) (hclears : p.clears = false) :
    Iot.Device.step hamsterId s (.publish 0 .complete) =
      some (.published mqttclientDisconnected none,
        ⟨{ s.main with waiting := true }, s.link.resend false (s.link.clients false, [])⟩) := by
  have hstep : Iot.Device.step hamsterId s (.publish 0 .complete) = _ := publish_step htodo hwaiting
    (gone_publish p.topic p.payload p.qos p.retained 0 .complete hclosed)
  rw [hstep, hclears]
  rfl

/-- The way back to the menu is open. -/
theorem drops_finish {todo : List Posting} (hclosed : (s.link.clients false).connected = false)
    (htoken : s.main.token = some s.main.deliveredtoken) (htodo : s.main.todo = todo)
    (hkeeps : ∀ p ∈ todo, p.clears = false) (hbusy : s.main.waiting = true → todo ≠ []) :
    ∃ tr t, Run (Iot.Device.step hamsterId) s tr t ∧ t.main.todo = [] ∧
      ∀ e ∈ tr, ofMain e.input = true := by
  induction todo generalizing s with
  | nil => exact ⟨[], s, .nil s, htodo, List.forall_mem_nil _⟩
  | cons p todo ih =>
    have hrest : ∀ p ∈ todo, p.clears = false := fun p' hp' => hkeeps p' (List.mem_cons_of_mem _ hp')
    have hpolled {s : System} (hclosed : (s.link.clients false).connected = false)
        (htoken : s.main.token = some s.main.deliveredtoken) (htodo : s.main.todo = p :: todo)
        (hwaiting : s.main.waiting = true) :
        ∃ tr t, Run (Iot.Device.step hamsterId) s tr t ∧ t.main.todo = [] ∧
          ∀ e ∈ tr, ofMain e.input = true := by
      obtain ⟨tr, t, hrun, hmenu, hmain⟩ :=
        ih (s := { s with main := { s.main with todo, waiting := false } }) hclosed htoken rfl hrest
          fun hw => nomatch hw
      exact ⟨_, t, .cons (poll_done htodo hwaiting htoken) hrun, hmenu,
        List.forall_mem_cons.mpr ⟨rfl, hmain⟩⟩
    cases hwaiting : s.main.waiting with
    | true => exact hpolled hclosed htoken htodo hwaiting
    | false =>
      have hclears : p.clears = false := hkeeps p List.mem_cons_self
      have hpublish : Iot.Device.step hamsterId s (.publish 0 .complete) = _ :=
        publish_dropped hclosed htodo hwaiting hclears
      obtain ⟨hclient, -⟩ := resend_frame s.link false (s.link.clients false, [])
      obtain ⟨tr, t, hrun, hmenu, hmain⟩ := hpolled
        (s := ⟨{ s.main with waiting := true }, s.link.resend false (s.link.clients false, [])⟩)
        (by rw [hclient]; exact hclosed) htoken htodo rfl
      exact ⟨_, t, .cons hpublish hrun, hmenu, List.forall_mem_cons.mpr ⟨rfl, hmain⟩⟩

/-- A connection that ends while main is at the menu is not noticed: every further command is
carried out, every publication of it is refused, the wait for it is over at once, and main comes
back to the menu by itself. -/
theorem lost_at_menu (h : Run (Iot.Device.step hamsterId) s tr s')
    (hclosed : (s.link.clients false).connected = false) (htodo : s.main.todo = [])
    (hwaiting : s.main.waiting = false) (htoken : s.main.token = some s.main.deliveredtoken)
    (honce : ∀ e ∈ tr, opens e.input = false) :
    (∃ run, Run Iot.Wheel.step s.main.hamster run s'.main.hamster ∧ inputs run = commands tr) ∧
    (∀ e ∈ tr, ∀ now rc, e.input = .publish now rc →
      e.output = .published mqttclientDisconnected none) ∧
    (s'.link.written false).Sublist (s.link.written false) ∧
    s'.main.token = some s'.main.deliveredtoken ∧
    ∃ tr' t, Run (Iot.Device.step hamsterId) s' tr' t ∧ t.main.todo = [] ∧
      ∀ e ∈ tr', ofMain e.input = true := by
  have hdrops : Drops s.main.hamster s.link tr s' := by
    refine h.extend (P := fun tr s' => (∀ e ∈ tr, opens e.input = false) →
      Drops s.main.hamster s.link tr s') ?_ ?_ honce
    · refine fun _ => ⟨⟨hclosed, List.Sublist.refl _⟩, htoken, ⟨[], .nil _, rfl⟩, ?_, ?_,
        List.forall_mem_nil _⟩
      · rw [htodo]
        exact List.forall_mem_nil _
      · intro hw
        rw [hwaiting] at hw
        cases hw
    · intro tr t a n t' ih hstep honce
      have hdrops := ih fun e he => honce e (List.mem_append_left _ he)
      have hopens : opens a = false :=
        honce ⟨t, a, n⟩ (List.mem_append_right _ (List.mem_singleton.mpr rfl))
      exact drops_step hdrops hopens hstep
  exact ⟨hdrops.wheel, hdrops.dropped, hdrops.gone.written, hdrops.token,
    drops_finish hdrops.gone.closed hdrops.token rfl hdrops.keeps hdrops.busy⟩

end Runs

/-- In the middle of the admission. -/
def admitting : List Action := [.publish 1 .complete, .poll, .library (.disconnect false)]

/-- The client's end is gone, and main waits for the first confirmation. -/
def waitingStill : System := (trace (Iot.Device.step 7) (start 7 0 admitted) admitting).2

theorem lost_waiting_admission : ∃ tr s', Run (Iot.Device.step 7) waitingStill tr s' ∧
    tr.length = 3 ∧ s'.main = waitingStill.main ∧ commands tr = [] := by
  have hrun : Run (Iot.Device.step 7) waitingStill _ _ :=
    Run.of_trace [.poll, .library (.cycle true 2 .complete), .poll] waitingStill
  have htoken : waitingStill.main.token = some 1 := by decide +kernel
  obtain ⟨hmain, hcommands, -⟩ := lost_waiting hrun (by decide +kernel) (by decide +kernel)
    (by decide +kernel) htoken (by decide +kernel) (by decide +kernel)
  exact ⟨_, _, hrun, by decide +kernel, hmain, hcommands⟩

/-- After the admission and one command, at the menu. -/
def unheard : System :=
  (trace (Iot.Device.step 7) (start 7 0 admitted) (moving ++ [.library (.disconnect false)])).2

theorem lost_at_menu_moving : ∃ tr s' run, Run (Iot.Device.step 7) unheard tr s' ∧
    Run Iot.Wheel.step unheard.main.hamster run s'.main.hamster ∧ inputs run = commands tr ∧
    commands tr = [(.sleep, 60)] := by
  have hrun : Run (Iot.Device.step 7) unheard _ _ :=
    Run.of_trace [.command .sleep 60, .publish 60 .complete, .poll, .publish 61 .complete] unheard
  obtain ⟨⟨run, hwheel, hinputs⟩, -⟩ := lost_at_menu hrun (by decide +kernel) (by decide +kernel)
    (by decide +kernel) (by decide +kernel) (by decide +kernel)
  exact ⟨_, _, run, hrun, hwheel, hinputs, by decide +kernel⟩

end Hamster.Contract.DeviceLost
