import Hamster.Contract.Integrity
import Hamster.SunRpc.Network

/-!
# Copies of requests

What a client can rely on when its requests go over UDP. The server executes every copy that
reaches it, and nothing else changes the database. An admission or a
collection does so a second time only if somebody has undone its work in between.
-/
namespace Hamster.Contract.Copies

open Lib.Bytes Lib.Clock Lib.Posix Lib.Runs Lib.Datagrams Store Store.Entry Store.Library
  Store.Scans Asylum SunRpc
open Contract.Integrity (alice)

variable {κ : Type} [DecidableEq κ]

abbrev History (κ : Type) := List (Event (Udp.Net κ) (Udp.Move κ) (Udp.Note κ))

/-- The database after the event is not what it was. -/
def alters (e : Event (Udp.Net κ) (Udp.Move κ) (Udp.Note κ)) : Bool :=
  (Udp.step e.before e.input).any fun x =>
    x.2.server.world.content .datafile ≠ e.before.server.world.content .datafile

/-- The event executes a copy of the request of `x`. -/
def executes (x : Xid κ) (e : Event (Udp.Net κ) (Udp.Move κ) (Udp.Note κ)) : Bool :=
  match e.output with
  | .executed y _ _ => y = x
  | _ => false

def executions (x : Xid κ) (tr : History κ) : History κ := tr.filter (executes x)

/-- Where the invocation changes the database. -/
def effects (x : Xid κ) (tr : History κ) : History κ := (executions x tr).filter alters

/-- A request with these arguments changes the database. -/
def AlteredBy (argp : Args) (e : Event (Udp.Net κ) (Udp.Move κ) (Udp.Note κ)) : Prop :=
  alters e = true ∧ ∃ x request result, request.val = argp ∧ e.output = .executed x request result

/-- The procedures that write. -/
def writes : Args → Bool
  | .new .. | .givetreats .. | .howsdoing .. | .collect .. => true
  | .lookup .. | .directory .. | .readentry .. => false

structure Orderly (tr : History κ) : Prop where
  /-- Only what a client has asked for changes the database, with the client's arguments. -/
  caused : ∀ l e l', tr = l ++ e :: l' → alters e = true →
    ∃ x request result, e.output = .executed x request result ∧ .began x request ∈ outputs l
  /-- Lookups, directory calls and entries that are read leave it as it is. -/
  writing : ∀ l e l', tr = l ++ e :: l' → alters e = true →
    ∃ x request result, e.output = .executed x request result ∧ writes request.val = true
  /-- What an invocation returns is the result of an execution of its request. -/
  answered : ∀ l e l' x result, tr = l ++ e :: l' → e.output = .returned x result →
    ∃ request, .executed x request result ∈ outputs l ∧ .began x request ∈ outputs l
  /-- It is that of the execution that changed the database, if there was no other. -/
  single : ∀ x, (executions x tr).length ≤ 1 → ∀ e ∈ effects x tr, ∀ result,
    .returned x result ∈ outputs tr → ∃ request, e.output = .executed x request result
  /-- A hamster is admitted anew only if it was collected. -/
  admitted : ∀ l e m e' l' o n t t', tr = l ++ e :: (m ++ e' :: l') → AlteredBy (.new o n t) e →
    AlteredBy (.new o n t') e' → ∃ c ∈ m, AlteredBy (.collect o) c
  /-- An owner collects anew only if a hamster of his was admitted. -/
  collected : ∀ l e m e' l' o, tr = l ++ e :: (m ++ e' :: l') → AlteredBy (.collect o) e →
    AlteredBy (.collect o) e' → ∃ c ∈ m, ∃ n t, AlteredBy (.new o n t) c

/-- What the procedure does to the guests. A directory call does nothing, whatever its
handle. -/
def deed : Args → Call Nat
  | .collect owner => .collect (some owner)
  | .directory _ owner hamster => .directory 0 (nullIfEmpty owner) (nullIfEmpty hamster)
  | .givetreats id treats => .givetreats id treats
  | .howsdoing id => .howsdoing id
  | .lookup owner hamster => .lookup (some owner) (some hamster)
  | .readentry id => .readentry id
  | .new owner hamster treats => .new owner hamster treats

theorem writes_of_effect {argp : Args} {now : Timestamp} {gs : List Guest}
    (h : effect now (deed argp) gs ≠ gs) : writes argp = true := by
  cases argp with
  | new | givetreats | howsdoing | collect => rfl
  | lookup | directory | readentry => exact absurd rfl h

/-- The database of the service holds these guests. -/
def Holds (s : Service) (a : State) : Prop := Represents ⟨s.world, fun _ => -1⟩ a

section Requests
variable {s t : Service} {a : State} {now : Timestamp} {argp : Args} {result : Result}

theorem request_agree (h : Holds s a) (hr : s.request now argp = some (result, t))
    (hdir : ∀ p o n, argp ≠ .directory p o n) :
    ∃ r b, a.step (now, deed argp) = some (r, b) ∧ Holds t b := by
  obtain ⟨r, hex⟩ := request_world hr
  have hstep : Session.step ⟨s.world, fun _ => -1⟩ (now, deed argp) =
      some (r, ⟨t.world, fun _ => -1⟩) := by
    cases argp with
    | directory p o n => exact absurd rfl (hdir p o n)
    | _ => exact congrArg (Option.map _) hex
  have hag := step_agree (now, deed argp) h
  rw [hstep] at hag
  obtain ⟨b, hb, hrep⟩ := hag.of_some
  exact ⟨r, b, hb, hrep⟩

/-- Where the guests stay the same, so does the database. -/
theorem request_effect (h : Holds s a) (hr : s.request now argp = some (result, t)) :
    ∃ b, Holds t b ∧ b.guests = effect now (deed argp) a.guests ∧ (b.guests = a.guests →
      t.world.content .datafile = s.world.content .datafile) := by
  by_cases hdir : ∃ p o n, argp = .directory p o n
  · obtain ⟨p, o, n, rfl⟩ := hdir
    cases hr
    have hreads := directory_onlyReads { s.world with now := now } p.toInt (nullIfEmpty o)
      (nullIfEmpty n)
    refine ⟨_, h.onlyReads ⟨⟨hreads.names, hreads.inodes⟩, hreads.nextIno, hreads.reliable⟩, rfl,
      fun _ => hreads.content .datafile⟩
  · obtain ⟨r, b, hstep, hb⟩ := request_agree h hr fun p o n he => hdir ⟨p, o, n, he⟩
    refine ⟨b, hb, State.step_guests hstep, fun hsame => ?_⟩
    rcases (State.step_outcome hstep).2 with hreg | ⟨g, hg⟩
    · exact content_eq_of_guests h hb hreg hsame
    · rw [hsame] at hg
      have hlen := congrArg List.length hg
      simp at hlen

end Requests

section Events
variable {net net' : Udp.Net κ} {m : Udp.Move κ} {note : Udp.Note κ} {a : State}

/-- The database stays, with its guests, or a request has its effect on them. -/
theorem step_effect (h : Holds net.server a) (hs : Udp.step net m = some (note, net')) :
    ∃ b, Holds net'.server b ∧
      (((∀ x i o, note ≠ .executed x i o) ∧ b.guests = a.guests ∧
          net'.server.world.content .datafile = net.server.world.content .datafile) ∨
        ∃ now x request result, note = .executed x request result ∧
          b.guests = effect now (deed request.val) a.guests ∧ (b.guests = a.guests →
            net'.server.world.content .datafile = net.server.world.content .datafile)) := by
  rcases step_server hs with ⟨hnote, he | ⟨sockets, he⟩⟩ | ⟨now, x, request, o, rfl, hroutine⟩
  · refine ⟨a, ?_, .inl ⟨hnote, rfl, ?_⟩⟩
    · rw [he]
      exact h
    · rw [he]
  · refine ⟨{ a with cursor := fun _ => .closed }, ?_, .inl ⟨hnote, rfl, ?_⟩⟩
    · rw [he]
      exact h.onlyReads ((Sys.OnlyReads.refl _).setFds _)
    · rw [he]
      rfl
  · obtain ⟨⟨result, t⟩, hreq, he⟩ := Option.map_eq_some_iff.mp hroutine
    have ht : t = net'.server := congrArg Prod.snd he
    obtain ⟨b, hb, hguests, hsame⟩ := request_effect h hreq
    rw [ht] at hb hsame
    exact ⟨b, hb, .inr ⟨now, x, request, o, rfl, hguests, hsame⟩⟩

theorem alters_iff {e : Event (Udp.Net κ) (Udp.Move κ) (Udp.Note κ)} {net' : Udp.Net κ}
    (hs : Udp.step e.before e.input = some (e.output, net')) : alters e = true ↔
      net'.server.world.content .datafile ≠ e.before.server.world.content .datafile := by
  rw [alters, hs, Option.any_some, decide_eq_true_iff]

/-- Only a request that has an effect on the guests changes the database. -/
theorem effect_of_alters {i : Udp.Move κ} (h : Holds net.server a)
    (hs : Udp.step net i = some (note, net')) (he : alters ⟨net, i, note⟩ = true) :
    ∃ b now x request result, Holds net'.server b ∧ note = .executed x request result ∧
      b.guests = effect now (deed request.val) a.guests ∧ b.guests ≠ a.guests := by
  have hne := (alters_iff (e := ⟨net, i, note⟩) hs).mp he
  obtain ⟨b, hb, ⟨-, -, hsame⟩ | ⟨now, x, request, result, rfl, hg, hsame⟩⟩ := step_effect h hs
  · exact absurd hsame hne
  · exact ⟨b, now, x, request, result, hb, rfl, hg, fun hg => hne (hsame hg)⟩

theorem effect_of_altered {i : Udp.Move κ} {argp : Args} (h : Holds net.server a)
    (hs : Udp.step net i = some (note, net')) (hA : AlteredBy argp ⟨net, i, note⟩) :
    ∃ b now, Holds net'.server b ∧ b.guests = effect now (deed argp) a.guests ∧
      b.guests ≠ a.guests := by
  obtain ⟨he, x, request, result, rfl, hnote⟩ := hA
  obtain ⟨b, now, y, request', result', hb, hnote', hg, hne⟩ := effect_of_alters h hs he
  obtain ⟨-, rfl, -⟩ := Note.executed.inj (hnote.symm.trans hnote')
  exact ⟨b, now, hb, hg, hne⟩

end Events

theorem deed_eq_new {argp : Args} {o n : CString} {t : BitVec 16} (h : deed argp = .new o n t) :
    argp = .new o n t := by
  cases argp <;> cases h
  rfl

theorem deed_eq_collect {argp : Args} {o : CString} (h : deed argp = .collect (some o)) :
    argp = .collect o := by
  cases argp <;> cases h
  rfl

/-- A hamster is there: it can be admitted only after a collection. -/
def Registered (o n : CString) (s : Service) : Prop :=
  (∃ a, Holds s a) ∧ ∃ h ∈ storeEntries s.world, byName o n h = true

/-- An owner has no hamster there: he can collect only after an admission. -/
def Vacant (o : CString) (s : Service) : Prop :=
  (∃ a, Holds s a) ∧ ∀ h ∈ storeEntries s.world, h.ownerStr ≠ o

section Guests
variable {s t : Service} {a : State} {o n : CString}

theorem registered_iff (h : Holds s a) :
    Registered o n s ↔ ∃ g ∈ a.guests, g.named o n = true := by
  rw [Registered, storeEntries_of_represents h]
  constructor
  · intro hfound
    obtain ⟨-, x, hx, hn⟩ := hfound
    obtain ⟨g, hg, rfl⟩ := List.mem_map.mp hx
    exact ⟨g, hg, (byName_entry o n g).symm.trans hn⟩
  · intro hguest
    obtain ⟨g, hg, hn⟩ := hguest
    exact ⟨⟨a, h⟩, g.entry, List.mem_map_of_mem hg, (byName_entry o n g).trans hn⟩

theorem vacant_iff (h : Holds s a) : Vacant o s ↔ ∀ g ∈ a.guests, g.owner.text ≠ o := by
  rw [Vacant, storeEntries_of_represents h]
  constructor
  · intro hnone g hg he
    obtain ⟨-, hx⟩ := hnone
    exact hx g.entry (List.mem_map_of_mem hg) ((Guest.ownerStr_entry g).trans he)
  · intro hg
    refine ⟨⟨a, h⟩, fun x hx => ?_⟩
    obtain ⟨g, hmem, rfl⟩ := List.mem_map.mp hx
    rw [Guest.ownerStr_entry]
    exact hg g hmem

/-- Both depend on the database only. -/
theorem storeEntries_of_content (h : t.world.content .datafile = s.world.content .datafile) :
    storeEntries t.world = storeEntries s.world := by
  rw [storeEntries, storeEntries, h]

end Guests

section Steps
variable {net net' : Udp.Net κ} {i : Udp.Move κ} {note : Udp.Note κ} {o n : CString}

theorem holds_step (h : ∃ a, Holds net.server a) (hs : Udp.step net i = some (note, net')) :
    ∃ b, Holds net'.server b := by
  obtain ⟨a, ha⟩ := h
  obtain ⟨b, hb, -⟩ := step_effect ha hs
  exact ⟨b, hb⟩

theorem storeEntries_step (hs : Udp.step net i = some (note, net'))
    (he : alters ⟨net, i, note⟩ = false) :
    storeEntries net'.server.world = storeEntries net.server.world := by
  apply storeEntries_of_content
  by_contra hne
  rw [(alters_iff (e := ⟨net, i, note⟩) hs).mpr hne] at he
  cases he

theorem registered_step (h : Registered o n net.server)
    (hB : ¬ AlteredBy (.collect o) ⟨net, i, note⟩) (hs : Udp.step net i = some (note, net')) :
    Registered o n net'.server := by
  obtain ⟨a, ha⟩ := h.1
  cases he : alters ⟨net, i, note⟩ with
  | false =>
    refine ⟨holds_step ⟨a, ha⟩ hs, ?_⟩
    rw [storeEntries_step hs he]
    exact h.2
  | true =>
    obtain ⟨b, now, x, request, result, hb, rfl, hg, -⟩ := effect_of_alters ha hs he
    obtain ⟨g, hmem, hnamed⟩ := (registered_iff ha).mp h
    have hother : deed request.val ≠ .collect (some g.key.1.text) := by
      intro hc
      rw [show g.key.1.text = o from (Guest.named_iff.mp hnamed).1] at hc
      exact hB ⟨he, x, request, result, deed_eq_collect hc, rfl⟩
    have hkept : g.key ∈ (effect now (deed request.val) a.guests).map Guest.key :=
      State.effect_keeps (List.mem_map_of_mem hmem) hother
    obtain ⟨g', hmem', hkey⟩ := List.mem_map.mp hkept
    rw [registered_iff hb, hg]
    refine ⟨g', hmem', ?_⟩
    rw [Guest.named_iff] at hnamed ⊢
    rw [show g'.owner = g.owner from congrArg Prod.fst hkey,
      show g'.name = g.name from congrArg Prod.snd hkey]
    exact hnamed

theorem registered_blocks {t : BitVec 16} (h : Registered o n net.server)
    (hs : Udp.step net i = some (note, net')) : ¬ AlteredBy (.new o n t) ⟨net, i, note⟩ := by
  intro hA
  obtain ⟨a, ha⟩ := h.1
  obtain ⟨b, now, -, hg, hne⟩ := effect_of_altered ha hs hA
  rw [deed, State.effect_new_of_named ((registered_iff ha).mp h)] at hg
  exact hne hg

theorem registered_of_altered {t : BitVec 16} {a : State} (ha : Holds net.server a)
    (hs : Udp.step net i = some (note, net')) (hA : AlteredBy (.new o n t) ⟨net, i, note⟩) :
    Registered o n net'.server := by
  obtain ⟨b, now, hb, hg, hne⟩ := effect_of_altered ha hs hA
  rw [deed] at hg
  rw [registered_iff hb, hg]
  apply State.named_of_effect_new
  rwa [← hg]

theorem vacant_step (h : Vacant o net.server)
    (hB : ¬ ∃ n t, AlteredBy (.new o n t) ⟨net, i, note⟩)
    (hs : Udp.step net i = some (note, net')) : Vacant o net'.server := by
  obtain ⟨a, ha⟩ := h.1
  cases he : alters ⟨net, i, note⟩ with
  | false =>
    refine ⟨holds_step ⟨a, ha⟩ hs, ?_⟩
    rw [storeEntries_step hs he]
    exact h.2
  | true =>
    obtain ⟨b, now, x, request, result, hb, rfl, hg, -⟩ := effect_of_alters ha hs he
    rw [vacant_iff hb, hg]
    refine State.owner_of_effect (fun n t hc => ?_) ((vacant_iff ha).mp h)
    exact hB ⟨n, t, he, x, request, result, deed_eq_new hc, rfl⟩

theorem vacant_blocks (h : Vacant o net.server) (hs : Udp.step net i = some (note, net')) :
    ¬ AlteredBy (.collect o) ⟨net, i, note⟩ := by
  intro hA
  obtain ⟨a, ha⟩ := h.1
  obtain ⟨b, now, -, hg, hne⟩ := effect_of_altered ha hs hA
  rw [deed, effect, List.filter_eq_self.mpr] at hg
  · exact hne hg
  · intro g hmem
    exact decide_eq_true ((vacant_iff ha).mp h g hmem)

theorem vacant_of_altered {a : State} (ha : Holds net.server a)
    (hs : Udp.step net i = some (note, net')) (hA : AlteredBy (.collect o) ⟨net, i, note⟩) :
    Vacant o net'.server := by
  obtain ⟨b, now, hb, hg, -⟩ := effect_of_altered ha hs hA
  rw [deed, effect] at hg
  rw [vacant_iff hb, hg]
  intro g hmem
  exact of_decide_eq_true (List.mem_filter.mp hmem).2

end Steps

section Histories
variable {s : Service} {net : Udp.Net κ} {l l' m : History κ}
  {e e' : Event (Udp.Net κ) (Udp.Move κ) (Udp.Note κ)} {o n : CString}

theorem holds_run {net₀ : Udp.Net κ} {tr : History κ} (hs : ∃ a, Holds net₀.server a)
    (h : Udp.Runs net₀ tr net) : ∃ a, Holds net.server a :=
  h.invariant_of (fun net => ∃ a, Holds net.server a) (fun _ => True)
    (fun _ _ _ _ ha _ hstep => holds_step ha hstep) (fun _ _ => trivial) hs

theorem mem_executions {x : Xid κ} {tr : History κ} : e ∈ executions x tr ↔
    e ∈ tr ∧ ∃ request result, e.output = .executed x request result := by
  rw [executions, List.mem_filter]
  refine and_congr_right fun _ => ?_
  unfold executes
  constructor
  · intro h
    split at h
    · rename_i y request result he
      exact ⟨request, result, by rw [he, of_decide_eq_true h]⟩
    · cases h
  · intro hdone
    obtain ⟨request, result, he⟩ := hdone
    rw [he]
    exact decide_eq_true rfl

theorem single_of_runs {x : Xid κ} {tr : History κ} (h : Udp.Runs (.start s) tr net)
    (hone : (executions x tr).length ≤ 1) (he : e ∈ effects x tr) {result : Option Result}
    (hr : .returned x result ∈ outputs tr) :
    ∃ request, e.output = .executed x request result := by
  obtain ⟨r, hmem, hout⟩ := List.mem_map.mp hr
  obtain ⟨l, l', rfl⟩ := List.append_of_mem hmem
  obtain ⟨request, hexec, -⟩ := executed_of_returned h hout
  obtain ⟨c, hc, hcout⟩ := List.mem_map.mp hexec
  have hin : c ∈ executions x (l ++ r :: l') :=
    mem_executions.mpr ⟨List.mem_append_left _ hc, request, result, hcout⟩
  have hsame : e = c := by
    have he := List.mem_of_mem_filter he
    generalize executions x (l ++ r :: l') = es at *
    match es with
    | [] => cases he
    | [d] => rw [List.mem_singleton.mp he, List.mem_singleton.mp hin]
    | _ :: _ :: _ => simp at hone
  rw [hsame]
  exact ⟨request, hcout⟩

/-- Whatever happens to the datagrams of any number of clients, on whatever database. If the
next call meets no accident, it is the `clnt_call` of the client's library. -/
theorem orderly_of_runs {s t : Session} (hs : s.Fresh)
    {past : List (Event Session Store.Input Reply)} (hpast : Store.Runs s past t)
    (statics : Statics) {tr : History κ} {net : Udp.Net κ}
    (h : Udp.Runs (.start ⟨t.world, statics⟩) tr net) :
    Orderly tr ∧ ∀ c argp now result u, net.pending c = none →
      SunRpc.Client.clntCall net.server now argp.1 = some (result, u) →
      ∃ tr' net', Udp.Runs net tr' net' ∧ net'.server = u ∧ outputs tr' =
        [.began (net.xid c) argp, .executed (net.xid c) argp (some result),
          .returned (net.xid c) (some result)] := by
  refine ⟨?_, fun _ _ _ _ _ hc hcall => exchange hc hcall⟩
  obtain ⟨-, a, -, ha, -⟩ := reachable_represents hs hpast
  have hstart : ∃ a, Holds (⟨t.world, statics⟩ : Service) a := ⟨_, ha.onlyReads (.refl _)⟩
  constructor
  · intro l e l' hl he
    subst hl
    obtain ⟨hrun, m, hstep, -⟩ := h.split_at
    obtain ⟨a, ha⟩ := holds_run hstart hrun
    obtain ⟨b, now, x, request, result, -, hout, -⟩ := effect_of_alters ha hstep he
    exact ⟨x, request, result, hout, began_of_executed h hout⟩
  · intro l e l' hl he
    subst hl
    obtain ⟨hrun, m, hstep, -⟩ := h.split_at
    obtain ⟨a, ha⟩ := holds_run hstart hrun
    obtain ⟨b, now, x, request, result, -, hout, hg, hne⟩ := effect_of_alters ha hstep he
    rw [hg] at hne
    exact ⟨x, request, result, hout, writes_of_effect hne⟩
  · intro l e l' x result hl hout
    subst hl
    exact executed_of_returned h hout
  · exact fun x hone e he result hr => single_of_runs h hone he hr
  · intro l e m e' l' o n t t' hl hA hA'
    subst hl
    obtain ⟨hrun, net', hstep, hrest⟩ := h.split_at
    obtain ⟨a, ha⟩ := holds_run hstart hrun
    apply hrest.between (P := fun net => Registered o n net.server) (A := AlteredBy (.new o n t'))
    · exact fun _ _ _ _ hP hB hstep => registered_step hP hB hstep
    · exact fun _ _ _ _ hP hstep => registered_blocks hP hstep
    · exact registered_of_altered ha hstep hA
    · exact hA'
  · intro l e m e' l' o hl hA hA'
    subst hl
    obtain ⟨hrun, net', hstep, hrest⟩ := h.split_at
    obtain ⟨a, ha⟩ := holds_run hstart hrun
    apply hrest.between (P := fun net => Vacant o net.server) (A := AlteredBy (.collect o))
    · exact fun _ _ _ _ hP hB hstep => vacant_step hP hB hstep
    · exact fun _ _ _ _ hP hstep => vacant_blocks hP hstep
    · exact vacant_of_altered ha hstep hA
    · exact hA'

end Histories

/-- A service on the database of one hamster. -/
def kennel : Service := ⟨(Session.ofOne .epoch alice alice 5).world, ⟨blankState, 0⟩⟩

/-- A service that has no database yet. -/
def founding : Service := ⟨Session.initial.world, ⟨blankState, 0⟩⟩

def history (s : Service) (moves : List (Udp.Move Bool)) : History Bool :=
  (trace Udp.step (.start s) moves).1

/-- The first call of one of two clients. -/
def first : Xid Bool := ⟨false, 0⟩

def feeding : Request := ⟨.givetreats (makeHash alice alice) 1, rfl⟩

def admission : Request := ⟨.new alice alice 5, by decide⟩

/-- The request is copied on its way, and both copies arrive. -/
def copied (request : Request) : List (Udp.Move Bool) :=
  [.call false request, .request (.copy (first, request)), .serve .epoch (first, request),
    .serve .epoch (first, request)]

theorem feeding_orderly : Orderly (history kennel (copied feeding)) :=
  (orderly_of_runs Session.fresh_initial (Session.runs_ofOne ..) _ (.of_trace _ _)).1

/-- The second reply overtakes the first. -/
def refused : List (Udp.Move Bool) :=
  copied admission ++ [.accept (first, some (.new hmstrErrExists))]

/-- A hamster is fed twice; an admission is refused because it was done. -/
theorem copies_take_effect : (effects first (history kennel (copied feeding))).length = 2 ∧
    (effects first (history founding refused)).map (·.output) =
      [.executed first admission (some (.new (makeHash alice alice)))] ∧
    outputs (history founding refused) = [.began first admission, .quiet,
      .executed first admission (some (.new (makeHash alice alice))),
      .executed first admission (some (.new hmstrErrExists)),
      .returned first (some (.new hmstrErrExists))] := by
  decide +kernel

end Hamster.Contract.Copies
