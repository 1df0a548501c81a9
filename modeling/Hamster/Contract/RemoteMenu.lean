import Hamster.Contract.JavaSessions
import Hamster.Contract.Leaks
import Hamster.Contract.MenuSessions
import Hamster.Contract.Transparency
import Hamster.SunRpc.Network

/-!
# The menu of a remote asylum

The menu linked with hamster_client.c, whose calls a server answers that is hamster_server.c
on the library. Only the lines that three of the stubs print tell it from the stand-alone
program, and both leave the same database.
-/
namespace Hamster.Contract.RemoteMenu

open Lib.Bytes Lib.Clock Lib.Loops Lib.Posix Lib.Runs Store Store.Entry Store.Frame Store.Library
  Store.Scans Cli.Menu Cli.Agreement SunRpc Contract.MenuRefinement Contract.MenuEnds
  Contract.MenuSessions Contract.Transparency
open Asylum (Guest State StandsAt Represents reachable_represents)
open Contract.JavaSessions (directory_bounds closed_of_directory)
open Contract.RemoteDirectory (toInt_ofInt_handle)
open SunRpc.Client (StubCall clntCall xdrArgs)

/-! ## The program -/

/-- What the runtime of the server does to its descriptors between two calls. It leaves the
files alone, and a number it uses is one a system gives out. -/
structure Sockets where
  act : FdTable → FdTable
  spares : ∀ (fds : FdTable) (fd ino off : Nat) (writable : Bool),
    fds.lookup fd = some (.file ino off writable) →
      (act fds).lookup fd = some (.file ino off writable)
  few : ∀ (fds : FdTable) (fd : Nat), fd ∈ act fds → fd ∈ fds ∨ fd < 2 ^ 20

/-- The server, `status` of the menu, and what will happen between the calls. -/
structure Remote where
  service : Service
  status : BitVec 32
  clock : Nat → Timestamp
  sockets : Nat → Sockets
  calls : Nat

/-- The function of hamster_client.c. The menu passes a null pointer to no other than
`hmstr_directory`. -/
def stub (status : BitVec 32) : Call Unit → Option StubCall
  | .new o n t => some (.new o n t)
  | .lookup (some o) (some n) => some (.lookup o n)
  | .directory _ o n => some (.directory status o n)
  | .howsdoing id => some (.howsdoing id)
  | .readentry id => some (.readentry id)
  | .givetreats id t => some (.givetreats id t)
  | .collect (some o) => some (.collect o)
  | .lookup .. | .collect none => none

/-- The server at the next call. -/
def Remote.before (b : Remote) : Service := svcRun b.service (b.sockets b.calls).act

/-- What a returned stub leaves. -/
def Remote.after (b : Remote) (r : Reply) (s : Service) : Reply × Remote :=
  match r.out with
  | .handle p => (⟨r.ret, .none⟩,
      { b with service := s, status := BitVec.ofInt 32 p, calls := b.calls + 1 })
  | _ => (r, { b with service := s, calls := b.calls + 1 })

def Remote.call (b : Remote) (c : Call Unit) : Option (Reply × Remote) :=
  (stub b.status c).bind fun call =>
    (call.remote b.before (b.clock b.calls) none).map fun (r, s) => b.after r s

/-- What the function of hamster_client.c prints. -/
def announces (status : BitVec 32) (c : Call Unit) : List Byte :=
  ((stub status c).map StubCall.prints).getD []

/-- Linked with hamster_client.o. -/
def stubs : Backend Remote where
  rewind b := { b with status := -1 }
  tells b c := announces b.status c
  call := Remote.call

/-! ## Descriptors -/

section Descriptors
variable {w w' : World} {fds : FdTable} {status : Int}

/-- Every open descriptor has a number the system gave out, or is that of the listing. -/
def Slots (fds : FdTable) (status : Int) : Prop := ∀ fd ∈ fds, fd < 2 ^ 20 ∨ (fd : Int) = status

theorem Slots.act (h : Slots fds status) (x : Sockets) : Slots (x.act fds) status := by
  intro fd hfd
  rcases x.few fds fd hfd with hold | hnew
  · exact h fd hold
  · exact .inl hnew

theorem Slots.lowestFree_lt (h : Slots w.fds status) : w.lowestFree < 2 ^ 31 := by
  have hfree : (2 ^ 20 : Nat) ∉ w.fds ∨ (2 ^ 20 + 1 : Nat) ∉ w.fds := by
    by_contra hboth
    obtain ⟨h₀, h₁⟩ := not_or.mp hboth
    have hstatus₀ := (h _ (not_not.mp h₀)).resolve_left (lt_irrefl _)
    have hstatus₁ := (h _ (not_not.mp h₁)).resolve_left (Nat.not_lt.mpr (Nat.le_succ _))
    omega
  rcases hfree with h | h
  · exact (Sys.lowestFree_le _ h).trans_lt (by decide)
  · exact (Sys.lowestFree_le _ h).trans_lt (by decide)

/-- A listing that is over has closed its descriptor. -/
theorem open_of_listing {fd : Nat} {o n : Option CString}
    (hl : (tooLongOpt o || tooLongOpt n) = false)
    (hfd : fd ∈ (hmstrDirectory w fd o n).2.2.fds) : (hmstrDirectory w fd o n).2.1 = fd := by
  have hnum : directoryFd w fd = (some fd, w) := directoryFd_of_nonneg (Int.natCast_nonneg fd)
  rcases directory_of_fd hl hnum with ⟨bs, v, -, he⟩ | ⟨last, v, -, he⟩
  · rw [he]
  · rw [he] at hfd
    exact absurd hfd (by simp)

theorem Slots.directory {o n : Option CString} (h : Slots w.fds status)
    (hl : (tooLongOpt o || tooLongOpt n) = false) :
    Slots (hmstrDirectory w status o n).2.2.fds (hmstrDirectory w status o n).2.1 := by
  intro fd hfd
  by_cases hold : (fd : Int) = status
  · subst hold
    exact .inr (open_of_listing hl hfd).symm
  by_cases hnew : (fd : Int) = (hmstrDirectory w status o n).2.1
  · exact .inr hnew
  · have hkept := Leaks.directory_keeps (w := w) (o := o) (n := n) hold hnew
    have hmem : fd ∈ w.fds := by
      rwa [← Finmap.lookup_isSome, ← hkept, Finmap.lookup_isSome]
    exact .inl ((h fd hmem).resolve_right hold)

end Descriptors

/-! ## The server stands for the asylum -/

/-- As for the stand-alone program, but that `status` is an `int32_t`. -/
structure Serves (b : Remote) (h : House) : Prop where
  handles : ∃ p : Nat → Int, Represents ⟨b.service.world, p⟩ h.state ∧
    p h.handle = b.status.toInt ∧ ∀ v, h.handle < v → p v = -1
  slots : Slots b.service.world.fds b.status.toInt
  clock : b.clock = h.clock
  calls : b.calls = h.calls

/-- Nothing is being listed. -/
structure Resting (b : Remote) (h : House) : Prop extends Serves b h where
  closed : h.state.cursor h.handle = .closed

section Serves
variable {b : Remote} {h : House}

/-- What the server of a remote menu is to the stand-alone program. -/
def Remote.direct (b : Remote) : Standalone := ⟨b.before.world, b.status.toInt, b.clock, b.calls⟩

theorem represents_sockets {w : World} {p : Nat → Int} {a : State} (hrep : Represents ⟨w, p⟩ a)
    (x : Sockets) : Represents ⟨{ w with fds := x.act w.fds }, p⟩ a where
  reliable := hrep.reliable
  intermediate := hrep.intermediate
  stored := by
    have hs := hrep.stored
    cases hreg : a.register with
    | none => rw [hreg] at hs; exact hs
    | some r => rw [hreg] at hs; exact hs
  stands v := by
    have hs := hrep.stands v
    change StandsAt w a (p v) _ at hs
    show StandsAt { w with fds := x.act w.fds } a (p v) _
    generalize p v = q at hs
    generalize a.cursor v = c at hs
    cases hs with
    | closed => exact .closed
    | live hdata hd hpos => exact .live hdata (x.spares _ _ _ _ _ hd) hpos
    | detached hne hlt hc hd => exact .detached hne hlt hc (x.spares _ _ _ _ _ hd)
  apart := hrep.apart

theorem keeps_direct (hb : Serves b h) : Keeps b.direct h := by
  obtain ⟨p, hrep, hp, hnew⟩ := hb.handles
  exact ⟨⟨p, represents_sockets hrep _, hp, hnew⟩, hb.clock, hb.calls⟩

theorem slots_before (hb : Serves b h) : Slots b.before.world.fds b.status.toInt :=
  hb.slots.act _

/-- No handle of the asylum's is open while it rests. -/
theorem status_of_closed (hb : Serves b h) (hc : h.state.cursor h.handle = .closed) :
    b.status.toInt = -1 := by
  obtain ⟨p, hrep, hp, -⟩ := hb.handles
  have hs := hrep.stands h.handle
  change StandsAt b.service.world h.state (p h.handle) _ at hs
  rw [hp, hc] at hs
  generalize b.status.toInt = q at hs
  cases hs
  rfl

theorem serves_rewind (hb : Resting b h) : Serves (stubs.rewind b) (asylum.rewind h) := by
  have hstatus := status_of_closed hb.toServes hb.closed
  obtain ⟨⟨p, hrep, -, hnew⟩, hslots, hclock, hcalls⟩ := hb.toServes
  refine ⟨⟨p, hrep, hnew _ (Nat.lt_succ_self _), fun v hv => hnew v (Nat.lt_of_succ_lt hv)⟩, ?_,
    hclock, hcalls⟩
  rw [hstatus] at hslots
  exact hslots

theorem stub_direct {status : BitVec 32} {c : Call Unit} {call : StubCall}
    (hc : stub status c = some call) : (c.map fun _ => status.toInt) = call.direct := by
  cases c with
  | lookup o n =>
    cases o with
    | none => cases hc
    | some o =>
      cases n with
      | none => cases hc
      | some n => cases hc; rfl
  | collect o =>
    cases o with
    | none => cases hc
    | some o => cases hc; rfl
  | new | directory | howsdoing | readentry | givetreats => cases hc; rfl

/-- What is printed of two replies that are the same to a caller. -/
theorem sounds_of_same {r r' : Reply} (hsame : SameReply r r') : Sounds r' r := by
  obtain ⟨ret, out⟩ := r
  obtain ⟨ret', out'⟩ := r'
  obtain ⟨hret, hout⟩ := hsame
  obtain rfl : ret' = ret := hret
  cases out with
  | none =>
    cases out' with
    | none => exact Sounds.refl _
    | handle | state | entry => exact hout.elim
  | handle q =>
    cases out' with
    | handle q' => exact ⟨rfl, fun _ _ => rfl, fun _ => rfl⟩
    | none | state | entry => exact hout.elim
  | state st =>
    cases out' with
    | state st' =>
      refine ⟨rfl, fun _ _ => rfl, fun hr => ?_⟩
      rw [show st' = st from hout hr]
    | none | handle | entry => exact hout.elim
  | entry owner name price =>
    cases out' with
    | entry owner' name' price' =>
      refine ⟨rfl, fun hr id => ?_, fun _ => rfl⟩
      obtain ⟨ho, hn, hp⟩ := hout hr
      rw [rowOf, rowOf, ho, hn, hp]
    | none | handle | state => exact hout.elim

/-- What a call leaves of the descriptors, and what its handle is then. -/
def Tends (status : Int) (r : Reply) (w : World) : Prop :=
  match r.out with
  | .handle q => -1 ≤ q ∧ q < 2 ^ 31 ∧ Slots w.fds q
  | _ => Slots w.fds status

/-- A stub that is transparent is answered by the asylum. -/
theorem answers_of_same (hb : Serves b h) {c : Call Unit} {call : StubCall}
    (hc : stub b.status c = some call) (hsame : Transparent b.before (b.clock b.calls) none call)
    (htends : ∀ r w, call.direct.exec { b.before.world with now := b.clock b.calls } = some (r, w) →
      Tends b.status.toInt r w) :
    Answers (fun _ => Serves) (stubs.call b c) (asylum.call h c) := by
  have hkeeps := keeps_call (keeps_direct hb) c
  show Answers _ (Remote.call b c) _
  rw [Remote.call, hc, Option.bind_some]
  change Answers _ (Standalone.call b.direct c) _ at hkeeps
  rw [Standalone.call, show (c.map fun _ => b.direct.status) = _ from stub_direct hc] at hkeeps
  change SameOutcome _ _ at hsame
  change Answers _ ((call.direct.exec { b.before.world with now := b.clock b.calls }).map _) _
    at hkeeps
  generalize call.direct.exec { b.before.world with now := b.clock b.calls } = x at hkeeps hsame htends
  generalize call.remote b.before (b.clock b.calls) none = y at hsame
  generalize asylum.call h c = z at hkeeps
  cases x with
  | none =>
    cases y with
    | none =>
      cases hkeeps
      exact .none
    | some y => exact hsame.elim
  | some x =>
    obtain ⟨r, w⟩ := x
    cases y with
    | none => exact hsame.elim
    | some y =>
      obtain ⟨r', s'⟩ := y
      obtain ⟨hreply, rfl⟩ := hsame
      have htend := htends r _ rfl
      obtain ⟨ret, out⟩ := r
      obtain ⟨ret', out'⟩ := r'
      have hsound := sounds_of_same hreply
      rw [Option.map_some] at hkeeps ⊢
      cases out with
      | handle q =>
        obtain ⟨hret, hout⟩ := hreply
        cases out' with
        | handle q' =>
          obtain ⟨hlow, hhigh, hslots⟩ := htend
          have hstatus : BitVec.ofInt 32 q' = BitVec.ofInt 32 q := by
            rw [show q' = _ from hout, BitVec.ofInt_toInt]
          have hq : (BitVec.ofInt 32 q).toInt = q := toInt_ofInt_handle ⟨hlow, hhigh⟩
          have hfirst : Sounds (⟨ret', .none⟩ : Reply) ⟨ret, .none⟩ :=
            ⟨hret, fun _ _ => rfl, fun _ => rfl⟩
          cases hkeeps with
          | some hans =>
            obtain ⟨hsounds, hhandles, hclock, hcalls⟩ := hans
            refine .some ⟨hfirst.trans hsounds, ?_, ?_, hclock, hcalls⟩
            · show ∃ p : Nat → Int, _ ∧ p _ = (BitVec.ofInt 32 q').toInt ∧ _
              rw [hstatus, hq]
              exact hhandles
            · show Slots _ (BitVec.ofInt 32 q').toInt
              rw [hstatus, hq]
              exact hslots
        | none | state | entry => exact hout.elim
      | none | state | entry =>
        cases out' with
        | none | state | entry =>
          first
            | exact hreply.2.elim
            | cases hkeeps with
              | some hans =>
                exact .some ⟨hsound.trans hans.1, hans.2.1, htend, hans.2.2, hans.2.3⟩
        | handle => exact hreply.2.elim

/-! ## The calls of the menu -/

theorem plain_out {w w' : World} {c : Call Int} {r : Reply} (hex : c.exec w = some (r, w'))
    (hd : ∀ p o n, c ≠ .directory p o n) (q : Int) : r.out ≠ .handle q := by
  cases c with
  | directory p o n => exact absurd rfl (hd p o n)
  | new | lookup | givetreats =>
    cases hex
    exact nofun
  | howsdoing | readentry | collect =>
    obtain ⟨x, -, he⟩ := Option.map_eq_some_iff.mp hex
    cases he
    exact nofun

theorem tends_plain {w w' : World} {c : Call Int} {r : Reply} (hr : w.Reliable)
    (hslots : Slots w.fds b.status.toInt) (hd : ∀ p o n, c ≠ .directory p o n)
    (hex : c.exec w = some (r, w')) : Tends b.status.toInt r w' := by
  have hsure : ¬ Leaks.LosesDescriptor w c := by
    intro hlost
    cases c with
    | collect o =>
      cases o with
      | none => exact hlost
      | some o =>
        have hfaults := hlost.2.2
        rw [show w.faults = [] from hr] at hfaults
        cases hfaults
    | _ => exact hlost
  have hkept := (Leaks.keepsDescriptors_iff hex).mpr hsure
  have hsame : ∀ fd, fd ∈ w'.fds ↔ fd ∈ w.fds := by
    cases c with
    | directory p o n => exact absurd rfl (hd p o n)
    | _ => exact hkept
  have hleft : Slots w'.fds b.status.toInt := fun fd hfd => hslots fd ((hsame fd).mp hfd)
  have hout := plain_out hex hd
  unfold Tends
  split
  · rename_i q hq
    exact absurd hq (hout q)
  · exact hleft

theorem tends_directory {w w' : World} {o n : Option CString} {r : Reply} (hr : w.Reliable)
    (hslots : Slots w.fds b.status.toInt) (hl : (tooLongOpt o || tooLongOpt n) = false)
    (hlow : -1 ≤ b.status.toInt)
    (hex : (Call.directory b.status.toInt o n).exec w = some (r, w')) :
    Tends b.status.toInt r w' := by
  have hbounds := directory_bounds (o := o) (n := n) hr ⟨hlow, BitVec.toInt_lt⟩ hslots.lowestFree_lt
  have hleft := hslots.directory hl
  rw [exec_directory] at hex
  cases hex
  exact ⟨hbounds.1, hbounds.2, hleft⟩

theorem status_low (hb : Serves b h) : -1 ≤ b.status.toInt := by
  obtain ⟨p, hrep, hp, -⟩ := hb.handles
  have hs := hrep.stands h.handle
  change StandsAt b.service.world h.state (p h.handle) _ at hs
  rw [hp] at hs
  generalize b.status.toInt = q at hs
  generalize h.state.cursor h.handle = c at hs
  cases hs <;> omega

theorem new_same {s : Service} {now : Timestamp} {o n : CString} {t : BitVec 16}
    (ho : o.strlen ≤ 31) (hn : n.strlen ≤ 31) : Transparent s now none (.new o n t) := by
  have hx : xdrArgs (.new o n t) = true := by
    rw [xdrArgs, xdrNameString_of_le ho, xdrNameString_of_le hn]
    rfl
  show SameOutcome _ (Client.hmstrNew (clntCall s now) o n t)
  rw [Client.hmstrNew, clntCall_of_xdr hx]
  exact ⟨⟨rfl, trivial⟩, rfl⟩

theorem collect_same {s : Service} {now : Timestamp} {o : CString} (ho : o.strlen ≤ 31) :
    Transparent s now none (.collect o) := by
  have hx : xdrArgs (.collect o) = true := xdrNameString_of_le ho
  have hreq : s.request now (.collect o) =
      (hmstrCollectRpc1Svc { s.world with now := now } o).map
        fun x => (x.1, { s with world := x.2 }) := rfl
  show SameOutcome ((Call.collect (some o)).exec _) (Client.hmstrCollect (clntCall s now) o)
  rw [Client.hmstrCollect, if_pos (Nat.lt_succ_of_le ho), clntCall_of_xdr hx, hreq,
    hmstrCollectRpc1Svc, exec_collect]
  cases hmstrCollect { s.world with now := now } (some o) with
  | none => trivial
  | some x => exact ⟨⟨rfl, trivial⟩, rfl⟩

/-- A call that does not list. -/
theorem serves_plain (hb : Serves b h) {c : Call Unit} {call : StubCall}
    (hc : stub b.status c = some call) (hd : ∀ p o n, call.direct ≠ .directory p o n)
    (hsame : Transparent b.before (b.clock b.calls) none call) :
    Answers (fun _ => Serves) (stubs.call b c) (asylum.call h c) := by
  obtain ⟨p, hrep, -, -⟩ := hb.handles
  refine answers_of_same hb hc hsame fun r w hex => ?_
  exact tends_plain (w := { b.before.world with now := b.clock b.calls }) hrep.reliable
    (slots_before hb) hd hex

theorem serves_typed (hb : Serves b h) {c : Call Unit} (hc : Typed c) :
    Answers (fun _ => Serves) (stubs.call b c) (asylum.call h c) := by
  cases c with
  | new o n t =>
    exact serves_plain hb rfl nofun (new_same (hc.1.length.trans (by decide))
      (hc.2.length.trans (by decide)))
  | collect o =>
    obtain ⟨o, rfl, ho⟩ := hc
    exact serves_plain hb rfl nofun (collect_same (ho.length.trans (by decide)))
  | howsdoing id => exact serves_plain hb rfl nofun howsdoing_transparent
  | givetreats id t => exact serves_plain hb rfl nofun givetreats_transparent
  | lookup | directory | readentry => exact hc.elim

theorem serves_entry (hb : Serves b h) (id : BitVec 32) :
    Answers (fun _ => Serves) (stubs.call b (.readentry id)) (asylum.call h (.readentry id)) := by
  obtain ⟨p, hrep, -, -⟩ := hb.handles
  have hnow := (represents_sockets hrep (b.sockets b.calls)).clockAt (b.clock b.calls)
  exact serves_plain hb rfl nofun (readentry_transparent (s := b.before) hnow)

theorem serves_next (hb : Serves b h) : Answers (fun _ => Serves)
    (stubs.call b (.directory () none none)) (asylum.call h (.directory () none none)) := by
  obtain ⟨p, hrep, -, -⟩ := hb.handles
  have hadmissible : Admissible (.directory b.status none none) := by
    intro x hx
    simp [names] at hx
  refine answers_of_same hb rfl (directory_transparent hadmissible) fun r w hex => ?_
  exact tends_directory (w := { b.before.world with now := b.clock b.calls }) hrep.reliable
    (slots_before hb) rfl (status_low hb) hex

end Serves

/-! ## The two programs -/

section Programs
variable {b : Remote} {h : House}

/-- What is known of the asylum's answer may be used. -/
theorem answers_since {σ τ : Type} {P Q : Reply → σ → τ → Prop} {x : Option (Reply × σ)}
    {y : Option (Reply × τ)} (hans : Answers P x y)
    (hPQ : ∀ r s r' t, y = some (r', t) → r.ret = r'.ret → P r s t → Q r s t) : Answers Q x y := by
  cases hans with
  | none => exact .none
  | some hxy => exact .some ⟨hxy.1, hPQ _ _ _ _ rfl hxy.1.ret hxy.2⟩

theorem asylum_closed {c : Call Unit} {r : Reply} {h' : House} (hd : ∀ p o n, c ≠ .directory p o n)
    (hcall : asylum.call h c = some (r, h')) (hc : h.state.cursor h.handle = .closed) :
    h'.state.cursor h'.handle = .closed := by
  rw [asylum_call] at hcall
  obtain ⟨x, hx, he⟩ := Option.map_eq_some_iff.mp hcall
  cases he
  refine cursor_closed (fun u o n he => ?_) hx hc
  cases c with
  | directory p o n => exact hd p o n rfl
  | new | lookup | howsdoing | readentry | givetreats | collect => cases he

theorem asylum_next_closed {r : Reply} {h' : House}
    (hcall : asylum.call h (.directory () none none) = some (r, h')) (hr : r.ret.toInt < 0) :
    h'.state.cursor h'.handle = .closed := by
  rw [asylum_call] at hcall
  obtain ⟨x, hx, he⟩ := Option.map_eq_some_iff.mp hcall
  cases he
  have hdir : h.state.directory h.handle none none = x := Option.some.inj hx
  have hclosed := closed_of_directory (a := h.state) (v := h.handle) (o := none) (n := none) rfl
    (by rw [hdir]; exact hr)
  rwa [hdir] at hclosed

theorem simulates_stubs : Simulates stubs asylum Resting Serves where
  weaken hb := hb.toServes
  rewind hb := serves_rewind hb
  call {s t c} hb hc := by
    refine answers_since (serves_typed hb.toServes hc) fun _ _ _ _ hcall _ hserves => ⟨hserves, ?_⟩
    refine asylum_closed (fun p o n he => ?_) hcall hb.closed
    subst he
    exact hc
  entry hb id := serves_entry hb id
  next hb := by
    refine answers_since (serves_next hb) fun r _ r' _ hcall hret hserves => ?_
    split
    · exact hserves
    · rename_i hr
      exact ⟨hserves, asylum_next_closed hcall (by rw [← hret]; omega)⟩

/-- Why a run stopped, if it was not told to. -/
def stopped {σ : Type} : Ran σ (Terminal σ) → Option Stop
  | .error (e, _) => some e
  | .ok _ => none

/-- The terminal a run has come to. -/
def final {σ : Type} : Ran σ (Terminal σ) → Terminal σ
  | .error (_, m) => m
  | .ok m => m

/-- The lines of stubs in between. -/
inductive Announced : List Byte → List Byte → Prop
  | nil : Announced [] []
  | own {out out' : List Byte} (s : List Byte) : Announced out out' → Announced (out ++ s) (out' ++ s)
  | stub {out out' : List Byte} (call : StubCall) :
      Announced out out' → Announced (out ++ call.prints) out'

/-- The lines of the same stubs in the same places, with other descriptors in them. -/
inductive Renumbered : List Byte → List Byte → Prop
  | nil : Renumbered [] []
  | own {out out' : List Byte} (s : List Byte) :
      Renumbered out out' → Renumbered (out ++ s) (out' ++ s)
  | stub {out out' : List Byte} (status status' : BitVec 32) (c : Call Unit) :
      Renumbered out out' → Renumbered (out ++ announces status c) (out' ++ announces status' c)

/-- The stand-alone program, if its functions printed first what the stubs print. -/
def announced : Backend Standalone :=
  { library with tells := fun s c => announces (BitVec.ofInt 32 s.status) c }

theorem simulates_announced : Simulates announced asylum Keeps Keeps :=
  ⟨simulates_asylum.weaken, simulates_asylum.rewind, simulates_asylum.call, simulates_asylum.entry,
    simulates_asylum.next⟩

theorem speaks_library : Speaks Announced stubs library where
  prints := .own
  tells b _ c h := by
    show Announced (_ ++ announces b.status c) (_ ++ [])
    rw [announces, List.append_nil]
    cases stub b.status c with
    | none => exact (List.append_nil _).symm ▸ h
    | some call => exact h.stub call

theorem speaks_announced : Speaks Renumbered stubs announced where
  prints := .own
  tells _ _ c h := h.stub _ _ c

/-- Two runs that end alike, with `O` between what they print. -/
structure Corresponds (O : List Byte → List Byte → Prop) (r : Ran Remote (Terminal Remote))
    (r' : Ran Standalone (Terminal Standalone)) : Prop where
  stop : stopped r = stopped r'
  unread : (final r).stdin = (final r').stdin
  printed : O (final r).stdout (final r').stdout
  database : storeEntries (final r).back.service.world = storeEntries (final r').back.world

theorem corresponds_of_alike {O : List Byte → List Byte → Prop} {r : Ran Remote (Terminal Remote)}
    {r' : Ran Standalone (Terminal Standalone)}
    (ha : Alike O (Meet Serves Keeps) (Same O (Meet Resting Keeps)) r r') : Corresponds O r r' := by
  have hstored {b : Remote} {s : Standalone} (hmeet : Meet Serves Keeps b s) :
      storeEntries b.service.world = storeEntries s.world := by
    obtain ⟨_, ⟨⟨p, hrep, -⟩, -⟩, ⟨p', hrep', -⟩, -⟩ := hmeet
    exact (Asylum.storeEntries_of_represents hrep).trans
      (Asylum.storeEntries_of_represents hrep').symm
  cases r with
  | error e =>
    cases r' with
    | ok m' => exact ha.elim
    | error e' =>
      obtain ⟨hstop, hsame⟩ := ha
      exact ⟨congrArg some hstop, hsame.stdin, hsame.stdout, hstored hsame.back⟩
  | ok m =>
    cases r' with
    | error e' => exact ha.elim
    | ok m' =>
      obtain ⟨a, hb, hs⟩ := ha.back
      exact ⟨rfl, ha.stdin, ha.stdout, hstored ⟨a, hb.toServes, hs⟩⟩

/-- The client as it starts, on a server that is up. -/
def connected (service : Service) (sockets : Nat → Sockets) (clock : Nat → Timestamp)
    (stdin : List Byte) : Terminal Remote :=
  ⟨stdin, [], none, ⟨service, -1, clock, sockets, 0⟩⟩

/-- The two programs, if they have been given the same number of turns. -/
theorem corresponds_main {O : List Byte → List Byte → Prop} {lib : Backend Standalone} {turns : Nat}
    {m : Terminal Remote} {m' : Terminal Standalone}
    (hlib : Simulates lib asylum Keeps Keeps) (hsay : Speaks O stubs lib)
    (h : Same O (Meet Resting Keeps) m m') :
    Option.Rel (Corresponds O) (main stubs turns m) (main lib turns m') := by
  have halike := main_alike (simulates_stubs.meet hlib) hsay turns h
  generalize main stubs turns m = x at halike ⊢
  generalize main lib turns m' = y at halike ⊢
  cases halike with
  | none => exact .none
  | some hr => exact .some (corresponds_of_alike hr)

/-- Both programs as they start stand for the asylum that is open for a visitor. -/
theorem meet_start {O : List Byte → List Byte → Prop} (hO : O [] []) {t : Session} {a : State}
    {w w' : World} (hrep : Represents t a) (hw : Sys.OnlyReads t.world w)
    (hw' : Sys.OnlyReads t.world w') (hfds : ∀ fd ∈ w.fds, fd < 2 ^ 20) (statics : Statics)
    (sockets : Nat → Sockets) (clock : Nat → Timestamp) (stdin : List Byte) :
    Same O (Meet Resting Keeps) (connected ⟨w, statics⟩ sockets clock stdin)
      (booted w' clock stdin) where
  stdin := rfl
  stdout := hO
  cmd := rfl
  back := by
    refine ⟨(opened a clock stdin).back, ?_, (keeps_start hrep hw' stdin).back⟩
    exact ⟨⟨⟨_, hrep.onlyReads hw, rfl, fun _ _ => rfl⟩, fun fd hfd => .inl (hfds fd hfd), rfl,
      rfl⟩, rfl⟩

variable {s t : Session} {tr : List (Event Session Store.Input Reply)} {w w' : World}

/-- The same input, at the same times, on the same database. -/
theorem remote_menu_transparent (hs : s.Fresh) (hrun : Runs s tr t) (hw : Sys.OnlyReads t.world w)
    (hw' : Sys.OnlyReads t.world w') (hfds : ∀ fd ∈ w.fds, fd < 2 ^ 20) (statics : Statics)
    (sockets : Nat → Sockets) (clock : Nat → Timestamp) (stdin : List Byte) (turns : Nat) :
    Option.Rel (Corresponds Announced)
      (main stubs turns (connected ⟨w, statics⟩ sockets clock stdin))
      (main library turns (booted w' clock stdin)) ∧
    Option.Rel (Corresponds Renumbered)
      (main stubs turns (connected ⟨w, statics⟩ sockets clock stdin))
      (main announced turns (booted w' clock stdin)) := by
  obtain ⟨_, a, -, hrep, -⟩ := reachable_represents hs hrun
  constructor
  · exact corresponds_main simulates_asylum speaks_library
      (meet_start .nil hrep hw hw' hfds statics sockets clock stdin)
  · exact corresponds_main simulates_announced speaks_announced
      (meet_start .nil hrep hw hw' hfds statics sockets clock stdin)

/-- A UDP service has one socket, and that is open all the time. -/
def still : Sockets := ⟨id, fun _ _ _ _ _ h => h, fun _ _ h => .inl h⟩

theorem remote_menu_one :
    Option.Rel (Corresponds Announced)
      (main stubs 20 (connected ⟨one.world, ⟨blankState, 0⟩⟩ (fun _ => still) (fun _ => .epoch)
        (text "l\nb\na\nq\n")))
      (main library 20 (booted one.world (fun _ => .epoch) (text "l\nb\na\nq\n"))) ∧
    Option.Rel (Corresponds Renumbered)
      (main stubs 20 (connected ⟨one.world, ⟨blankState, 0⟩⟩ (fun _ => still) (fun _ => .epoch)
        (text "l\nb\na\nq\n")))
      (main announced 20 (booted one.world (fun _ => .epoch) (text "l\nb\na\nq\n"))) := by
  have hfds : ∀ fd ∈ one.world.fds, fd < 2 ^ 20 := by
    have hempty : one.world.fds = ∅ := new_fds (Session.initial.clockAt .epoch) _ _ _
    rw [hempty]
    exact fun fd hfd => absurd hfd (Finmap.notMem_empty)
  exact remote_menu_transparent Session.fresh_initial (Session.runs_ofOne ..)
    (Sys.OnlyReads.refl _) (Sys.OnlyReads.refl _) hfds _ _ _ _ _

end Programs

end Hamster.Contract.RemoteMenu
