import Hamster.Asylum.Refinement
import Hamster.Asylum.Steps
import Hamster.Contract.Transparency
import Hamster.SunRpc.Xdr

/-!
# Messages to the server of SunRPC

What the stubs send arrives as it was meant. Whatever else is sent does no harm: messages
that are no requests change nothing, and after any history of messages the database is
that of the calls that were asked for.
-/
namespace Hamster.Contract.WireMessages

open Lib.Bytes Lib.Clock Lib.Posix Lib.Runs Store Store.Entry Store.Library Store.Scans SunRpc
  SunRpc.Xdr
open Asylum (Guest State StandsAt Represents represents_start step_agree storeEntries_of_represents)
open SunRpc.Client (StubCall clntCall xdrArgs xdrResult)
open Contract.Dispatch (PaddedName entry_padded)
open Contract.Transparency (strlen_of_padded)
open Server.Handlers (readentry_price)

/-- The names in an argument structure. -/
def argNames : Args → List CString
  | .collect owner => [owner]
  | .directory _ owner hamster | .lookup owner hamster | .new owner hamster _ => [owner, hamster]
  | .givetreats .. | .howsdoing _ | .readentry _ => []

/-- The names in a result structure. -/
def resultNames : Result → List CString
  | .readentry _ owner name _ => [cstr owner, cstr name]
  | .collect _ | .directory .. | .givetreats _ | .howsdoing .. | .lookup _ | .new _ => []

/-- What the routines of hamster_xdr.c let through. -/
def Fits (xs : List CString) : Prop := ∀ x ∈ xs, x.strlen ≤ 32

theorem putArgs_iff (argp : Args) : (putArgs argp).isSome = true ↔ Fits (argNames argp) := by
  rw [putArgs_isSome]
  cases argp <;> simp [xdrArgs, Client.xdrNameString, Fits, argNames]

theorem putResult_iff (result : Result) :
    (putResult result).isSome = true ↔ Fits (resultNames result) := by
  rw [putResult_isSome]
  cases result <;> simp [xdrResult, Client.xdrNameString, Fits, resultNames]

section Carried
variable (s : Service) (now : Timestamp)

/-- The names a stub sends, if it gets as far, and those it is sent are not too long. -/
structure Carried (junk : Option CString) (call : StubCall) : Prop where
  args : ∀ argp ∈ call.args junk, Fits (argNames argp)
  result : ∀ argp ∈ call.args junk, ∀ result t, s.request now argp = some (result, t) →
    Fits (resultNames result)

variable {s now}

theorem cstr_allocated (s : CString) : cstr (allocated s) = s := cstr_terminated s []

theorem reply_received (result : Result) : (received result).reply = result.reply := by
  cases result with
  | readentry treats owner name price =>
    rw [received, Result.reply, cstr_allocated, cstr_allocated]
    rfl
  | collect | directory | givetreats | howsdoing | lookup | new => rfl

theorem answers_received {argp : Args} {result : Result} (h : result.Answers argp) :
    (received result).Answers argp := by
  cases argp <;> cases result <;> first
    | exact h.elim
    | trivial

theorem clntCallXdr_answers {argp : Args} {result : Result} {t : Service}
    (h : clntCallXdr s now argp = some (result, t)) : result.Answers argp := by
  rw [clntCallXdr_eq] at h
  obtain ⟨x, hx, he⟩ := Option.map_eq_some_iff.mp h
  obtain ⟨rfl, rfl⟩ := Prod.mk.inj he
  exact answers_received (request_answers (request_of_clntCall hx))

/-- What comes back over the wire sounds like what was sent off there. -/
theorem clntCallXdr_reply (argp : Args) :
    (clntCallXdr s now argp).map (fun x => (x.1.reply, x.2)) =
      (clntCall s now argp).map fun x => (x.1.reply, x.2) := by
  rw [clntCallXdr_eq, Option.map_map]
  refine congrArg (Option.map · _) (funext fun x => ?_)
  exact congrArg (·, x.2) (reply_received x.1)

/-- A call that fits is carried out as if there were no wire. -/
theorem clntCall_fits {argp : Args} (hargs : Fits (argNames argp))
    (hresult : ∀ result t, s.request now argp = some (result, t) → Fits (resultNames result)) :
    clntCall s now argp = s.request now argp := by
  have hx : xdrArgs argp = true := by rwa [← putArgs_isSome, putArgs_iff]
  rw [clntCall, if_pos hx]
  cases hreq : s.request now argp with
  | none => rfl
  | some x =>
    refine Option.filter_some_pos ?_
    rw [← putResult_isSome, putResult_iff]
    exact hresult x.1 x.2 hreq

/-- A call that does not fit fails. -/
theorem clntCall_unfit {argp : Args} (h : ¬ (Fits (argNames argp) ∧
    ∀ result t, s.request now argp = some (result, t) → Fits (resultNames result))) :
    clntCall s now argp = none := by
  cases hc : clntCall s now argp with
  | none => rfl
  | some x =>
    refine absurd ⟨?_, fun result t hreq => ?_⟩ h
    · rw [clntCall] at hc
      split at hc
      · rename_i hx
        rwa [← putArgs_isSome, putArgs_iff] at hx
      · cases hc
    · rw [clntCall] at hc
      split at hc
      · rw [hreq] at hc
        have hx := (Option.filter_eq_some_iff.mp hc).2
        cases (Option.filter_eq_some_iff.mp hc).1
        rwa [← putResult_isSome, putResult_iff] at hx
      · cases hc

/-- The names of an entry the service reads. -/
theorem entry_names {p : Nat → Int} {a : State} (h : Represents ⟨s.world, p⟩ a) {id ret : BitVec 32}
    {owner name : List Byte} {price : BitVec 16} {t : Service}
    (hreq : s.request now (.readentry id) = some (.readentry ret owner name price, t)) :
    PaddedName owner ∧ PaddedName name := by
  have hnow : Represents ⟨{ s.world with now := now }, p⟩ a := h.clockAt now
  have hexec := exec_readentry { s.world with now := now } id
  obtain ⟨x, hx, he⟩ := Option.map_eq_some_iff.mp hreq
  obtain ⟨y, hy, rfl⟩ := Option.map_eq_some_iff.mp hx
  cases he
  rw [show List.replicate 32 (0 : Byte) = blankName from rfl] at hy
  rcases readentry_price { s.world with now := now } id blankName blankName with
    ⟨w', hprice⟩ | ⟨z, hprice⟩
  · rw [hprice] at hexec hy
    cases hy
    exact entry_padded hnow hexec rfl
  · rw [hprice] at hexec hy
    rw [hy] at hexec
    exact entry_padded hnow hexec rfl

theorem request_readentry {id : BitVec 32} {result : Result} {t : Service}
    (h : s.request now (.readentry id) = some (result, t)) :
    ∃ treats owner name price, result = .readentry treats owner name price := by
  have ha := request_answers h
  cases result with
  | readentry treats owner name price => exact ⟨treats, owner, name, price, rfl⟩
  | collect | directory | givetreats | howsdoing | lookup | new => exact ha.elim

/-- The names in a database that stands for the asylum are short. -/
theorem result_fits {p : Nat → Int} {a : State} (h : Represents ⟨s.world, p⟩ a) {argp : Args}
    {result : Result} {t : Service} (hreq : s.request now argp = some (result, t)) :
    Fits (resultNames result) := by
  have ha := request_answers hreq
  cases argp with
  | readentry id =>
    obtain ⟨ret, owner, name, price, rfl⟩ := request_readentry hreq
    obtain ⟨howner, hname⟩ := entry_names h hreq
    intro x hx
    rcases List.mem_cons.mp hx with rfl | hx
    · exact (strlen_of_padded howner).trans (by decide)
    · rw [List.mem_singleton.mp hx]
      exact (strlen_of_padded hname).trans (by decide)
  | collect | directory | givetreats | howsdoing | lookup | new =>
    cases result with
    | readentry => exact ha.elim
    | collect | directory | givetreats | howsdoing | lookup | new => exact List.forall_mem_nil _

end Carried

/-- The stubs, over the bytes. -/
def remoteXdr (s : Service) (now : Timestamp) (junk : Option CString) (call : StubCall) :
    Option (Reply × Service) :=
  call.over (clntCallXdr s now) junk

/-- The wire is not noticed by a call that fits it, and fails any other; between a stub and a
server whose database stands for the asylum only the names that are sent can be too long. -/
theorem remoteXdr_carries (s : Service) (now : Timestamp) (junk : Option CString) (call : StubCall) :
    remoteXdr s now junk call = call.remote s now junk ∧
    (Carried s now junk call → remoteXdr s now junk call = call.over (s.request now) junk) ∧
    (¬ Carried s now junk call → remoteXdr s now junk call = none) ∧
    ∀ p a, Represents ⟨s.world, p⟩ a →
      (Carried s now junk call ↔ ∀ argp ∈ call.args junk, Fits (argNames argp)) := by
  have hsame : remoteXdr s now junk call = call.remote s now junk := by
    have hcall : ∀ argp result t, clntCall s now argp = some (result, t) → result.Answers argp :=
      fun _ _ _ hc => request_answers (request_of_clntCall hc)
    rw [remoteXdr, StubCall.remote, over_eq (fun _ _ _ => clntCallXdr_answers), over_eq hcall]
    exact congrArg _ (funext clntCallXdr_reply)
  have hover : call.remote s now junk = (call.args junk).bind fun argp =>
      (clntCall s now argp).map fun x => (x.1.reply, x.2) :=
    over_eq (fun _ _ _ hc => request_answers (request_of_clntCall hc)) junk call
  refine ⟨hsame, fun hfits => ?_, fun hunfit => ?_, fun p a hrep => ?_⟩
  · rw [hsame, hover, over_eq fun _ _ _ => request_answers]
    cases hargs : call.args junk with
    | none => rfl
    | some argp =>
      rw [Option.bind_some, Option.bind_some,
        clntCall_fits (hfits.args argp hargs) (hfits.result argp hargs)]
  · rw [hsame, hover]
    cases hargs : call.args junk with
    | none => rfl
    | some argp =>
      rw [Option.bind_some, clntCall_unfit, Option.map_none]
      rintro ⟨ha, hr⟩
      refine hunfit ⟨fun argp' h' => ?_, fun argp' h' => ?_⟩
      · rw [hargs] at h'
        cases h'
        exact ha
      · rw [hargs] at h'
        cases h'
        exact hr
  · exact ⟨Carried.args, fun hargs => ⟨hargs, fun _ _ _ _ hreq => result_fits hrep hreq⟩⟩

def up : Service := ⟨Session.initial.world, ⟨blankState, 0⟩⟩

def letter (b : Byte) (h : b ≠ 0) (n : Nat) : CString :=
  ⟨List.replicate n b, fun hmem => h (List.eq_of_mem_replicate hmem).symm⟩

/-- A name of 33 bytes does not come through, one of 32 does. -/
theorem remoteXdr_carries_long :
    remoteXdr up .epoch none (.new (letter 97 (by decide) 33) (letter 98 (by decide) 1) 5) = none ∧
    remoteXdr up .epoch none (.new (letter 97 (by decide) 32) (letter 98 (by decide) 1) 5) =
      (StubCall.new (letter 97 (by decide) 32) (letter 98 (by decide) 1) 5).over
        (up.request .epoch) none := by
  have hrep : Represents ⟨up.world, fun _ => -1⟩ .start := represents_start Session.fresh_initial
  obtain ⟨-, -, hlong, hnames⟩ := remoteXdr_carries up .epoch none
    (.new (letter 97 (by decide) 33) (letter 98 (by decide) 1) 5)
  obtain ⟨-, hshort, -, hnames'⟩ := remoteXdr_carries up .epoch none
    (.new (letter 97 (by decide) 32) (letter 98 (by decide) 1) 5)
  refine ⟨hlong fun hcarried => ?_, hshort ((hnames' _ _ hrep).mpr ?_)⟩
  · exact absurd ((hnames _ _ hrep).mp hcarried _ rfl (letter 97 (by decide) 33) (by simp [argNames]))
      (by decide)
  · rintro argp ⟨⟩ x hx
    rcases List.mem_cons.mp hx with rfl | hx
    · decide
    · rw [List.mem_singleton.mp hx]
      decide

/-- A datagram that arrives, whoever sent it, or a move of the runtime. -/
inductive Happening
  | message (now : Timestamp) (rqProc : Nat) (bs : List Byte)
  | sockets (move : FdTable → FdTable)

def hear (s : Service) : Happening → Option (Option Answer × Service)
  | .message now rqProc bs => (Xdr.hamsterRpc1 s now rqProc bs).map fun (a, s) => (some a, s)
  | .sockets move => some (none, svcRun s move)

/-- The call that is asked for, if it can be understood and is no listing. -/
def asked : Happening → Option (Timestamp × Call Nat)
  | .message now rqProc bs =>
    match getArgs bs rqProc with
    | none | some (.directory ..) => none
    | some argp => some (now, argp.call.map fun _ => 0)
  | .sockets _ => none

theorem getArgs_bounds {bs : List Byte} {rqProc : Nat} {argp : Args}
    (h : getArgs bs rqProc = some argp) : rqProc ≠ 0 ∧ rqProc ≤ 7 := by
  refine ⟨fun he => ?_, Nat.not_lt.mp fun hlt => ?_⟩
  · subst he
    cases h
  · obtain ⟨k, rfl⟩ := Nat.exists_eq_add_of_lt hlt
    rw [show 7 + k + 1 = k + 8 by omega] at h
    cases h

/-- A message that is understood is the request, any other changes nothing. -/
theorem hear_cases {s t : Service} {i : Happening} {out : Option Answer}
    (h : hear s i = some (out, t)) :
    (∃ now rqProc bs argp result, i = .message now rqProc bs ∧ getArgs bs rqProc = some argp ∧
        s.request now argp = some (result, t)) ∨
      (asked i = none ∧ ∃ move, t = svcRun s move) := by
  cases i with
  | sockets move =>
    cases h
    exact .inr ⟨rfl, move, rfl⟩
  | message now rqProc bs =>
    obtain ⟨⟨a, t'⟩, hrpc, he⟩ := Option.map_eq_some_iff.mp h
    cases he
    unfold Xdr.hamsterRpc1 at hrpc
    cases hget : getArgs bs rqProc with
    | none =>
      have hquiet : asked (.message now rqProc bs) = none := by rw [asked, hget]
      have hsame : t = s := by
        rw [hget] at hrpc
        split at hrpc
        · cases hrpc; rfl
        · split at hrpc
          · cases hrpc; rfl
          · cases hrpc; rfl
      exact .inr ⟨hquiet, id, hsame⟩
    | some argp =>
      obtain ⟨hzero, hseven⟩ := getArgs_bounds hget
      rw [if_neg hzero, if_neg (Nat.not_lt.mpr hseven), hget] at hrpc
      obtain ⟨⟨result, t''⟩, hreq, he⟩ := Option.map_eq_some_iff.mp hrpc
      cases he
      exact .inl ⟨now, rqProc, bs, argp, result, rfl, hget, hreq⟩

section Histories
variable {s t : Service} {a : State}

/-- The server stands for the asylum; nobody has a handle. -/
def Stands (s : Service) (a : State) : Prop := Represents ⟨s.world, fun _ => -1⟩ a

theorem Stands.closed (h : Stands s a) : (fun _ => .closed) = a.cursor := by
  funext v
  have hs := h.stands v
  change StandsAt s.world a (-1) (a.cursor v) at hs
  generalize hq : (-1 : Int) = q at hs
  generalize a.cursor v = c at hs
  cases hs with
  | closed => rfl
  | live | detached => omega

/-- Reading does not change what the server stands for. -/
theorem Stands.onlyReads (h : Stands s a) (hw : Sys.OnlyReads s.world t.world) : Stands t a := by
  have hrep := Represents.onlyReads h hw
  rw [h.closed] at hrep
  exact hrep

theorem stands_request (h : Stands s a) {now : Timestamp} {argp : Args} {result : Result}
    (hd : ∀ p o n, argp ≠ .directory p o n) (hreq : s.request now argp = some (result, t)) :
    ∃ r b, a.step (now, argp.call.map fun _ => 0) = some (r, b) ∧ Stands t b := by
  obtain ⟨r, hex⟩ := request_world hreq
  have hag := step_agree (now, argp.call.map fun _ => 0) h
  have hstep : Session.step ⟨s.world, fun _ => -1⟩ (now, argp.call.map fun _ => 0) =
      some (r, ⟨t.world, fun _ => -1⟩) := by
    have hcall : ((argp.call.map fun _ => (0 : Nat)).map fun _ => (-1 : Int)) = argp.call := by
      cases argp with
      | directory p o n => exact absurd rfl (hd p o n)
      | collect | givetreats | howsdoing | lookup | readentry | new => rfl
    have hexec : ((argp.call.map fun _ => (0 : Nat)).map fun _ => (-1 : Int)).exec
        { s.world with now := now } = some (r, t.world) := by rw [hcall, hex]
    show (Call.exec { s.world with now := now } _).map _ = _
    rw [hexec, Option.map_some]
    cases argp with
    | directory p o n => exact absurd rfl (hd p o n)
    | collect | givetreats | howsdoing | lookup | readentry | new => rfl
  rw [hstep] at hag
  obtain ⟨b, hb, hrep⟩ := hag.of_some
  exact ⟨r, b, hb, hrep⟩

theorem stands_directory (h : Stands s a) {now : Timestamp} {p : BitVec 32} {o n : CString}
    {result : Result} (hreq : s.request now (.directory p o n) = some (result, t)) : Stands t a := by
  cases hreq
  have hreads := directory_onlyReads { s.world with now := now } p.toInt (nullIfEmpty o) (nullIfEmpty n)
  exact h.onlyReads ⟨⟨hreads.names, hreads.inodes⟩, hreads.nextIno, hreads.reliable⟩

variable {tr : List (Event Service Happening (Option Answer))}

/-- After any history of messages the database is that of the calls that were asked for. -/
theorem messages_refine (hs : Session.Fresh ⟨s.world, fun _ => -1⟩) (h : Run hear s tr t) :
    ∃ tr' b, Run State.step .start tr' b ∧ inputs tr' = (inputs tr).filterMap asked ∧
      storeEntries t.world = b.guests.map Guest.entry := by
  have hstart : Stands s .start := represents_start hs
  clear hs
  generalize State.start = a at hstart ⊢
  suffices hrun : ∃ tr' b, Run State.step a tr' b ∧
      inputs tr' = (inputs tr).filterMap asked ∧ Stands t b by
    obtain ⟨tr', b, hrun, hin, hst⟩ := hrun
    exact ⟨tr', b, hrun, hin, storeEntries_of_represents hst⟩
  induction h generalizing a with
  | nil => exact ⟨[], a, .nil a, rfl, hstart⟩
  | @cons s m t i out tr hstep _ ih =>
    have hinputs : inputs (⟨s, i, out⟩ :: tr) = i :: inputs tr := rfl
    rcases hear_cases hstep with ⟨now, rqProc, bs, argp, result, rfl, hget, hreq⟩ | ⟨hquiet, move, rfl⟩
    · by_cases hd : ∃ p o n, argp = .directory p o n
      · obtain ⟨p, o, n, rfl⟩ := hd
        have hquiet : asked (.message now rqProc bs) = none := by rw [asked, hget]
        obtain ⟨tr', b, hrun, hin, hst⟩ := ih _ (stands_directory hstart hreq)
        exact ⟨tr', b, hrun, by rw [hin, hinputs, List.filterMap_cons_none hquiet], hst⟩
      · have hcall : asked (.message now rqProc bs) = some (now, argp.call.map fun _ => 0) := by
          rw [asked, hget]
          cases argp with
          | directory p o n => exact absurd ⟨p, o, n, rfl⟩ hd
          | collect | givetreats | howsdoing | lookup | readentry | new => rfl
        obtain ⟨r, b, hb, hst⟩ := stands_request hstart (fun p o n he => hd ⟨p, o, n, he⟩) hreq
        obtain ⟨tr', c, hrun, hin, hst'⟩ := ih _ hst
        refine ⟨_ :: tr', c, .cons hb hrun, ?_, hst'⟩
        rw [hinputs, List.filterMap_cons_some hcall, ← hin]
        rfl
    · have hst : Stands (svcRun s move) a :=
        hstart.onlyReads ((Sys.OnlyReads.refl s.world).setFds _)
      obtain ⟨tr', b, hrun, hin, hst'⟩ := ih _ hst
      exact ⟨tr', b, hrun, by rw [hin, hinputs, List.filterMap_cons_none hquiet], hst'⟩

end Histories

/-- An unknown procedure, a name of 200 bytes that does not come, and a hamster. -/
def stray : List Happening :=
  [.message .epoch 9 [1, 2, 3], .message .epoch 7 [0, 0, 0, 200],
    .message .epoch 7 [0, 0, 0, 1, 97, 0, 0, 0, 0, 0, 0, 1, 98, 0, 0, 0, 0, 0, 0, 5]]

example : stray.filterMap asked =
    [(.epoch, .new ⟨[97], by decide⟩ ⟨[98], by decide⟩ 5)] := by decide +kernel

theorem messages_refine_stray : ∃ tr' b, Run State.step .start tr' b ∧
    inputs tr' = (inputs (trace hear up stray).1).filterMap asked ∧
      storeEntries (trace hear up stray).2.world = b.guests.map Guest.entry :=
  messages_refine Session.fresh_initial (Run.of_trace stray up)

end Hamster.Contract.WireMessages
