import Hamster.Lib.Datagrams
import Hamster.SunRpc.Client

/-!
# SunRPC over UDP

`hmstr_rpc_init` asks for "udp", and hamster_svc.c creates its UDP transport without a
cache of replies. So `clnt_call` repeats a request that is not answered, and the server runs
the routine once for every copy that arrives. `over_eq` says what a stub adds to its
`clnt_call`, and `exchange` that one without accidents is the `clntCall` of hamster_client.c.
-/
namespace Hamster.SunRpc

open Lib.Bytes Lib.Clock Lib.Posix Lib.Runs Store.Entry Store.Library
open SunRpc.Client (StubCall clntCall emptyIfNull strncpy xdrArgs xdrResult)

/-- Arguments that XDR can carry; no others are sent. -/
abbrev Request := { argp : Args // xdrArgs argp = true }

/-- `hamster_rpc_1`. Nothing stands for `svcerr_systemerr`. -/
def hamsterRpc1 (s : Service) (now : Timestamp) (argp : Request) :
    Option (Option Result × Service) :=
  (s.request now argp.1).map fun (result, s) =>
    (if xdrResult result = true then some result else none, s)

/-- The runtime opens and closes descriptors as it likes. -/
def svcRun (s : Service) (sockets : FdTable → FdTable) : Service :=
  { s with world := { s.world with fds := sockets s.world.fds } }

namespace Udp

abbrev Net (κ : Type) := Lib.Datagrams.Net κ Service Request (Option Result)

abbrev Move (κ : Type) := Lib.Datagrams.Move κ Request (Option Result) Timestamp (FdTable → FdTable)

abbrev Note (κ : Type) := Lib.Datagrams.Note κ Request (Option Result)

def step {κ : Type} [DecidableEq κ] (net : Net κ) (m : Move κ) : Option (Note κ × Net κ) :=
  Lib.Datagrams.step hamsterRpc1 svcRun net m

/-- The runs of a network. -/
abbrev Runs {κ : Type} [DecidableEq κ] (net : Net κ) (tr : List (Event (Net κ) (Move κ) (Note κ)))
    (net' : Net κ) : Prop :=
  Run step net tr net'

end Udp

/-- What a stub passes on to its procedure, if it gets as far. -/
def Client.StubCall.args (junk : Option CString) : StubCall → Option Args
  | .new o n t => some (.new o n t)
  | .lookup o _ => junk.map (.lookup · o)
  | .directory p o n => some (.directory p (emptyIfNull o) (emptyIfNull n))
  | .howsdoing id => some (.howsdoing id)
  | .readentry id => some (.readentry id)
  | .givetreats id t => some (.givetreats id t)
  | .collect o => if o.strlen < 32 then some (.collect o) else none

/-- What a stub makes of the result. -/
def Result.reply : Result → Reply
  | .collect price => ⟨price, .none⟩
  | .directory id fdptr => ⟨id, .handle fdptr.toInt⟩
  | .givetreats treats => ⟨treats, .none⟩
  | .howsdoing retVal state => ⟨retVal, .state state⟩
  | .lookup id => ⟨id, .none⟩
  | .readentry treats owner name price =>
    ⟨treats, .entry (strncpy (cstr owner)) (strncpy (cstr name)) price⟩
  | .new id => ⟨id, .none⟩

section Stubs
variable {s : Service} {now : Timestamp} {junk : Option CString}

theorem request_of_clntCall {argp : Args} {result : Result} {t : Service}
    (h : clntCall s now argp = some (result, t)) : s.request now argp = some (result, t) := by
  rw [clntCall] at h
  split at h
  · exact (Option.filter_eq_some_iff.mp h).1
  · cases h

/-- A result of the procedure that was called. -/
def Result.Answers : Args → Result → Prop
  | .collect _, .collect _ | .directory .., .directory .. | .givetreats .., .givetreats _ => True
  | .howsdoing _, .howsdoing .. | .lookup .., .lookup _ | .readentry _, .readentry .. => True
  | .new .., .new _ => True
  | _, _ => False

theorem request_answers {argp : Args} {result : Result} {t : Service}
    (h : s.request now argp = some (result, t)) : result.Answers argp := by
  cases argp with
  | new o n t => cases h; trivial
  | lookup o n => cases h; trivial
  | directory p o n => cases h; trivial
  | givetreats id t => cases h; trivial
  | howsdoing id =>
    obtain ⟨x, hx, he⟩ := Option.map_eq_some_iff.mp h
    obtain ⟨y, -, rfl⟩ := Option.map_eq_some_iff.mp hx
    cases he
    trivial
  | readentry id =>
    obtain ⟨x, hx, he⟩ := Option.map_eq_some_iff.mp h
    obtain ⟨y, -, rfl⟩ := Option.map_eq_some_iff.mp hx
    cases he
    trivial
  | collect o =>
    obtain ⟨x, hx, he⟩ := Option.map_eq_some_iff.mp h
    obtain ⟨y, -, rfl⟩ := Option.map_eq_some_iff.mp hx
    cases he
    trivial

/-- What a stub returns, it makes of the result of one `clnt_call`. -/
theorem over_eq {rpc : Args → Option (Result × Service)}
    (hanswers : ∀ argp result t, rpc argp = some (result, t) → result.Answers argp)
    (junk : Option CString) (call : StubCall) :
    call.over rpc junk = (call.args junk).bind fun argp =>
      (rpc argp).map fun x => (x.1.reply, x.2) := by
  have hcall (argp : Args) (f : Option (Result × Service) → Option (Reply × Service))
      (hnone : f none = none)
      (hsome : ∀ result t, result.Answers argp → f (some (result, t)) = some (result.reply, t)) :
      f (rpc argp) = (rpc argp).map fun x => (x.1.reply, x.2) := by
    cases hc : rpc argp with
    | none => exact hnone
    | some x => exact hsome x.1 x.2 (hanswers _ _ _ hc)
  cases call with
  | new o n t =>
    refine hcall (.new o n t) (fun x => Client.hmstrNew (fun _ => x) o n t) rfl ?_
    intro result t' ha
    cases result <;> first | exact ha.elim | rfl
  | lookup o n =>
    cases junk with
    | none => rfl
    | some g =>
      refine hcall (.lookup g o) (fun x => Client.hmstrLookup (fun _ => x) (some g) o n) rfl ?_
      intro result t' ha
      cases result <;> first | exact ha.elim | rfl
  | directory p o n =>
    refine hcall (.directory p (emptyIfNull o) (emptyIfNull n))
      (fun x => Client.hmstrDirectory (fun _ => x) p o n) rfl ?_
    intro result t' ha
    cases result <;> first | exact ha.elim | rfl
  | howsdoing id =>
    refine hcall (.howsdoing id) (fun x => Client.hmstrHowsdoing (fun _ => x) id) rfl ?_
    intro result t' ha
    cases result <;> first | exact ha.elim | rfl
  | readentry id =>
    refine hcall (.readentry id) (fun x => Client.hmstrReadentry (fun _ => x) id) rfl ?_
    intro result t' ha
    cases result <;> first | exact ha.elim | rfl
  | givetreats id t =>
    refine hcall (.givetreats id t) (fun x => Client.hmstrGivetreats (fun _ => x) id t) rfl ?_
    intro result t' ha
    cases result <;> first | exact ha.elim | rfl
  | collect o =>
    by_cases hl : o.strlen < 32
    · have hargs : StubCall.args junk (.collect o) = some (.collect o) := if_pos hl
      rw [hargs, Option.bind_some, ← hcall (.collect o) (fun x => Client.hmstrCollect (fun _ => x) o)]
      · rfl
      · exact if_pos hl
      · intro result t' ha
        rw [Client.hmstrCollect, if_pos hl]
        cases result <;> first | exact ha.elim | rfl
    · have hargs : StubCall.args junk (.collect o) = none := if_neg hl
      rw [hargs]
      exact if_neg hl

end Stubs

section Exchange
variable {κ : Type} [DecidableEq κ]

theorem hamsterRpc1_of_clntCall {s t : Service} {now : Timestamp} {argp : Request} {result : Result}
    (h : clntCall s now argp.1 = some (result, t)) :
    hamsterRpc1 s now argp = some (some result, t) := by
  have hr : xdrResult result = true := by
    rw [clntCall, if_pos argp.2] at h
    exact (Option.filter_eq_some_iff.mp h).2
  rw [hamsterRpc1, request_of_clntCall h, Option.map_some]
  exact congrArg (fun r => some (r, t)) (if_pos hr)

/-- A `clnt_call` whose datagrams all arrive in time. -/
theorem exchange {net : Udp.Net κ} {c : κ} (hc : net.pending c = none) {argp : Request}
    {now : Timestamp} {result : Result} {t : Service}
    (h : clntCall net.server now argp.1 = some (result, t)) :
    ∃ tr net', Udp.Runs net tr net' ∧ net'.server = t ∧ outputs tr =
      [.began (net.xid c) argp, .executed (net.xid c) argp (some result),
        .returned (net.xid c) (some result)] :=
  Lib.Datagrams.exchange hc (hamsterRpc1_of_clntCall h)

end Exchange
end Hamster.SunRpc
