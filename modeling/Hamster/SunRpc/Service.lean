import Hamster.Lib.Runs
import Hamster.Server.Handlers

/-!
# The service routines behind ONC RPC

hamster_server.c of SunRPC: one routine for each procedure of hamster.x, all on the
same library. Their variables are static, so what a call leaves in them the next
one finds. What the RPC runtime does with its own sockets between two requests is a
parameter.
-/
namespace Hamster.SunRpc

open Lib.Bytes Lib.Clock Lib.Posix Store.Entry Store.Library Server.Handlers

/-- The argument structures, `hmstr_collect_in` and its six siblings. -/
inductive Args
  | collect (owner : CString)
  | directory (fdptr : BitVec 32) (owner hamster : CString)
  | givetreats (id : BitVec 32) (treats : BitVec 16)
  | howsdoing (id : BitVec 32)
  | lookup (owner hamster : CString)
  | readentry (id : BitVec 32)
  | new (owner hamster : CString) (treats : BitVec 16)
  deriving DecidableEq

/-- The result structures, `hmstr_collect_out` and its six siblings. -/
inductive Result
  | collect (price : BitVec 32)
  | directory (id fdptr : BitVec 32)
  | givetreats (treats : BitVec 32)
  | howsdoing (retVal : BitVec 32) (state : HmstrState)
  | lookup (id : BitVec 32)
  | readentry (treats : BitVec 32) (owner name : List Byte) (price : BitVec 16)
  | new (id : BitVec 32)
  deriving DecidableEq

/-- The static variables a routine does not set before it uses them. -/
structure Statics where
  state : HmstrState
  price : BitVec 16
  deriving DecidableEq

section Routines
variable (w : World) (statics : Statics)

def hmstrCollectRpc1Svc (owner : CString) : Option (Result × World) :=
  (hmstrCollect w (some owner)).map fun (price, w) => (.collect price, w)

/-- `if(argp->owner[0] == '\0') ownerptr = NULL;` -/
def nullIfEmpty (s : CString) : Option CString := if s.chars = [] then none else some s

def hmstDirectoryRpc1Svc (fdptr : BitVec 32) (owner hamster : CString) : Result × World :=
  let ownerptr := nullIfEmpty owner
  let hmstrptr := nullIfEmpty hamster
  let (id, fdptr, w) := hmstrDirectory w fdptr.toInt ownerptr hmstrptr
  (.directory id (BitVec.ofInt 32 fdptr), w)

def hmstrGivetreatsRpc1Svc (id : BitVec 32) (treats : BitVec 16) : Result × World :=
  let (treats, w) := hmstrGivetreats w id treats
  (.givetreats treats, w)

def hmstrHowsdoingRpc1Svc (id : BitVec 32) : Option (Result × Statics × World) :=
  (hmstrHowsdoing w id statics.state).map fun (retVal, state, w) =>
    (.howsdoing retVal state, { statics with state := state }, w)

def hmstrLookupRpc1Svc (owner hamster : CString) : Result × World :=
  let (id, w) := hmstrLookup w (some owner) (some hamster)
  (.lookup id, w)

/-- Both arrays are cleared first; `strncpy` copies them onto themselves. -/
def hmstrReadentryRpc1Svc (id : BitVec 32) : Option (Result × Statics × World) :=
  (hmstrReadentry w id (List.replicate 32 0) (List.replicate 32 0) statics.price).map
    fun (treats, owner, hamster, price, w) =>
      (.readentry treats owner hamster price, { statics with price := price }, w)

def hmstrNewRpc1Svc (owner hamster : CString) (treats : BitVec 16) : Result × World :=
  let (id, w) := hmstrNew w owner hamster treats
  (.new id, w)

end Routines

structure Service where
  world : World
  statics : Statics

/-- What the runtime does to descriptors: whatever it likes, but for the files. -/
structure Transport where
  act : World → World
  spares : ∀ w fd, Sys.IsFile w fd → (act w).fds.lookup fd = w.fds.lookup fd

inductive Input
  | request (now : Timestamp) (argp : Args)
  | transport (move : Transport)

/-- The routine a request is dispatched to. -/
def Service.request (s : Service) (now : Timestamp) : Args → Option (Result × Service) :=
  let w := { s.world with now := now }
  fun
  | .collect owner =>
      (hmstrCollectRpc1Svc w owner).map fun (result, w) => (result, { s with world := w })
  | .directory fdptr owner hamster =>
      let (result, w) := hmstDirectoryRpc1Svc w fdptr owner hamster
      some (result, { s with world := w })
  | .givetreats id treats =>
      let (result, w) := hmstrGivetreatsRpc1Svc w id treats
      some (result, { s with world := w })
  | .howsdoing id =>
      (hmstrHowsdoingRpc1Svc w s.statics id).map fun (result, statics, w) =>
        (result, ⟨w, statics⟩)
  | .lookup owner hamster =>
      let (result, w) := hmstrLookupRpc1Svc w owner hamster
      some (result, { s with world := w })
  | .readentry id =>
      (hmstrReadentryRpc1Svc w s.statics id).map fun (result, statics, w) =>
        (result, ⟨w, statics⟩)
  | .new owner hamster treats =>
      let (result, w) := hmstrNewRpc1Svc w owner hamster treats
      some (result, { s with world := w })

/-- A request is answered with a result, a move of the runtime with nothing. -/
def Service.step (s : Service) : Input → Option (Option Result × Service)
  | .request now argp => (s.request now argp).map fun (result, s) => (some result, s)
  | .transport move => some (none, { s with world := move.act s.world })

/-- The library call a procedure makes. -/
def Args.call : Args → Call Int
  | .collect owner => .collect (some owner)
  | .directory fdptr owner hamster =>
      .directory fdptr.toInt (nullIfEmpty owner) (nullIfEmpty hamster)
  | .givetreats id treats => .givetreats id treats
  | .howsdoing id => .howsdoing id
  | .lookup owner hamster => .lookup (some owner) (some hamster)
  | .readentry id => .readentry id
  | .new owner hamster treats => .new owner hamster treats

/-- A request changes the world as the library call does. -/
theorem request_world {s t : Service} {now : Timestamp} {argp : Args} {result : Result}
    (h : s.request now argp = some (result, t)) :
    ∃ r, argp.call.exec { s.world with now := now } = some (r, t.world) := by
  cases argp with
  | collect owner =>
    obtain ⟨x, hx, h⟩ := Option.map_eq_some_iff.mp h
    obtain ⟨y, hy, rfl⟩ := Option.map_eq_some_iff.mp hx
    obtain ⟨-, rfl⟩ := Prod.mk.inj h
    exact ⟨_, (exec_collect _ _).trans (congrArg (Option.map _) hy)⟩
  | directory fdptr owner hamster =>
    cases h
    exact ⟨_, exec_directory ..⟩
  | givetreats id treats =>
    cases h
    exact ⟨_, exec_givetreats ..⟩
  | lookup owner hamster =>
    cases h
    exact ⟨_, exec_lookup ..⟩
  | new owner hamster treats =>
    cases h
    exact ⟨_, exec_new ..⟩
  | howsdoing id =>
    obtain ⟨x, hx, h⟩ := Option.map_eq_some_iff.mp h
    obtain ⟨y, hy, rfl⟩ := Option.map_eq_some_iff.mp hx
    obtain ⟨-, rfl⟩ := Prod.mk.inj h
    rw [Args.call, exec_howsdoing]
    rcases howsdoing_state { s.world with now := now } id with ⟨w', he⟩ | ⟨z, he⟩
    · rw [he] at hy ⊢
      cases hy
      exact ⟨_, rfl⟩
    · rw [he, ← he s.statics.state, hy]
      exact ⟨_, rfl⟩
  | readentry id =>
    obtain ⟨x, hx, h⟩ := Option.map_eq_some_iff.mp h
    obtain ⟨y, hy, rfl⟩ := Option.map_eq_some_iff.mp hx
    obtain ⟨-, rfl⟩ := Prod.mk.inj h
    rw [Args.call, exec_readentry]
    rcases readentry_price { s.world with now := now } id blankName blankName with
      ⟨w', he⟩ | ⟨z, he⟩
    · rw [show List.replicate 32 0 = blankName from rfl, he] at hy
      rw [he]
      cases hy
      exact ⟨_, rfl⟩
    · rw [he, ← he s.statics.price]
      rw [show List.replicate 32 0 = blankName from rfl] at hy
      rw [hy]
      exact ⟨_, rfl⟩

end Hamster.SunRpc
