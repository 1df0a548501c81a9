import Hamster.Lib.Xdr
import Hamster.SunRpc.Network

/-!
# The bytes of SunRPC

hamster_xdr.c, the dispatch of hamster_svc.c and the calls of hamster_clnt.c. A request is
the number of a procedure and the bytes of its arguments.
-/
namespace Hamster.SunRpc.Xdr

open Lib.Bytes Lib.Clock Lib.Xdr Store.Entry
open SunRpc.Client (clntCall xdrArgs xdrResult)

/-! ## hamster_xdr.c -/

/-- `xdr_string(xdrs, objp, 32)` -/
def xdrNameString : Routine CString := string 32 (by decide)

def xdrHmstrNewIn : Routine (CString × CString × BitVec 16) :=
  xdrNameString.pair (xdrNameString.pair uint16)

def xdrHmstrNewOut : Routine (BitVec 32) := int32

def xdrHmstrLookupIn : Routine (CString × CString) := xdrNameString.pair xdrNameString

def xdrHmstrLookupOut : Routine (BitVec 32) := int32

def xdrHmstrDirectoryIn : Routine (BitVec 32 × CString × CString) :=
  int32.pair (xdrNameString.pair xdrNameString)

def xdrHmstrDirectoryOut : Routine (BitVec 32 × BitVec 32) := int32.pair int32

def xdrHmstrHowsdoingIn : Routine (BitVec 32) := int32

/-- `treats_left`, `rounds` and `cost`. -/
def xdrHmstrState : Routine (BitVec 16 × BitVec 32 × BitVec 16) := uint16.pair (int32.pair int16)

def xdrHmstrHowsdoingOut : Routine (BitVec 32 × BitVec 16 × BitVec 32 × BitVec 16) :=
  int32.pair xdrHmstrState

def xdrHmstrReadentryIn : Routine (BitVec 32) := int32

def xdrHmstrReadentryOut : Routine (BitVec 32 × CString × CString × BitVec 16) :=
  int32.pair (xdrNameString.pair (xdrNameString.pair int16))

def xdrHmstrGivetreatsIn : Routine (BitVec 32 × BitVec 16) := int32.pair uint16

def xdrHmstrGivetreatsOut : Routine (BitVec 32) := int32

def xdrHmstrCollectIn : Routine CString := xdrNameString

def xdrHmstrCollectOut : Routine (BitVec 32) := int32

/-! ## Arguments and results -/

/-- `HMSTR_COLLECT_RPC` and its six siblings. -/
def proc : Args → Nat
  | .collect _ => 1
  | .directory .. => 2
  | .givetreats .. => 3
  | .howsdoing _ => 4
  | .lookup .. => 5
  | .readentry _ => 6
  | .new .. => 7

/-- The argument structure of a procedure, encoded. -/
def putArgs : Args → Option (List Byte)
  | .collect owner => xdrHmstrCollectIn.put owner
  | .directory fdptr owner hamster => xdrHmstrDirectoryIn.put (fdptr, owner, hamster)
  | .givetreats id treats => xdrHmstrGivetreatsIn.put (id, treats)
  | .howsdoing id => xdrHmstrHowsdoingIn.put id
  | .lookup owner hamster => xdrHmstrLookupIn.put (owner, hamster)
  | .readentry id => xdrHmstrReadentryIn.put id
  | .new owner hamster treats => xdrHmstrNewIn.put (owner, hamster, treats)

/-- `svc_getargs` with the routine of a procedure. What is left of the message does not
matter. -/
def getArgs (bs : List Byte) : Nat → Option Args
  | 1 => (xdrHmstrCollectIn.get bs).map fun (owner, _) => .collect owner
  | 2 => (xdrHmstrDirectoryIn.get bs).map fun ((fdptr, owner, hamster), _) =>
      .directory fdptr owner hamster
  | 3 => (xdrHmstrGivetreatsIn.get bs).map fun ((id, treats), _) => .givetreats id treats
  | 4 => (xdrHmstrHowsdoingIn.get bs).map fun (id, _) => .howsdoing id
  | 5 => (xdrHmstrLookupIn.get bs).map fun ((owner, hamster), _) => .lookup owner hamster
  | 6 => (xdrHmstrReadentryIn.get bs).map fun (id, _) => .readentry id
  | 7 => (xdrHmstrNewIn.get bs).map fun ((owner, hamster, treats), _) => .new owner hamster treats
  | _ => none

/-- The names of an entry are arrays of the server. -/
def putResult : Result → Option (List Byte)
  | .collect price => xdrHmstrCollectOut.put price
  | .directory id fdptr => xdrHmstrDirectoryOut.put (id, fdptr)
  | .givetreats treats => xdrHmstrGivetreatsOut.put treats
  | .howsdoing retVal st => xdrHmstrHowsdoingOut.put (retVal, st.treatsLeft, st.rounds, st.cost)
  | .lookup id => xdrHmstrLookupOut.put id
  | .readentry treats owner name price =>
    xdrHmstrReadentryOut.put (treats, cstr owner, cstr name, price)
  | .new id => xdrHmstrNewOut.put id

/-- A string that was received, in memory that was allocated for it. -/
def allocated (s : CString) : List Byte := s.chars ++ [0]

/-- The result structure of the procedure that was called, decoded. -/
def getResult (bs : List Byte) : Args → Option Result
  | .collect _ => (xdrHmstrCollectOut.get bs).map fun (price, _) => .collect price
  | .directory .. => (xdrHmstrDirectoryOut.get bs).map fun ((id, fdptr), _) => .directory id fdptr
  | .givetreats .. => (xdrHmstrGivetreatsOut.get bs).map fun (treats, _) => .givetreats treats
  | .howsdoing _ => (xdrHmstrHowsdoingOut.get bs).map fun ((retVal, left, rounds, cost), _) =>
      .howsdoing retVal ⟨left, rounds, cost⟩
  | .lookup .. => (xdrHmstrLookupOut.get bs).map fun (id, _) => .lookup id
  | .readentry _ => (xdrHmstrReadentryOut.get bs).map fun ((treats, owner, name, price), _) =>
      .readentry treats (allocated owner) (allocated name) price
  | .new .. => (xdrHmstrNewOut.get bs).map fun (id, _) => .new id

/-! ## hamster_svc.c -/

/-- How a request is accepted; the bytes are those of a result. -/
inductive Answer
  | success (bs : List Byte)
  | procUnavail
  | garbageArgs
  | systemErr
  deriving DecidableEq

/-- `hamster_rpc_1` -/
def hamsterRpc1 (s : Service) (now : Timestamp) (rqProc : Nat) (bs : List Byte) :
    Option (Answer × Service) :=
  if rqProc = 0 then some (.success [], s)
  else if 7 < rqProc then some (.procUnavail, s)
  else
    match getArgs bs rqProc with
    | none => some (.garbageArgs, s)
    | some argp => (s.request now argp).map fun (result, s) =>
      (match putResult result with
        | none => .systemErr
        | some bs => .success bs, s)

/-! ## hamster_clnt.c -/

/-- `clnt_call` of the stub for the procedure; nothing is `NULL`. -/
def clntCallXdr (s : Service) (now : Timestamp) (argp : Args) : Option (Result × Service) :=
  (putArgs argp).bind fun bs => (hamsterRpc1 s now (proc argp) bs).bind fun (answer, s) =>
    match answer with
    | .success bs => (getResult bs argp).map fun result => (result, s)
    | _ => none

/-! ## Messages -/

section Messages
variable {argp : Args} {result : Result} {bs : List Byte}

theorem xdrNameString_isSome (s : CString) :
    (xdrNameString.put s).isSome = Client.xdrNameString s := putString_isSome 32 s

/-- What XDR can carry. -/
theorem putArgs_isSome (argp : Args) : (putArgs argp).isSome = xdrArgs argp := by
  cases argp with
  | collect owner => exact xdrNameString_isSome owner
  | directory fdptr owner hamster =>
    rw [putArgs, xdrHmstrDirectoryIn, Routine.pair_put_isSome, Routine.pair_put_isSome,
      xdrNameString_isSome, xdrNameString_isSome]
    rfl
  | givetreats id treats => rfl
  | howsdoing id => rfl
  | lookup owner hamster =>
    rw [putArgs, xdrHmstrLookupIn, Routine.pair_put_isSome, xdrNameString_isSome,
      xdrNameString_isSome]
    rfl
  | readentry id => rfl
  | new owner hamster treats =>
    rw [putArgs, xdrHmstrNewIn, Routine.pair_put_isSome, Routine.pair_put_isSome,
      xdrNameString_isSome, xdrNameString_isSome]
    show (_ && (_ && true)) = _
    rw [Bool.and_true]
    rfl

theorem putResult_isSome (result : Result) : (putResult result).isSome = xdrResult result := by
  cases result with
  | readentry treats owner name price =>
    rw [putResult, xdrHmstrReadentryOut, Routine.pair_put_isSome, Routine.pair_put_isSome,
      Routine.pair_put_isSome, xdrNameString_isSome, xdrNameString_isSome]
    show (true && (_ && (_ && true))) = _
    rw [Bool.and_true, Bool.true_and]
    rfl
  | _ => rfl

/-- The server takes the arguments that were sent. -/
theorem getArgs_putArgs (h : putArgs argp = some bs) : getArgs bs (proc argp) = some argp := by
  cases argp with
  | collect owner => exact congrArg (Option.map _) (xdrHmstrCollectIn.get_of_put h)
  | directory fdptr owner hamster =>
    exact congrArg (Option.map _) (xdrHmstrDirectoryIn.get_of_put h)
  | givetreats id treats => exact congrArg (Option.map _) (xdrHmstrGivetreatsIn.get_of_put h)
  | howsdoing id => exact congrArg (Option.map _) (xdrHmstrHowsdoingIn.get_of_put h)
  | lookup owner hamster => exact congrArg (Option.map _) (xdrHmstrLookupIn.get_of_put h)
  | readentry id => exact congrArg (Option.map _) (xdrHmstrReadentryIn.get_of_put h)
  | new owner hamster treats => exact congrArg (Option.map _) (xdrHmstrNewIn.get_of_put h)

/-- The result as the client gets it. -/
def received : Result → Result
  | .readentry treats owner name price =>
    .readentry treats (allocated (cstr owner)) (allocated (cstr name)) price
  | result => result

theorem getResult_putResult (ha : result.Answers argp) (h : putResult result = some bs) :
    getResult bs argp = some (received result) := by
  cases argp <;> cases result <;> first
    | exact ha.elim
    | exact congrArg (Option.map _) (Routine.get_of_put h)

theorem proc_bounds (argp : Args) : proc argp ≠ 0 ∧ proc argp ≤ 7 := by
  cases argp <;> simp [proc]

/-- A call that goes over the wire is the call of the routine behind it. -/
theorem clntCallXdr_eq (s : Service) (now : Timestamp) (argp : Args) :
    clntCallXdr s now argp = (clntCall s now argp).map fun x => (received x.1, x.2) := by
  have hxdr := putArgs_isSome argp
  obtain ⟨hzero, hseven⟩ := proc_bounds argp
  rw [clntCallXdr, clntCall]
  cases hput : putArgs argp with
  | none =>
    rw [hput] at hxdr
    rw [if_neg (by rw [← hxdr]; decide)]
    rfl
  | some bs =>
    rw [hput] at hxdr
    have hfits : xdrArgs argp = true := hxdr.symm
    rw [if_pos hfits, Option.bind_some, hamsterRpc1, if_neg hzero, if_neg (Nat.not_lt.mpr hseven),
      getArgs_putArgs hput]
    dsimp only
    cases hreq : s.request now argp with
    | none => rfl
    | some x =>
      obtain ⟨result, t⟩ := x
      have hcarries := putResult_isSome result
      rw [Option.map_some, Option.bind_some]
      dsimp only
      cases hres : putResult result with
      | none =>
        rw [hres] at hcarries
        rw [Option.filter_some, if_neg (by dsimp only; rw [← hcarries]; decide)]
        rfl
      | some out =>
        rw [hres] at hcarries
        dsimp only
        have hfits : xdrResult result = true := hcarries.symm
        rw [Option.filter_some, if_pos hfits,
          getResult_putResult (request_answers hreq) hres]
        rfl

end Messages

end Hamster.SunRpc.Xdr
