import Hamster.Lib.Scanf
import Hamster.SunRpc.Service

/-!
# The client stubs behind ONC RPC

hamster_client.c of SunRPC: one function for each procedure, with the signature of the
library function it stands for. Three of them say on standard output what they are about
to do. The runtime delivers every call and every reply once
and unchanged, as far as XDR can carry it; a stub whose call fails goes on through a
null pointer.
-/
namespace Hamster.SunRpc.Client

open Lib.Bytes Lib.Clock Lib.Scanf Store.Entry Store.Library

/-! ## hamster_xdr.c -/

/-- `xdr_string(xdrs, objp, 32)` -/
def xdrNameString (s : CString) : Bool := s.strlen ≤ 32

/-- `xdr_hmstr_collect_in` and its six siblings. -/
def xdrArgs : Args → Bool
  | .collect owner => xdrNameString owner
  | .directory _ owner hamster | .lookup owner hamster | .new owner hamster _ =>
    xdrNameString owner && xdrNameString hamster
  | .givetreats .. | .howsdoing _ | .readentry _ => true

/-- `xdr_hmstr_collect_out` and its six siblings. -/
def xdrResult : Result → Bool
  | .readentry _ owner name _ => xdrNameString (cstr owner) && xdrNameString (cstr name)
  | _ => true

/-- `clnt_call`; nothing is the null pointer of a call that failed. -/
def clntCall (s : Service) (now : Timestamp) (argp : Args) : Option (Result × Service) :=
  if xdrArgs argp = true then (s.request now argp).filter fun x => xdrResult x.1 else none

/-! ## hamster_client.c -/

section Stubs
variable (rpc : Args → Option (Result × Service))

def hmstrNew (ownerName hamsterName : CString) (treats : BitVec 16) : Option (Reply × Service) :=
  match rpc (.new ownerName hamsterName treats) with
  | some (.new id, s) => some (⟨id, .none⟩, s)
  | _ => none

/-- `hmstr_lookup_rpc_1_arg.hamster` is assigned twice. Its `owner` is what the stack held,
`junk`: perhaps not the address of a string. -/
def hmstrLookup (junk : Option CString) (ownerName _hamsterName : CString) :
    Option (Reply × Service) :=
  match junk with
  | none => none
  | some owner =>
    match rpc (.lookup owner ownerName) with
    | some (.lookup id, s) => some (⟨id, .none⟩, s)
    | _ => none

/-- `if(hmst_directory_rpc_1_arg.owner == NULL) hmst_directory_rpc_1_arg.owner = "";` -/
def emptyIfNull (s : Option CString) : CString := s.getD ⟨[], List.not_mem_nil⟩

def hmstrDirectory (fdptr : BitVec 32) (ownerName hamsterName : Option CString) :
    Option (Reply × Service) :=
  match rpc (.directory fdptr (emptyIfNull ownerName) (emptyIfNull hamsterName)) with
  | some (.directory id fdptr, s) => some (⟨id, .handle fdptr.toInt⟩, s)
  | _ => none

def hmstrHowsdoing (id : BitVec 32) : Option (Reply × Service) :=
  match rpc (.howsdoing id) with
  | some (.howsdoing retVal state, s) => some (⟨retVal, .state state⟩, s)
  | _ => none

/-- `strncpy(dst, s, 32)` -/
def strncpy (s : CString) : List Byte := (s.pad 32).take 32

def hmstrReadentry (id : BitVec 32) : Option (Reply × Service) :=
  match rpc (.readentry id) with
  | some (.readentry treats owner name price, s) =>
    some (⟨treats, .entry (strncpy (cstr owner)) (strncpy (cstr name)) price⟩, s)
  | _ => none

def hmstrGivetreats (id : BitVec 32) (treats : BitVec 16) : Option (Reply × Service) :=
  match rpc (.givetreats id treats) with
  | some (.givetreats treats, s) => some (⟨treats, .none⟩, s)
  | _ => none

/-- A longer name does not fit into `static char owner[32]`. -/
def hmstrCollect (ownerName : CString) : Option (Reply × Service) :=
  if ownerName.strlen < 32 then
    match rpc (.collect ownerName) with
    | some (.collect price, s) => some (⟨price, .none⟩, s)
    | _ => none
  else none

end Stubs

/-- A call of a stub, or of the library function of that name. -/
inductive StubCall
  | new (ownerName hamsterName : CString) (treats : BitVec 16)
  | lookup (ownerName hamsterName : CString)
  | directory (fdptr : BitVec 32) (ownerName hamsterName : Option CString)
  | howsdoing (id : BitVec 32)
  | readentry (id : BitVec 32)
  | givetreats (id : BitVec 32) (treats : BitVec 16)
  | collect (ownerName : CString)
  deriving DecidableEq

def StubCall.direct : StubCall → Call Int
  | .new o n t => .new o n t
  | .lookup o n => .lookup (some o) (some n)
  | .directory p o n => .directory p.toInt o n
  | .howsdoing id => .howsdoing id
  | .readentry id => .readentry id
  | .givetreats id t => .givetreats id t
  | .collect o => .collect (some o)

/-- What a stub prints before it calls the server. -/
def StubCall.prints : StubCall → List Byte
  | .new .. => ascii "attempting to call hmstr_new_rpc...\n"
  | .directory fdptr .. =>
    ascii "preparing rpc call directory...\n" ++
      ascii "putting hamstername into place..\n" ++ ascii "checking for NULL\n" ++
      ascii "putting ownername into place..\n" ++ ascii "checking for NULL\n" ++
      ascii "calling dir with parameters:\n" ++
      ascii "\tfdptr: " ++ printInt fdptr.toInt ++ ascii "\n"
  | .collect _ => ascii "copying ownername into place...\n"
  | .lookup .. | .howsdoing _ | .readentry _ | .givetreats .. => []

/-- The return value, the out parameters, and the service afterwards. -/
def StubCall.over (rpc : Args → Option (Result × Service)) (junk : Option CString) :
    StubCall → Option (Reply × Service)
  | .new o n t => hmstrNew rpc o n t
  | .lookup o n => hmstrLookup rpc junk o n
  | .directory p o n => hmstrDirectory rpc p o n
  | .howsdoing id => hmstrHowsdoing rpc id
  | .readentry id => hmstrReadentry rpc id
  | .givetreats id t => hmstrGivetreats rpc id t
  | .collect o => hmstrCollect rpc o

def StubCall.remote (s : Service) (now : Timestamp) (junk : Option CString) (call : StubCall) :
    Option (Reply × Service) :=
  call.over (clntCall s now) junk

end Hamster.SunRpc.Client
