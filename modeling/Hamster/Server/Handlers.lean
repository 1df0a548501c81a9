import Hamster.Server.Messages
import Hamster.Store.Library

/-!
# The request handlers

payloadHandler.c: each call has a function that decodes the payload and calls the
library, and one that writes the reply if the result is not negative. What the
stack holds before a variable is set is a parameter.
-/
namespace Hamster.Server.Handlers

open Lib.Bytes Lib.Memory Lib.Posix Wire Messages Store.Entry Store.Library

/-- What one turn of the server finds in memory it has not written yet: the
buffers, what lies behind the two name arrays, and the out parameters. -/
structure Scratch where
  payloadStream : Mem
  replyBuffer : Mem
  errorBuffer : Mem
  behindOwner : List Byte
  behindHamster : List Byte
  state : HmstrState
  price : BitVec 16

/-- The string in a `char[32]` filled from the payload. -/
def nameArg (payloadStream : Mem) (off : Nat) (behind : List Byte) : CString :=
  cstr (rpcDecodeSstring payloadStream off 32 ++ behind)

/-- `if(owner[0] == '\0') ownerptr = NULL;` -/
def nameArgOpt (payloadStream : Mem) (off : Nat) (behind : List Byte) : Option CString :=
  if payloadStream off = 0 then none else some (nameArg payloadStream off behind)

section Execute
variable (w : World) (payloadStream : Mem) (junk : Scratch)

def executeNew : BitVec 32 × World :=
  let owner := nameArg payloadStream 0 junk.behindOwner
  let hamster := nameArg payloadStream 32 junk.behindHamster
  let treats := rpcDecodeUint16 payloadStream 64
  hmstrNew w owner hamster treats

def executeLookUp : BitVec 32 × World :=
  let owner := nameArg payloadStream 0 junk.behindOwner
  let hamster := nameArg payloadStream 32 junk.behindHamster
  hmstrLookup w (some owner) (some hamster)

def executeHowsDoing (state : HmstrState) : Option (BitVec 32 × HmstrState × World) :=
  let hamsterID := rpcDecodeInt32 payloadStream 0
  hmstrHowsdoing w hamsterID state

/-- The second component is `*fd` after the call. -/
def executeDirectory : BitVec 32 × Int × World :=
  let fd := rpcDecodeInt32 payloadStream 0
  let ownerptr := nameArgOpt payloadStream 4 junk.behindOwner
  let hmstrptr := nameArgOpt payloadStream 36 junk.behindHamster
  hmstrDirectory w fd.toInt ownerptr hmstrptr

def executeReadEntry (owner hamster : List Byte) (price : BitVec 16) :
    Option (BitVec 32 × List Byte × List Byte × BitVec 16 × World) :=
  let hamsterID := rpcDecodeInt32 payloadStream 0
  hmstrReadentry w hamsterID owner hamster price

def executeGiveTreats : BitVec 32 × World :=
  let hamsterID := rpcDecodeInt32 payloadStream 0
  let treats := rpcDecodeUint16 payloadStream 4
  hmstrGivetreats w hamsterID treats

def executeCollect : Option (BitVec 32 × World) :=
  let owner := nameArg payloadStream 0 junk.behindOwner
  hmstrCollect w (some owner)

end Execute

section Handle
variable (w : World) (payloadStream sendBuffer : Mem) (sendHeader : Header) (junk : Scratch)

/-- `if(retValue >= 0) { encodeHeader(…); encodeReply…(…); }` -/
def answer (retValue : BitVec 32) (encodeReply : Mem → BitVec 32 → Mem) : Mem :=
  if 0 ≤ retValue.toInt then encodeReply (encodeHeader sendBuffer sendHeader) retValue
  else sendBuffer

def handleNew : BitVec 32 × Mem × World :=
  let (retValue, w) := executeNew w payloadStream junk
  (retValue, answer sendBuffer sendHeader retValue encodeReplyNew, w)

def handleLookUp : BitVec 32 × Mem × World :=
  let (retValue, w) := executeLookUp w payloadStream junk
  (retValue, answer sendBuffer sendHeader retValue encodeReplyLookUp, w)

def handleHowsDoing : Option (BitVec 32 × Mem × World) :=
  (executeHowsDoing w payloadStream junk.state).map fun (retValue, state, w) =>
    (retValue, answer sendBuffer sendHeader retValue (encodeReplyHowsDoing · · state), w)

def handleDirectory : BitVec 32 × Mem × World :=
  let (retValue, fd, w) := executeDirectory w payloadStream junk
  (retValue,
    answer sendBuffer sendHeader retValue (encodeReplyDirectory · · (BitVec.ofInt 32 fd)), w)

def handleReadEntry : Option (BitVec 32 × Mem × World) :=
  (executeReadEntry w payloadStream (List.replicate 32 0) (List.replicate 32 0) junk.price).map
    fun (retValue, owner, hamster, price, w) =>
      (retValue,
        answer sendBuffer sendHeader retValue (encodeReplyReadEntry · · owner hamster price), w)

def handleGiveTreats : BitVec 32 × Mem × World :=
  let (retValue, w) := executeGiveTreats w payloadStream
  (retValue, answer sendBuffer sendHeader retValue encodeReplyGiveTreats, w)

def handleCollect : Option (BitVec 32 × Mem × World) :=
  (executeCollect w payloadStream junk).map fun (retValue, w) =>
    (retValue, answer sendBuffer sendHeader retValue encodeReplyCollect, w)

/-- The result, the send buffer and the world after the call; an unknown call
returns 0 and does nothing. -/
def handlePayload (receiveHeader : Header) : Option (BitVec 32 × Mem × World) :=
  match receiveHeader.rpcID.toNat with
  | 1 => some (handleNew w payloadStream sendBuffer sendHeader junk)
  | 2 => some (handleLookUp w payloadStream sendBuffer sendHeader junk)
  | 3 => some (handleDirectory w payloadStream sendBuffer sendHeader junk)
  | 4 => handleHowsDoing w payloadStream sendBuffer sendHeader junk
  | 5 => handleReadEntry w payloadStream sendBuffer sendHeader junk
  | 6 => some (handleGiveTreats w payloadStream sendBuffer sendHeader)
  | 7 => handleCollect w payloadStream sendBuffer sendHeader junk
  | _ => some (0, sendBuffer, w)

end Handle

/-- The library call a request makes, if any. -/
def requestedCall (rpcID : BitVec 16) (payloadStream : Mem) (junk : Scratch) :
    Option (Call Int) :=
  match rpcID.toNat with
  | 1 => some (.new (nameArg payloadStream 0 junk.behindOwner)
      (nameArg payloadStream 32 junk.behindHamster) (rpcDecodeUint16 payloadStream 64))
  | 2 => some (.lookup (some (nameArg payloadStream 0 junk.behindOwner))
      (some (nameArg payloadStream 32 junk.behindHamster)))
  | 3 => some (.directory (rpcDecodeInt32 payloadStream 0).toInt
      (nameArgOpt payloadStream 4 junk.behindOwner)
      (nameArgOpt payloadStream 36 junk.behindHamster))
  | 4 => some (.howsdoing (rpcDecodeInt32 payloadStream 0))
  | 5 => some (.readentry (rpcDecodeInt32 payloadStream 0))
  | 6 => some (.givetreats (rpcDecodeInt32 payloadStream 0) (rpcDecodeUint16 payloadStream 4))
  | 7 => some (.collect (some (nameArg payloadStream 0 junk.behindOwner)))
  | _ => none

/-- A result and its out arguments, marshalled in that order without padding. -/
def marshalled (r : Reply) : List Byte :=
  beBytes 4 r.ret.toNat ++
    match r.out with
    | .none => []
    | .handle fdptr => beBytes 4 (BitVec.ofInt 32 fdptr).toNat
    | .state st => beBytes 2 st.treatsLeft.toNat ++ beBytes 4 st.rounds.toNat ++
        beBytes 2 st.cost.toNat
    | .entry owner name price => owner.take 32 ++ name.take 32 ++ beBytes 2 price.toNat

section Outputs
variable (w : World) (id : BitVec 32)

/-- What the caller's variables held shows only when nothing was found. -/
theorem howsdoing_state : (∃ w', ∀ st, hmstrHowsdoing w id st = some (hmstrErrNotFound, st, w')) ∨
    ∃ x, ∀ st, hmstrHowsdoing w id st = x := by
  unfold hmstrHowsdoing
  split
  · exact .inl ⟨_, fun _ => rfl⟩
  · split
    · exact .inr ⟨_, fun _ => rfl⟩
    · exact .inl ⟨_, fun _ => rfl⟩

theorem readentry_price (owner name : List Byte) :
    (∃ w', ∀ price, hmstrReadentry w id owner name price =
      some (hmstrErrNotFound, owner, name, price, w')) ∨
    ∃ x, ∀ price, hmstrReadentry w id owner name price = x := by
  unfold hmstrReadentry
  split
  · exact .inl ⟨_, fun _ => rfl⟩
  · split
    · exact .inr ⟨_, fun _ => rfl⟩
    · exact .inl ⟨_, fun _ => rfl⟩

theorem le_length_strcpy (dst : List Byte) (s : CString) :
    dst.length ≤ (strcpy dst s).length := by
  simp only [strcpy, CString.strlen, List.length_append, List.length_cons, List.length_drop]
  omega

theorem readentry_lengths {id : BitVec 32} {owner name owner' name' : List Byte}
    {price price' : BitVec 16} {ret : BitVec 32} {w' : World}
    (h : hmstrReadentry w id owner name price = some (ret, owner', name', price', w')) :
    owner.length ≤ owner'.length ∧ name.length ≤ name'.length := by
  unfold hmstrReadentry at h
  have hkept {w₀ : World} (he : some (hmstrErrNotFound, owner, name, price, w₀) =
      some (ret, owner', name', price', w')) :
      owner.length ≤ owner'.length ∧ name.length ≤ name'.length := by
    cases he
    exact ⟨Nat.le_refl _, Nat.le_refl _⟩
  split at h
  · exact hkept h
  · split at h
    · dsimp only at h
      split at h
      · cases h
      · have ho : strcpy owner _ = owner' := congrArg (·.2.1) (Option.some.inj h)
        have hn : strcpy name _ = name' := congrArg (·.2.2.1) (Option.some.inj h)
        rw [← ho, ← hn]
        exact ⟨le_length_strcpy .., le_length_strcpy ..⟩
    · exact hkept h

end Outputs

section Requested
variable (w : World) (payloadStream sendBuffer : Mem) (sendHeader : Header) (junk : Scratch)

/-- The send buffer once a result is known: untouched, or a header and the
marshalled result from its front on. -/
def replied (r : Reply) : Mem :=
  if 0 ≤ r.ret.toInt then poke sendBuffer 0 (headerBytes sendHeader ++ marshalled r)
  else sendBuffer

theorem replied_of_neg {r : Reply} (h : r.ret.toInt < 0) :
    replied sendBuffer sendHeader r = sendBuffer := if_neg (Int.not_le.mpr h)

theorem replied_notFound (out : OutArgs) :
    replied sendBuffer sendHeader ⟨hmstrErrNotFound, out⟩ = sendBuffer :=
  replied_of_neg _ _ (show hmstrErrNotFound.toInt < 0 by decide)

theorem answer_return (ret : BitVec 32) :
    answer sendBuffer sendHeader ret encodeReturn = replied sendBuffer sendHeader ⟨ret, .none⟩ := by
  simp only [answer, replied, encodeReturn_eq, marshalled, List.append_nil]

theorem answer_directory (ret : BitVec 32) (fd : Int) :
    answer sendBuffer sendHeader ret (encodeReplyDirectory · · (BitVec.ofInt 32 fd)) =
      replied sendBuffer sendHeader ⟨ret, .handle fd⟩ := by
  simp only [answer, replied, encodeReplyDirectory_eq, marshalled]

theorem answer_howsdoing (ret : BitVec 32) (st : HmstrState) :
    answer sendBuffer sendHeader ret (encodeReplyHowsDoing · · st) =
      replied sendBuffer sendHeader ⟨ret, .state st⟩ := by
  simp only [answer, replied, encodeReplyHowsDoing_eq, marshalled]

theorem answer_readentry (ret : BitVec 32) {owner name : List Byte} (ho : 32 ≤ owner.length)
    (hn : 32 ≤ name.length) (price : BitVec 16) :
    answer sendBuffer sendHeader ret (encodeReplyReadEntry · · owner name price) =
      replied sendBuffer sendHeader ⟨ret, .entry owner name price⟩ := by
  simp only [answer, replied, encodeReplyReadEntry_eq _ _ _ ho hn, marshalled]

theorem handleHowsDoing_eq : handleHowsDoing w payloadStream sendBuffer sendHeader junk =
    ((Call.howsdoing (rpcDecodeInt32 payloadStream 0)).exec w).map fun (r, w') =>
      (r.ret, replied sendBuffer sendHeader r, w') := by
  have hexec : (Call.howsdoing (rpcDecodeInt32 payloadStream 0)).exec w =
      (hmstrHowsdoing w (rpcDecodeInt32 payloadStream 0) blankState).map fun (ret, st, w) =>
        (⟨ret, .state st⟩, w) := rfl
  simp only [handleHowsDoing, executeHowsDoing, hexec, answer_howsdoing, Option.map_map,
    Function.comp_def]
  rcases howsdoing_state w (rpcDecodeInt32 payloadStream 0) with ⟨w', h⟩ | ⟨x, h⟩
  · simp only [h, Option.map_some, replied_notFound]
  · rw [h, h]

theorem handleReadEntry_eq : handleReadEntry w payloadStream sendBuffer sendHeader junk =
    ((Call.readentry (rpcDecodeInt32 payloadStream 0)).exec w).map fun (r, w') =>
      (r.ret, replied sendBuffer sendHeader r, w') := by
  have hexec : (Call.readentry (rpcDecodeInt32 payloadStream 0)).exec w =
      (hmstrReadentry w (rpcDecodeInt32 payloadStream 0) blankName blankName 0).map
        fun (ret, o, n, p, w) => (⟨ret, .entry o n p⟩, w) := rfl
  have hzero : List.replicate 32 (0 : Byte) = blankName := rfl
  simp only [handleReadEntry, executeReadEntry, hexec, hzero, Option.map_map, Function.comp_def]
  rcases readentry_price w (rpcDecodeInt32 payloadStream 0) blankName blankName
    with ⟨w', h⟩ | ⟨x, h⟩
  · have hneg : ¬ 0 ≤ hmstrErrNotFound.toInt := by decide
    simp only [h, Option.map_some, replied_notFound, answer, hneg, ↓reduceIte]
  · rw [h, h]
    cases x with
    | none => rfl
    | some x =>
      obtain ⟨ret, o, n, p, w'⟩ := x
      obtain ⟨ho, hn⟩ := readentry_lengths w (h 0)
      simp only [Option.map_some]
      rw [answer_readentry _ _ _ ho hn]

/-- The server does what a direct library call does, and puts the marshalled
result behind the prepared header. -/
theorem handlePayload_eq (receiveHeader : Header) :
    handlePayload w payloadStream sendBuffer sendHeader junk receiveHeader =
      match requestedCall receiveHeader.rpcID payloadStream junk with
      | none => some (0, sendBuffer, w)
      | some c => (c.exec w).map fun (r, w') => (r.ret, replied sendBuffer sendHeader r, w') := by
  unfold handlePayload requestedCall
  split
  · exact congrArg (fun b => some (_, b, _)) (answer_return ..)
  · exact congrArg (fun b => some (_, b, _)) (answer_return ..)
  · exact congrArg (fun b => some (_, b, _)) (answer_directory ..)
  · exact handleHowsDoing_eq ..
  · exact handleReadEntry_eq ..
  · exact congrArg (fun b => some (_, b, _)) (answer_return ..)
  · have hans : ∀ ret, answer sendBuffer sendHeader ret encodeReplyCollect =
        replied sendBuffer sendHeader ⟨ret, .none⟩ := answer_return sendBuffer sendHeader
    simp only [handleCollect, executeCollect, exec_collect, hans, Option.map_map,
      Function.comp_def]
  · rfl

end Requested

end Hamster.Server.Handlers
