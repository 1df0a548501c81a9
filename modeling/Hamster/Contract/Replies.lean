import Hamster.Asylum.Refinement
import Hamster.Server.Loop
import Hamster.Server.Protocol

/-!
# Replies and their headers

A reply's length and flags are decided before the call is made and changed when it
fails. They are those of the protocol only when the call succeeds and is not
`hmstr_howsdoing`: error messages lack the response bit, and the state is
announced four bytes longer than it is.
-/
namespace Hamster.Contract.Replies

open Lib.Bytes Lib.Clock Lib.Memory Lib.Posix Lib.Runs Store Store.Entry Store.Library
  Store.Outcomes Asylum Server.Messages Server.Handlers Server.Protocol Server.Loop

/-- The marshalled size of a call's result and its out arguments. -/
def documentedReplySize : Call Int → Nat
  | .directory .. => 4 + 4
  | .howsdoing _ => 4 + (2 + 4 + 2)
  | .readentry _ => 4 + (32 + 32 + 2)
  | _ => 4

/-- Bit 1 of the flags -/
def isResponse (h : Header) : Bool := h.flag.getLsbD 0

/-- Bit 2 of the flags -/
def isError (h : Header) : Bool := h.flag.getLsbD 1

/-- The bytes are a reply to the request as documented, given the result. -/
def IsReply (q : Request) (r : Reply) (sent : List Byte) : Prop :=
  ∃ h payload, sent = headerBytes h ++ payload ∧ h.version = q.header.version ∧
    h.msgID = q.header.msgID ∧ h.rpcID = q.header.rpcID ∧ isResponse h = true ∧
    (isError h = true ↔ r.ret.toInt < 0) ∧ h.paySize.toNat = payload.length ∧
    payload.length = if r.ret.toInt < 0 then 4 else documentedReplySize q.call

/-- What `main` has once header and payload are read. -/
def arrived (w : World) (headerStream payloadStream : Mem) (stale : Header) : Received where
  world := w
  headerStream := headerStream
  receiveHeader := (handleHeader headerStream stale).1
  sendHeader := (handleHeader headerStream stale).2
  payloadStream := payloadStream

/-- Whatever is sent in answer to the request is a documented reply with the
library's result. -/
def Conforms (q : Request) (m : Received) (junk : Scratch) : Prop :=
  ∀ sent h w', m.respond junk = some (sent, h, w') →
    ∃ r, q.call.exec m.world = some (r, w') ∧ IsReply q r sent

section Lengths
variable {w w' : World} {r : Reply}

/-- What is marshalled has the documented size. -/
theorem length_marshalled {c : Call Int} (h : c.exec w = some (r, w')) :
    (marshalled r).length = documentedReplySize c := by
  cases c with
  | new o n t | lookup o n | directory p o n | givetreats id t =>
    cases h
    simp [marshalled, documentedReplySize]
  | howsdoing id =>
    obtain ⟨x, -, hx⟩ := Option.map_eq_some_iff.mp h
    cases hx
    simp [marshalled, documentedReplySize]
  | collect o =>
    obtain ⟨x, -, hx⟩ := Option.map_eq_some_iff.mp h
    cases hx
    simp [marshalled, documentedReplySize]
  | readentry id =>
    obtain ⟨⟨ret, o, n, p, v⟩, he, hx⟩ := Option.map_eq_some_iff.mp h
    cases hx
    obtain ⟨ho, hn⟩ := readentry_lengths w he
    have hto : min 32 o.length = 32 := Nat.min_eq_left ho
    have htn : min 32 n.length = 32 := Nat.min_eq_left hn
    simp [marshalled, documentedReplySize, hto, htn]

/-- The prepared length is the documented one for all calls but one. -/
theorem replyPaySize_eq {id : BitVec 16} (hid : 1 ≤ id.toNat ∧ id.toNat ≤ 7)
    (payload : List Byte) (stale : BitVec 16) : (replyPaySize id stale).toNat =
      documentedReplySize (documentedCall payload id) + if id.toNat = 4 then 4 else 0 := by
  unfold replyPaySize documentedCall
  rcases cases_known hid with h | h | h | h | h | h | h
  all_goals simp only [h]; rfl

end Lengths

section Sent
variable {q : Request} {r : Reply}

/-- A message that lacks the response bit is no reply. -/
theorem response_of_isReply {h : Header} {payload : List Byte}
    (hr : IsReply q r (headerBytes h ++ payload)) : isResponse h = true := by
  obtain ⟨h', payload', he, -, -, -, hresponse, -⟩ := hr
  simp only [headerBytes, List.append_assoc, List.singleton_append] at he
  have hflag : h.flag = h'.flag := (List.cons.inj (List.cons.inj he).2).1
  rw [isResponse, hflag]
  exact hresponse

theorem length_of_isReply {sent : List Byte} (hr : IsReply q r sent) (hpos : 0 ≤ r.ret.toInt) :
    sent.length = 8 + documentedReplySize q.call := by
  obtain ⟨h, payload, rfl, -, -, -, -, -, -, hlen⟩ := hr
  rw [if_neg (Int.not_lt.mpr hpos)] at hlen
  rw [List.length_append, length_headerBytes, hlen]

variable {w w' v : World} {headerStream payloadStream : Mem} {stale : Header} {junk : Scratch}

theorem sendHeader_arrived (hh : peek headerStream 0 8 = headerBytes q.header) :
    (arrived v headerStream payloadStream stale).sendHeader =
      { flag := 1
        msgID := q.header.msgID
        rpcID := q.header.rpcID
        version := q.header.version
        paySize := replyPaySize q.header.rpcID stale.paySize } := by
  simp only [arrived, handleHeader, decodeHeader_of_bytes hh]

theorem call_arrived (hh : peek headerStream 0 8 = headerBytes q.header)
    (hp : peek payloadStream 0 q.payload.length = q.payload) (junk : Scratch) :
    (arrived w headerStream payloadStream stale).call junk = some q.call := by
  have hcall := requestedCall_eq q hp junk
  rwa [← decodeHeader_of_bytes hh] at hcall

/-- What the server sends for a result is a reply if the result is none of
`hmstr_howsdoing` and no error. -/
theorem isReply_reaction_iff (hh : peek headerStream 0 8 = headerBytes q.header)
    (hex : q.call.exec w = some (r, w')) :
    IsReply q r (reaction (arrived v headerStream payloadStream stale) junk r).1 ↔
      q.header.rpcID.toNat ≠ 4 ∧ 0 ≤ r.ret.toInt := by
  have hheader : (arrived v headerStream payloadStream stale).sendHeader = _ :=
    sendHeader_arrived hh
  have hpay : (replyPaySize q.header.rpcID stale.paySize).toNat = documentedReplySize q.call + _ :=
    replyPaySize_eq q.known q.payload stale.paySize
  rw [reaction, hheader]
  rcases Int.lt_or_le r.ret.toInt 0 with hneg | hpos
  · rw [if_pos hneg]
    refine iff_of_false (fun hr => ?_) fun h => Int.not_lt.mpr h.2 hneg
    have hresponse : (2 : Byte).getLsbD 0 = true := response_of_isReply hr
    exact absurd hresponse (by decide)
  · rw [if_neg (Int.not_lt.mpr hpos), and_iff_left hpos]
    dsimp only
    rw [hpay]
    constructor
    · intro hr h4
      have hlen := length_of_isReply hr hpos
      rw [length_peek, if_pos h4] at hlen
      omega
    · intro h4
      have hsize : documentedReplySize q.call + 0 + 8 = (headerBytes ⟨q.header.version, 1,
          q.header.msgID, replyPaySize q.header.rpcID stale.paySize, q.header.rpcID⟩ ++
            marshalled r).length := by
        rw [List.length_append, length_headerBytes, length_marshalled hex]
        omega
      rw [if_neg h4, hsize, peek_poke]
      have hresponse : (1 : Byte).getLsbD 0 = true := by decide
      have herror : ¬ (1 : Byte).getLsbD 1 = true := by decide
      refine ⟨_, marshalled r, rfl, rfl, rfl, rfl, hresponse, ?_, ?_, ?_⟩
      · exact iff_of_false herror (Int.not_lt.mpr hpos)
      · rw [length_marshalled hex]
        exact hpay.trans (by rw [if_neg h4, Nat.add_zero])
      · rw [if_neg (Int.not_lt.mpr hpos), length_marshalled hex]

/-- One request, one result, one reply to judge. -/
theorem conforms_iff (hh : peek headerStream 0 8 = headerBytes q.header)
    (hp : peek payloadStream 0 q.payload.length = q.payload)
    (hex : q.call.exec w = some (r, w')) :
    Conforms q (arrived w headerStream payloadStream stale) junk ↔
      IsReply q r (reaction (arrived w headerStream payloadStream stale) junk r).1 := by
  have hcall : (arrived w headerStream payloadStream stale).call junk = some q.call :=
    call_arrived hh hp junk
  have hresp : (arrived w headerStream payloadStream stale).respond junk = some
      ((reaction (arrived w headerStream payloadStream stale) junk r).1,
        (reaction (arrived w headerStream payloadStream stale) junk r).2, w') := by
    rw [respond_eq, hcall]
    exact congrArg (Option.map _) hex
  constructor
  · intro hc
    obtain ⟨r', hr', hreply⟩ := hc _ _ _ hresp
    cases hex.symm.trans hr'
    exact hreply
  · intro hreply sent h v hsent
    cases hresp.symm.trans hsent
    exact ⟨r, hex, hreply⟩

end Sent

/-- The server answers as the protocol demands, or not at all, exactly if the call
aborts, or succeeds and is not `hmstr_howsdoing`. -/
theorem reply_conforms_iff {s t : Session} {tr : List (Event Session Store.Input Reply)}
    (hs : s.Fresh) (hr : Runs s tr t) (now : Timestamp) (q : Request)
    {headerStream payloadStream : Mem} (hh : peek headerStream 0 8 = headerBytes q.header)
    (hp : peek payloadStream 0 q.payload.length = q.payload) (stale : Header) (junk : Scratch) :
    Conforms q (arrived (t.clockAt now) headerStream payloadStream stale) junk ↔
      Aborts (t.clockAt now) q.call ∨
        q.header.rpcID.toNat ≠ 4 ∧ Succeeds (t.clockAt now) q.call := by
  obtain ⟨_, a, -, ha, -⟩ := reachable_represents hs hr
  have hw : Settled (t.clockAt now) := settled_of_represents (ha.clockAt now)
  rw [← exec_eq_none_iff hw]
  cases hex : q.call.exec (t.clockAt now) with
  | none =>
    refine iff_of_true (fun sent h w' hsent => ?_) (.inl rfl)
    rw [respond_eq, call_arrived hh hp] at hsent
    have hnone : (arrived (t.clockAt now) headerStream payloadStream stale).world =
        t.clockAt now := rfl
    rw [hnone] at hsent
    simp only [hex, Option.map_none] at hsent
    cases hsent
  | some x =>
    obtain ⟨r, w'⟩ := x
    rw [conforms_iff hh hp hex, isReply_reaction_iff hh hex, ← exec_nonneg_iff hw hex]
    exact (or_iff_right (Option.some_ne_none _)).symm

/-- "c" brings "d" with three treats. -/
def welcome : Request where
  header := ⟨182, 0, 7, 66, 1⟩
  payload := 99 :: List.replicate 31 0 ++ 100 :: List.replicate 31 0 ++ [0, 3]
  known := by decide
  size := by decide
  paySize := by decide
  terminated := by decide

/-- Someone asks for the entry of hamster 9. -/
def inquiry : Request where
  header := ⟨182, 0, 8, 4, 5⟩
  payload := [0, 0, 0, 9]
  known := by decide
  size := by decide
  paySize := by decide
  terminated := by decide

/-- The request as it arrives over zeroed buffers at an empty asylum. -/
def asFirst (q : Request) : Received :=
  arrived (Session.initial.clockAt .epoch)
    (poke (fun _ => 0) 0 (headerBytes q.header)) (poke (fun _ => 0) 0 q.payload) q.header

def zeroed : Scratch := ⟨fun _ => 0, fun _ => 0, fun _ => 0, [], [], blankState, 0⟩

theorem welcome_conforms : Conforms welcome (asFirst welcome) zeroed :=
  (reply_conforms_iff Session.fresh_initial (.nil _) _ welcome (peek_poke_header _ _)
    (peek_poke _) _ _).mpr (.inr ⟨by decide, by decide, rfl⟩)

/-- The error message for an unknown id is not marked as a response. -/
theorem error_unmarked : ¬ Conforms inquiry (asFirst inquiry) zeroed := by
  have hex : inquiry.call.exec (asFirst inquiry).world =
      some (⟨hmstrErrNotFound, .entry blankName blankName 0⟩, (asFirst inquiry).world) := by
    have hcall : inquiry.call = .readentry 9 := by decide
    have hnone := Scans.readentry_absent (w := (asFirst inquiry).world)
      Session.fresh_initial.reliable Session.fresh_initial.datafile 9 blankName blankName 0
    rw [hcall, exec_readentry, hnone]
    rfl
  intro hc
  have hreply := (conforms_iff (peek_poke_header _ _) (peek_poke _) hex).mp hc
  have hpos := ((isReply_reaction_iff (peek_poke_header _ _) hex).mp hreply).2
  exact absurd hpos (by decide)

end Hamster.Contract.Replies
