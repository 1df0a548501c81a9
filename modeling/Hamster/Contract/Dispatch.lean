import Hamster.Asylum.Refinement
import Hamster.Server.Protocol

/-!
# A request is a library call

The server answers a well-formed request with what the library does when it is
called directly on the documented arguments: the same world, the same result, and
its out values at the documented offsets of the reply.
-/
namespace Hamster.Contract.Dispatch

open Lib.Bytes Lib.Clock Lib.Memory Lib.Posix Lib.Runs Store Store.Entry Store.Library Asylum
  Server.Messages Server.Handlers Server.Protocol

/-- A name of at most 31 characters, padded with zeros to 32 bytes. -/
def PaddedName (bs : List Byte) : Prop := ∃ s : CString, s.strlen ≤ 31 ∧ bs = s.pad 32

/-- The result and the out values, big-endian at their offsets. -/
def Carries (buffer : Mem) (r : Reply) : Prop :=
  peek buffer 8 4 = beBytes 4 r.ret.toNat ∧
    match r.out with
    | .none => True
    | .handle fdptr => peek buffer 12 4 = beBytes 4 (BitVec.ofInt 32 fdptr).toNat
    | .state st => peek buffer 12 2 = beBytes 2 st.treatsLeft.toNat ∧
        peek buffer 14 4 = beBytes 4 st.rounds.toNat ∧ peek buffer 18 2 = beBytes 2 st.cost.toNat
    | .entry owner name price => PaddedName owner ∧ PaddedName name ∧
        peek buffer 12 32 = owner ∧ peek buffer 44 32 = name ∧
        peek buffer 76 2 = beBytes 2 price.toNat

/-- The server did what the direct call does. -/
def Refines (sendBuffer : Mem) (direct : Option (Reply × World))
    (handled : Option (BitVec 32 × Mem × World)) : Prop :=
  match direct with
  | none => handled = none
  | some (r, w) => ∃ buffer, handled = some (r.ret, buffer, w) ∧
      if r.ret.toInt < 0 then buffer = sendBuffer else Carries buffer r

theorem paddedName_blank : PaddedName blankName := ⟨⟨[], List.not_mem_nil⟩, by decide, rfl⟩

theorem paddedName_pad (s : Name) : PaddedName (s.text.pad 32) := ⟨s.text, s.short, rfl⟩

theorem PaddedName.length {bs : List Byte} (h : PaddedName bs) : bs.length = 32 := by
  obtain ⟨s, hs, rfl⟩ := h
  exact CString.length_pad (by omega)

/-- The names `hmstr_readentry` hands out of a reachable store fit their fields. -/
theorem entry_padded {w w' : World} {p : Nat → Int} {a : State} (h : Represents ⟨w, p⟩ a)
    {c : Call Int} {r : Reply} (hc : c.exec w = some (r, w')) {owner name : List Byte}
    {price : BitVec 16} (hr : r.out = .entry owner name price) :
    PaddedName owner ∧ PaddedName name := by
  have hout {x : Reply} (hx : r = x) (hne : ∀ o n q, x.out ≠ .entry o n q) :
      PaddedName owner ∧ PaddedName name := absurd (hx ▸ hr) (hne owner name price)
  have hfst {x : Reply × World} (hx : some x = some (r, w')) : r = x.1 :=
    (congrArg Prod.fst (Option.some.inj hx)).symm
  cases c with
  | new o n t => exact hout (hfst hc) fun _ _ _ => nofun
  | lookup o n => exact hout (hfst hc) fun _ _ _ => nofun
  | directory q o n => exact hout (hfst hc) fun _ _ _ => nofun
  | givetreats id t => exact hout (hfst hc) fun _ _ _ => nofun
  | howsdoing id =>
    obtain ⟨_, -, hx⟩ := Option.map_eq_some_iff.mp hc
    exact hout (congrArg Prod.fst hx).symm fun _ _ _ => nofun
  | collect o =>
    obtain ⟨_, -, hx⟩ := Option.map_eq_some_iff.mp hc
    exact hout (congrArg Prod.fst hx).symm fun _ _ _ => nofun
  | readentry id =>
    have hag := readentry_agree h id
    rw [hc] at hag
    obtain ⟨b, hb, -⟩ := hag.of_some
    obtain ⟨x, hx, he⟩ := Option.map_eq_some_iff.mp hb
    have hxr : x = r := congrArg Prod.fst he
    subst hxr
    unfold State.readentry at hx
    split at hx
    · rw [← Option.some.inj hx] at hr
      cases hr
      exact ⟨paddedName_blank, paddedName_blank⟩
    · obtain ⟨_, -, rfl⟩ := Option.map_eq_some_iff.mp hx
      cases hr
      exact ⟨paddedName_pad _, paddedName_pad _⟩

/-- The payload of a reply is the marshalled result. -/
theorem peek_replied (sendBuffer : Mem) (sendHeader : Header) {r : Reply} (hr : 0 ≤ r.ret.toInt)
    {off n : Nat} (h : off + n ≤ (marshalled r).length) :
    peek (replied sendBuffer sendHeader r) (8 + off) n = ((marshalled r).drop off).take n := by
  have hlen : (headerBytes sendHeader ++ marshalled r).length = 8 + (marshalled r).length := by
    rw [List.length_append, length_headerBytes]
  have hdrop : (headerBytes sendHeader ++ marshalled r).drop (8 + off) = (marshalled r).drop off := by
    rw [← length_headerBytes sendHeader, List.drop_length_add_append]
  rw [replied, if_pos hr, peek_poke_inside sendBuffer (Nat.zero_le _) (by omega), Nat.sub_zero, hdrop]

theorem carries_replied (sendBuffer : Mem) (sendHeader : Header) {r : Reply}
    (hr : 0 ≤ r.ret.toInt)
    (hnames : ∀ o n q, r.out = .entry o n q → PaddedName o ∧ PaddedName n) :
    Carries (replied sendBuffer sendHeader r) r := by
  have hfield (off n : Nat) (h : off + n ≤ (marshalled r).length) :=
    peek_replied sendBuffer sendHeader hr h
  obtain ⟨ret, out⟩ := r
  refine ⟨(hfield 0 4 (by simp [marshalled])).trans (by simp [marshalled]), ?_⟩
  cases out with
  | none => trivial
  | handle fdptr => exact (hfield 4 4 (by simp [marshalled])).trans (by simp [marshalled])
  | state st =>
    have htreats := hfield 4 2 (by simp [marshalled])
    have hrounds := hfield 6 4 (by simp [marshalled])
    have hcost := hfield 10 2 (by simp [marshalled])
    refine ⟨htreats.trans ?_, hrounds.trans ?_, hcost.trans ?_⟩
    all_goals simp [marshalled, List.drop_append, List.drop_eq_nil_of_le]
  | entry owner name price =>
    obtain ⟨ho, hn⟩ := hnames owner name price rfl
    have hto : owner.take 32 = owner := List.take_of_length_le ho.length.le
    have htn : name.take 32 = name := List.take_of_length_le hn.length.le
    have howner := hfield 4 32 (by simp [marshalled, ho.length, hn.length])
    have hname := hfield 36 32 (by simp [marshalled, ho.length, hn.length])
    have hprice := hfield 68 2 (by simp [marshalled, ho.length, hn.length])
    refine ⟨ho, hn, howner.trans ?_, hname.trans ?_, hprice.trans ?_⟩
    all_goals simp [marshalled, hto, htn, ho.length, hn.length, List.drop_append,
      List.drop_eq_nil_of_le]

/-- Whatever the buffers held before, whatever the clock shows. -/
theorem server_refines_library {s t : Session} {tr : List (Event Session Input Reply)}
    (hs : s.Fresh) (hr : Runs s tr t) (now : Timestamp) (q : Request)
    {headerStream payloadStream : Mem} (hh : peek headerStream 0 8 = headerBytes q.header)
    (hp : peek payloadStream 0 q.payload.length = q.payload) (stale : Header) (sendBuffer : Mem)
    (junk : Scratch) :
    Refines sendBuffer (q.call.exec (t.clockAt now))
      (handlePayload (t.clockAt now) payloadStream sendBuffer (handleHeader headerStream stale).2
        junk (handleHeader headerStream stale).1) := by
  obtain ⟨_, a, -, ha, -⟩ := reachable_represents hs hr
  have hcall := requestedCall_eq q hp junk
  rw [← decodeHeader_of_bytes hh] at hcall
  have heq := handlePayload_eq (t.clockAt now) payloadStream sendBuffer
    (handleHeader headerStream stale).2 junk (handleHeader headerStream stale).1
  rw [show (handleHeader headerStream stale).1 = decodeHeader headerStream from rfl] at heq ⊢
  rw [hcall] at heq
  rw [heq]
  dsimp only
  cases hex : q.call.exec (t.clockAt now) with
  | none => rfl
  | some x =>
    obtain ⟨r, w⟩ := x
    refine ⟨_, rfl, ?_⟩
    split
    · rename_i hneg
      exact replied_of_neg _ _ hneg
    · rename_i hpos
      exact carries_replied _ _ (Int.not_lt.mp hpos) fun o n p ho =>
        entry_padded (ha.clockAt now) hex ho

/-- "c" brings "d" with three treats. -/
def admission : Request where
  header := ⟨0, 0, 7, 66, 1⟩
  payload := 99 :: List.replicate 31 0 ++ 100 :: List.replicate 31 0 ++ [0, 3]
  known := by decide
  size := by decide
  paySize := by decide
  terminated := by decide

theorem admission_refines : Refines (fun _ => 0)
    (admission.call.exec (Session.initial.clockAt .epoch))
    (handlePayload (Session.initial.clockAt .epoch)
      (poke (fun _ => 0) 0 admission.payload) (fun _ => 0)
      (handleHeader (poke (fun _ => 0) 0 (headerBytes admission.header)) admission.header).2
      ⟨fun _ => 0, fun _ => 0, fun _ => 0, [], [], blankState, 0⟩
      (handleHeader (poke (fun _ => 0) 0 (headerBytes admission.header)) admission.header).1) :=
  server_refines_library Session.fresh_initial (.nil _) _ admission
    (peek_poke_header _ _) (peek_poke _) _ _ _

end Hamster.Contract.Dispatch
