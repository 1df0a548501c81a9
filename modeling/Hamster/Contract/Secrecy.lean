import Hamster.Contract.Replies

/-!
# What a reply gives away

Two servers that stand before the same complete request in the same world, one with
other leftovers in its buffers than the other, answer it alike unless the call is
unknown, unless the request is too short to settle the library's answer, and unless
`hmstr_howsdoing` succeeds: then four bytes go out that nothing was written to.
-/
namespace Hamster.Contract.Secrecy

open Lib.Bytes Lib.Clock Lib.Memory Lib.Posix Store Store.Entry Store.Library Server.Wire
  Server.Messages Server.Handlers Server.Protocol Server.Loop Replies

/-- The bytes a step sends. -/
def bytesSent : Output → List Byte
  | .served _ sent => sent
  | .accepted _ | .closed => []

section Claim
variable (s : Process) (newSocket : Option Nat) (now : Timestamp)

/-- The reply of the coming turn; none if it aborts. -/
def reply (junk : Scratch) : Option (List Byte) :=
  (s.turn newSocket now junk).map fun x => bytesSent x.1

/-- The world once the request has been read, in which the call is made. -/
def calledIn (q : Packet) : World :=
  (readSocket (s.readHeader newSocket now).2 newSocket q.header.paySize.toNat).2

/-- The coming turn reads the whole request. -/
structure Pending (q : Packet) : Prop where
  header : (s.readHeader newSocket now).1 = some (headerBytes q.header)
  payload : (readSocket (s.readHeader newSocket now).2 newSocket q.header.paySize.toNat).1 =
    some q.payload

end Claim

/-- The same reply, whatever the stacks held. -/
def Alike (s₁ s₂ : Process) (newSocket : Option Nat) (now : Timestamp) : Prop :=
  ∀ junk₁ junk₂, reply s₁ newSocket now junk₁ = reply s₂ newSocket now junk₂

/-- A payload of the documented size that agrees with the bytes sent. -/
def Fills (q : Packet) (p : List Byte) : Prop :=
  p.length = documentedSize q.header.rpcID ∧ p.take q.payload.length = q.payload.take p.length

/-- The result, and the out arguments unless it is an error. -/
def report (r : Reply) : List Byte :=
  if r.ret.toInt < 0 then beBytes 4 r.ret.toNat else marshalled r

/-- What a direct call of the library reports; none if it aborts. -/
def reported (w : World) (c : Call Int) : Option (List Byte) := (c.exec w).map fun x => report x.1

/-- The call is one of the seven, all payloads the request can be completed to get one
answer from the library, and `hmstr_howsdoing` gives an error. -/
structure Clear (w : World) (q : Packet) : Prop where
  known : 1 ≤ q.header.rpcID.toNat ∧ q.header.rpcID.toNat ≤ 7
  settled : ∀ p p', Fills q p → Fills q p' →
    reported w (documentedCall p q.header.rpcID) = reported w (documentedCall p' q.header.rpcID)
  howsdoing : q.header.rpcID.toNat = 4 → ∀ p, Fills q p → ∀ r w',
    (documentedCall p q.header.rpcID).exec w = some (r, w') → r.ret.toInt < 0

/-- A payload of the documented size or more can be completed in one way only. -/
theorem Fills.eq_take {q : Packet} {p : List Byte} (h : Fills q p)
    (hq : documentedSize q.header.rpcID ≤ q.payload.length) :
    p = q.payload.take (documentedSize q.header.rpcID) := by
  obtain ⟨hlen, htake⟩ := h
  rwa [List.take_of_length_le (by omega), hlen] at htake

section Buffer
variable (m : Mem) (bs : List Byte)

theorem take_peek_poke (n : Nat) : (peek (poke m 0 bs) 0 n).take bs.length = bs.take n := by
  rcases Nat.le_total n bs.length with h | h
  · rw [peek_poke_inside m (Nat.le_refl 0) (by omega), Nat.sub_zero, List.drop_zero,
      List.take_take, Nat.min_eq_right h]
  · obtain ⟨k, rfl⟩ := Nat.exists_eq_add_of_le h
    rw [peek_add, Nat.zero_add, peek_poke, List.take_left, List.take_of_length_le (by omega)]

/-- Bytes that agree with those put over them are still there. -/
theorem peek_poke_poke {p : List Byte} (h : p.take bs.length = bs.take p.length) :
    peek (poke (poke m 0 p) 0 bs) 0 p.length = p := by
  apply List.ext_getElem (length_peek ..)
  intro i _ hi
  have hunder : poke m 0 p i = p[i] := by
    simp only [poke, Nat.zero_le, ↓reduceIte, Nat.sub_zero, List.getElem?_eq_getElem hi,
      Option.getD_some]
  simp only [peek, List.getElem_map, List.getElem_range, Nat.zero_add]
  by_cases hb : i < bs.length
  · have hat := congrArg (fun l => l[i]?) h
    simp only [List.getElem?_take, hb, hi, ↓reduceIte, List.getElem?_eq_getElem] at hat
    simp only [poke, Nat.zero_le, ↓reduceIte, Nat.sub_zero, List.getElem?_eq_getElem hb,
      Option.getD_some]
    exact (Option.some.inj hat).symm
  · rw [poke_of_le _ (by omega), hunder]

end Buffer

section Replies
variable {s : Process} {newSocket : Option Nat} {now : Timestamp} {q : Packet} {w : World}

/-- The header of the reply to a known call; nothing of it is left over. -/
def replyHeader (h : Header) : Header :=
  { h with flag := 1, paySize := replyPaySize h.rpcID 0 }

theorem replyPaySize_known {id : BitVec 16} (hid : 1 ≤ id.toNat ∧ id.toNat ≤ 7)
    (stale : BitVec 16) : replyPaySize id stale = replyPaySize id 0 := by
  unfold replyPaySize
  rcases cases_known hid with h | h | h | h | h | h | h
  all_goals simp only [h]

/-- What is sent for a result. -/
def replyTo (h : Header) (replyBuffer : Mem) (r : Reply) : List Byte :=
  if r.ret.toInt < 0 then errorMessage (replyHeader h) r.ret
  else peek (poke replyBuffer 0 (headerBytes (replyHeader h) ++ marshalled r)) 0
    ((replyHeader h).paySize.toNat + 8)

theorem receive_pending (hq : Pending s newSocket now q) (junk : Scratch) :
    ∃ m, s.receive newSocket now junk = some m ∧ m.world = calledIn s newSocket now q ∧
      m.receiveHeader = q.header ∧ m.payloadStream = poke junk.payloadStream 0 q.payload ∧
      ∃ stale, m.sendHeader = { q.header with
        flag := 1, paySize := replyPaySize q.header.rpcID stale } := by
  cases hr : s.readHeader newSocket now with
  | mk got w =>
    obtain ⟨hh, hp⟩ := hq
    rw [hr] at hh hp
    obtain rfl : got = some (headerBytes q.header) := hh
    have hdec : decodeHeader (poke s.headerStream 0 (headerBytes q.header)) = q.header :=
      decodeHeader_of_bytes (peek_poke_header _ _)
    have hrec : s.receive newSocket now junk = some
        ⟨(readSocket w newSocket q.header.paySize.toNat).2,
          poke s.headerStream 0 (headerBytes q.header), q.header,
          { q.header with flag := 1, paySize := replyPaySize q.header.rpcID s.sendHeader.paySize },
          poke junk.payloadStream 0 q.payload⟩ := by
      unfold Process.receive
      rw [hr]
      simp only [handleHeader, headerBytes, List.cons_append, Option.getD_some]
      simp only [headerBytes, List.cons_append] at hdec
      rw [hdec]
      cases hw : readSocket w newSocket q.header.paySize.toNat with
      | mk got w' =>
        rw [hw] at hp
        obtain rfl : got = some q.payload := hp
        rfl
    exact ⟨_, hrec, by rw [calledIn, hr], rfl, rfl, s.sendHeader.paySize, rfl⟩

/-- The reply to a known call comes from the call on what the request is completed to. -/
theorem reply_known (hq : Pending s newSocket now q)
    (hid : 1 ≤ q.header.rpcID.toNat ∧ q.header.rpcID.toNat ≤ 7) (junk : Scratch) :
    reply s newSocket now junk =
      ((documentedCall (peek (poke junk.payloadStream 0 q.payload) 0
        (documentedSize q.header.rpcID)) q.header.rpcID).exec (calledIn s newSocket now q)).map
          fun x => replyTo q.header junk.replyBuffer x.1 := by
  obtain ⟨m, hm, hworld, hheader, hpayload, stale, hsend⟩ := receive_pending hq junk
  obtain ⟨c, hc, hexec⟩ := requestedCall_exec (poke junk.payloadStream 0 q.payload) junk
    (calledIn s newSocket now q) hid
  rw [replyPaySize_known hid] at hsend
  have hcall : m.call junk = some c := by rw [Received.call, hheader, hpayload, hc]
  simp only [reply, Process.turn, hm, respond_eq, hcall, ← hexec, hworld, Option.map_map]
  cases c.exec (calledIn s newSocket now q) with
  | none => rfl
  | some x =>
    have hreaction : (reaction m junk x.1).1 = replyTo q.header junk.replyBuffer x.1 := by
      simp only [reaction, replyTo, replyHeader, hsend]
      split <;> rfl
    exact congrArg some hreaction

/-- An unknown call is answered with what the buffer held. -/
theorem reply_unknown (hq : Pending s newSocket now q)
    (hid : ¬ (1 ≤ q.header.rpcID.toNat ∧ q.header.rpcID.toNat ≤ 7)) (junk : Scratch) :
    ∃ n, reply s newSocket now junk = some (peek junk.replyBuffer 0 (n + 8)) := by
  obtain ⟨m, hm, -, hheader, -, -⟩ := receive_pending hq junk
  have hcall : m.call junk = none := by
    rw [Received.call, hheader, requestedCall]
    split
    all_goals first
      | rfl
      | exact absurd (by omega) hid
  refine ⟨m.sendHeader.paySize.toNat, ?_⟩
  simp only [reply, Process.turn, hm, respond_eq, hcall]
  rfl

end Replies

section Reports
variable {h : Header} {replyBuffer : Mem} {r r' : Reply} {w w' : World} {p : List Byte}

/-- The header a result goes out under. -/
def heading (h : Header) (ret : BitVec 32) : Header :=
  if ret.toInt < 0 then { replyHeader h with flag := 2, paySize := 4 } else replyHeader h

theorem replyTo_eq (hid : 1 ≤ h.rpcID.toNat ∧ h.rpcID.toNat ≤ 7)
    (hex : (documentedCall p h.rpcID).exec w = some (r, w'))
    (h4 : h.rpcID.toNat = 4 → r.ret.toInt < 0) :
    replyTo h replyBuffer r = headerBytes (heading h r.ret) ++ report r := by
  by_cases hneg : r.ret.toInt < 0
  · simp only [replyTo, heading, report, hneg, ↓reduceIte, errorMessage]
  · have hpay : (replyHeader h).paySize.toNat = _ := replyPaySize_eq hid p 0
    rw [if_neg fun he => hneg (h4 he), Nat.add_zero, ← length_marshalled hex] at hpay
    have hlen : (replyHeader h).paySize.toNat + 8 =
        (headerBytes (replyHeader h) ++ marshalled r).length := by
      rw [List.length_append, length_headerBytes]
      omega
    simp only [replyTo, heading, report, hneg, ↓reduceIte]
    rw [hlen, peek_poke]

theorem ret_of_report (hr : report r = report r') : r.ret = r'.ret := by
  have htake (x : Reply) : (report x).take 4 = beBytes 4 x.ret.toNat := by
    unfold report
    split
    · exact List.take_of_length_le (by rw [length_beBytes])
    · exact List.take_left' (length_beBytes ..)
  have hbytes : beBytes 4 r.ret.toNat = beBytes 4 r'.ret.toNat := by
    rw [← htake r, ← htake r', hr]
  have hle := List.reverse_injective hbytes
  rw [← ofNat_leNat_leBytes (k := 4) (by norm_num) r.ret,
    ← ofNat_leNat_leBytes (k := 4) (by norm_num) r'.ret, hle]

/-- Replies are alike exactly if the library reports alike. -/
theorem replies_eq_iff {x x' : Option (Reply × World)} {b b' : Mem}
    (hx : ∀ y, x = some y → replyTo h b y.1 = headerBytes (heading h y.1.ret) ++ report y.1)
    (hx' : ∀ y, x' = some y → replyTo h b' y.1 = headerBytes (heading h y.1.ret) ++ report y.1) :
    x.map (fun y => replyTo h b y.1) = x'.map (fun y => replyTo h b' y.1) ↔
      x.map (fun y => report y.1) = x'.map fun y => report y.1 := by
  cases x with
  | none => simp only [Option.map_none, eq_comm (a := none), Option.map_eq_none_iff]
  | some y =>
    cases x' with
    | none => simp only [Option.map_none, Option.map_some, reduceCtorEq]
    | some y' =>
      simp only [Option.map_some, Option.some.injEq, hx y rfl, hx' y' rfl]
      constructor
      · intro he
        exact (List.append_inj he (by rw [length_headerBytes, length_headerBytes])).2
      · intro he
        rw [he, ret_of_report he]

/-- The bytes that follow what a howsdoing reply was written to are sent as well. -/
theorem replyTo_howsdoing_ne (hid : h.rpcID.toNat = 4)
    (hex : (documentedCall p h.rpcID).exec w = some (r, w')) (hpos : ¬ r.ret.toInt < 0) :
    replyTo h (fun _ => 0) r ≠ replyTo h (fun _ => 1) r := by
  have hpay : (replyHeader h).paySize.toNat = _ := replyPaySize_eq (by omega) p 0
  have hlen : (headerBytes (replyHeader h) ++ marshalled r).length =
      (replyHeader h).paySize.toNat + 4 := by
    rw [List.length_append, length_headerBytes, length_marshalled hex, hpay, if_pos hid]
    omega
  intro he
  simp only [replyTo, hpos, ↓reduceIte] at he
  have hat (b : Byte) : (peek (poke (fun _ => b) 0 (headerBytes (replyHeader h) ++ marshalled r)) 0
      ((replyHeader h).paySize.toNat + 8))[(replyHeader h).paySize.toNat + 4]? = some b := by
    rw [List.getElem?_eq_getElem (by rw [length_peek]; omega)]
    simp only [peek, List.getElem_map, List.getElem_range, Nat.zero_add]
    rw [poke_of_le _ (by omega)]
  have hbyte : some (0 : Byte) = some 1 := by rw [← hat 0, he, hat 1]
  exact absurd hbyte (by decide)

end Reports

section Main
variable {s₁ s₂ : Process} {newSocket : Option Nat} {now : Timestamp} {q : Packet}

/-- A stack on which the request is completed to `p`. -/
def holding (p : List Byte) (replyBuffer : Mem) : Scratch :=
  ⟨poke (fun _ => 0) 0 p, replyBuffer, fun _ => 0, [], [], blankState, 0⟩

theorem reply_holding {s : Process} (hq : Pending s newSocket now q)
    (hid : 1 ≤ q.header.rpcID.toNat ∧ q.header.rpcID.toNat ≤ 7) {p : List Byte} (hp : Fills q p)
    (replyBuffer : Mem) : reply s newSocket now (holding p replyBuffer) =
      ((documentedCall p q.header.rpcID).exec (calledIn s newSocket now q)).map
        fun x => replyTo q.header replyBuffer x.1 := by
  have hpeek : peek (poke (poke (fun _ => 0) 0 p) 0 q.payload) 0 p.length = p :=
    peek_poke_poke _ _ hp.2
  rw [hp.1] at hpeek
  rw [reply_known hq hid]
  simp only [holding, hpeek]

theorem clear_of_alike (hw : calledIn s₁ newSocket now q = calledIn s₂ newSocket now q)
    (h₁ : Pending s₁ newSocket now q) (h₂ : Pending s₂ newSocket now q)
    (hal : Alike s₁ s₂ newSocket now) : Clear (calledIn s₁ newSocket now q) q := by
  have hid : 1 ≤ q.header.rpcID.toNat ∧ q.header.rpcID.toNat ≤ 7 := by
    by_contra hid
    obtain ⟨n₁, hr₁⟩ := reply_unknown h₁ hid (holding [] fun _ => 0)
    obtain ⟨n₂, hr₂⟩ := reply_unknown h₂ hid (holding [] fun _ => 1)
    have he := hr₁.symm.trans ((hal _ _).trans hr₂)
    have hhead := congrArg List.head? (Option.some.inj he)
    rw [Nat.add_comm n₁, Nat.add_comm n₂, peek_add, peek_add] at hhead
    exact absurd hhead (by simp [peek, holding, List.range_succ_eq_map])
  have hfour : q.header.rpcID.toNat = 4 → ∀ p, Fills q p → ∀ r w',
      (documentedCall p q.header.rpcID).exec (calledIn s₁ newSocket now q) = some (r, w') →
        r.ret.toInt < 0 := by
    intro h4 p hp r w' hex
    by_contra hpos
    have he := hal (holding p fun _ => 0) (holding p fun _ => 1)
    rw [reply_holding h₁ hid hp, reply_holding h₂ hid hp, ← hw, hex] at he
    exact replyTo_howsdoing_ne h4 hex hpos (Option.some.inj he)
  refine ⟨hid, fun p p' hp hp' => ?_, hfour⟩
  have he := hal (holding p fun _ => 0) (holding p' fun _ => 0)
  rw [reply_holding h₁ hid hp, reply_holding h₂ hid hp', ← hw] at he
  refine (replies_eq_iff ?_ ?_).mp he
  · exact fun y hy => replyTo_eq hid hy fun h4 => hfour h4 p hp _ _ hy
  · exact fun y hy => replyTo_eq hid hy fun h4 => hfour h4 p' hp' _ _ hy

theorem alike_of_clear (hw : calledIn s₁ newSocket now q = calledIn s₂ newSocket now q)
    (h₁ : Pending s₁ newSocket now q) (h₂ : Pending s₂ newSocket now q)
    (hc : Clear (calledIn s₁ newSocket now q) q) : Alike s₁ s₂ newSocket now := by
  obtain ⟨hid, hsettled, hfour⟩ := hc
  intro junk₁ junk₂
  have hfills (m : Mem) : Fills q (peek (poke m 0 q.payload) 0 (documentedSize q.header.rpcID)) := by
    refine ⟨length_peek .., ?_⟩
    rw [take_peek_poke, length_peek]
  rw [reply_known h₁ hid, reply_known h₂ hid, ← hw]
  refine (replies_eq_iff ?_ ?_).mpr (hsettled _ _ (hfills junk₁.payloadStream)
    (hfills junk₂.payloadStream))
  · exact fun y hy => replyTo_eq hid hy fun h4 => hfour h4 _ (hfills _) _ _ hy
  · exact fun y hy => replyTo_eq hid hy fun h4 => hfour h4 _ (hfills _) _ _ hy

/-- Two servers in the same world answer the same request alike, whatever they did
before, exactly if it is clear. -/
theorem alike_iff_clear (hworld : s₁.world = s₂.world) (h₁ : Pending s₁ newSocket now q)
    (h₂ : Pending s₂ newSocket now q) :
    Alike s₁ s₂ newSocket now ↔ Clear (calledIn s₁ newSocket now q) q := by
  have hw : calledIn s₁ newSocket now q = calledIn s₂ newSocket now q := by
    simp only [calledIn, Process.readHeader, hworld]
  exact ⟨clear_of_alike hw h₁ h₂, alike_of_clear hw h₁ h₂⟩

end Main

/-- A server on a connection, with an empty store, that has a payload size to send left
over from before. -/
def listening (rx : Rx) (paySize : BitVec 16) : Process where
  world := { Session.initial.world with fds := (∅ : FdTable).insert 0 (.sock rx) }
  serverFd := 1
  phase := .serving (some 0)
  headerStream _ := 0
  sendHeader := ⟨0, 0, 0, paySize, 0⟩

/-- Someone asks for the entry of hamster 9. -/
def entryNine : Packet := ⟨⟨182, 0, 8, 4, 5⟩, [0, 0, 0, 9], rfl⟩

/-- There is no call 9. -/
def callNine : Packet := ⟨⟨182, 0, 8, 0, 9⟩, [], rfl⟩

def entryRx : Rx := ⟨[headerBytes entryNine.header, entryNine.payload], false, by decide⟩
def callRx : Rx := ⟨[headerBytes callNine.header], false, by decide⟩

theorem entryNine_alike : Alike (listening entryRx 0) (listening entryRx 8) (some 0) .epoch := by
  refine (alike_iff_clear (q := entryNine) rfl ?_ ?_).mpr
    ⟨by decide, ?_, fun h4 => absurd h4 (by decide)⟩
  · exact ⟨by decide +kernel, by decide +kernel⟩
  · exact ⟨by decide +kernel, by decide +kernel⟩
  · intro p p' hp hp'
    rw [hp.eq_take (by decide), hp'.eq_take (by decide)]

/-- The answer to an unknown call has the length of the answer before it. -/
theorem callNine_differs : (listening callRx 0).world = (listening callRx 8).world ∧
    Pending (listening callRx 0) (some 0) .epoch callNine ∧
    Pending (listening callRx 8) (some 0) .epoch callNine ∧
    ¬ Alike (listening callRx 0) (listening callRx 8) (some 0) .epoch := by
  have h₁ : Pending (listening callRx 0) (some 0) .epoch callNine :=
    ⟨by decide +kernel, by decide +kernel⟩
  have h₂ : Pending (listening callRx 8) (some 0) .epoch callNine :=
    ⟨by decide +kernel, by decide +kernel⟩
  refine ⟨rfl, h₁, h₂, fun hal => ?_⟩
  have hlen : (reply (listening callRx 0) (some 0) .epoch zeroed).map List.length ≠
      (reply (listening callRx 8) (some 0) .epoch zeroed).map List.length := by decide +kernel
  exact hlen (by rw [hal zeroed zeroed])

end Hamster.Contract.Secrecy
