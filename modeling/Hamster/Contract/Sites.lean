import Hamster.Contract.RemoteDirectory

/-!
# Java clients of one server

Any number of Java clients call the server in any order, each over its own connection,
and their directory handles may change hands. A step is one call of a stub; here it is
taken from the wire to the call the library gets and back to what the caller is told.
-/
namespace Hamster.Contract.Sites

open Lib.Bytes Lib.Clock Lib.Java Lib.Memory Lib.Posix Lib.Runs Store Store.Entry Store.Library
  Server.Messages Server.Loop Client.Stubs Client.Exchange Contract.Arguments Contract.RoundTrip
  Contract.Results
open Asylum (Guest State effect)
open Contract.Dispatch (PaddedName)
open Contract.RemoteDirectory (assign)

/-- The server, a connection for every client, and the `HamsterHandle`s. -/
structure Site where
  world : World
  sendHeader : Header
  connection : Nat → Connection
  fdptr : Nat → BitVec 32

/-- A call of a client, the reading of the server's clock, and the handle it passes if it
lists hamsters. -/
structure Request where
  client : Nat
  now : Timestamp
  surroundings : Surroundings
  handle : Nat
  call : StubCall

def withHandle (fdptr : BitVec 32) : StubCall → StubCall
  | .directory _ o n => .directory fdptr o n
  | call => call

/-- The number of a descriptor is nothing a caller looks at. -/
def shown : StubResult → StubResult
  | .handle ret _ => .value ret
  | r => r

abbrev Outcome := Except Thrown StubResult

/-- Connections stay open side by side. The accept loop serves one until it is closed, so its
runs are among these. -/
def Site.step (s : Site) (i : Request) : Option (Outcome × Site) :=
  (roundTrip { s.world with now := i.now } s.sendHeader i.surroundings (s.connection i.client)
    (withHandle (s.fdptr i.handle) i.call)).map fun (res, w, sendHeader, c) =>
      (res.map shown,
        ⟨w, sendHeader, Function.update s.connection i.client c,
          Function.update s.fdptr i.handle (assign (s.fdptr i.handle) res)⟩)

abbrev History := List (Event Site Request Outcome)

/-- The call the asylum is asked to make. -/
def Request.asked (i : Request) : Timestamp × Call Nat :=
  (i.now, (wireCall i.call).map fun _ => i.handle)

/-- What a stub makes of a reply. A code it does not know is passed over, and behind it
nothing is left to read. -/
def heard (r : Reply) : Outcome :=
  if 0 ≤ r.ret.toInt then .ok (javaResult r)
  else (exceptionOf r.ret).elim (.error (.java .bufferUnderflow)) fun x => .error (.hamsterRPC x)

def lists : StubCall → Bool
  | .directory .. => true
  | _ => false

def threw : Outcome → Bool
  | .ok _ => false
  | .error _ => true

/-- Names without a blank at an end, and fewer than 2¹⁵ treats. -/
def Tidy : StubCall → Prop
  | .new o n t => Trimmed (ofAscii (wireName o).chars) ∧ Trimmed (ofAscii (wireName n).chars) ∧
      (wireCount t).toNat < 2 ^ 15
  | _ => True

instance (call : StubCall) : Decidable (Tidy call) :=
  match call with
  | .new .. => inferInstanceAs (Decidable (_ ∧ _ ∧ _))
  | .lookup .. | .directory .. | .howsdoing _ | .readentry _ | .givetreats .. | .collect _ =>
    inferInstanceAs (Decidable True)

/-- No handle is used again after it has thrown. -/
def Careful (tr : History) : Prop :=
  tr.Pairwise fun e e' => lists e.input.call = true → threw e.output = true →
    lists e'.input.call = true → e.input.handle ≠ e'.input.handle

/-- Fewer descriptors than an `int` can number, and calls than a message id can tell apart. -/
structure Orderly (tr : History) : Prop where
  sends : ∀ e ∈ tr, Sends e.input.call
  checked : ∀ e ∈ tr, Checked e.input.call
  tidy : ∀ e ∈ tr, Tidy e.input.call
  careful : Careful tr
  room : ∀ e ∈ tr, e.before.world.lowestFree < 2 ^ 31
  few : ∀ k, tr.countP (·.input.client = k) ≤ 2 ^ 15

theorem Orderly.of_append {tr tr' : History} (h : Orderly (tr ++ tr')) : Orderly tr where
  sends e he := h.sends e (List.mem_append_left _ he)
  checked e he := h.checked e (List.mem_append_left _ he)
  tidy e he := h.tidy e (List.mem_append_left _ he)
  careful := (List.pairwise_append.mp h.careful).1
  room e he := h.room e (List.mem_append_left _ he)
  few k := (List.Sublist.countP_le (List.sublist_append_left ..)).trans (h.few k)

/-- No database yet, every connection just opened, every handle new. -/
structure Site.Fresh (s : Site) : Prop where
  server : Session.Fresh ⟨s.world, fun _ => -1⟩
  connections : ∀ k, ∃ testing, s.connection k = .opened testing
  handles : ∀ v, s.fdptr v = -1

section Wire
variable {w w' : World} {stale : Header} {v : Surroundings} {c : Connection} {call : StubCall}
  {r : Reply}

/-- The server answers only if the library does. -/
theorem exec_of_roundTrip (hs : Sends call) (hc : Checked call)
    {x : Outcome × World × Header × Connection} (h : roundTrip w stale v c call = some x) :
    ∃ r w', (wireCall call).exec w = some (r, w') := by
  cases hex : (wireCall call).exec w with
  | some x => exact ⟨x.1, x.2, rfl⟩
  | none =>
    have hcall : (requested w stale v (requestBytes c.requestCounter call)).call v.junk =
        some (wireCall call) :=
      (decoded_request hc (peek_header _ _ _) (peek_poke _) v.junk).2
    have hrespond : (requested w stale v (requestBytes c.requestCounter call)).respond v.junk =
        none := by
      rw [respond_eq, hcall]
      exact congrArg (Option.map _) hex
    rw [roundTrip, request_of_sends c hs] at h
    dsimp only at h
    rw [hrespond] at h
    cases h

/-- Behind an unknown code the stub runs out of bytes. -/
theorem receive_unknown (hr : r.ret.toInt < 0) (hx : exceptionOf r.ret = none)
    (ha : AcceptsOwn c) :
    ((advanced c).receive call c.requestCounter
      (v.cut (answerBytes w stale v c.requestCounter call r))).map Prod.fst =
        .error (.java .bufferUnderflow) := by
  obtain ⟨h, payload, hb, hmsg, hid, hpay⟩ :=
    answer_brings w stale v c.requestCounter fun hpos => absurd hr (Int.not_lt.mpr hpos)
  rw [if_neg (Int.not_le.mpr hr)] at hpay
  obtain ⟨hflag, rfl⟩ := hpay
  have hids : ¬ ((advanced c).testing = false ∧
      (c.requestCounter ≠ h.msgID.signExtend 32 ∨ call.funcId ≠ h.rpcID)) := by
    intro ⟨ht, hne⟩
    rcases ha with hon | he
    · rw [advanced, hon] at ht
      cases ht
    · exact hne.elim (fun hne => hne (by rw [hmsg, he])) fun hne => hne hid.symm
  have herror : Replies.isError h = true := by
    rw [Replies.isError, hflag]
    decide
  have hcode : errorCode (beBytes 4 r.ret.toNat) = r.ret := by
    rw [errorCode, List.take_of_length_le (length_beBytes 4 _).le]
    exact beNat_beBytes (by norm_num) r.ret
  have hlen : (ByteBuffer.wrap (beBytes 4 r.ret.toNat)).rest.length = 4 := by
    rw [ByteBuffer.rest_wrap, length_beBytes]
  obtain ⟨b', hrest, heq⟩ := decodeErrorMsg_eq (advanced c) hlen.ge
  rw [ByteBuffer.rest_wrap, hcode, hx, if_neg fun h => h.2 (length_beBytes 4 _)] at heq
  have hempty : b'.rest.length = 0 := by
    rw [hrest, List.length_drop, hlen]
  rw [receive_fst _ _ hb, Connection.answer, Exceptions.checkResponse_ids hids, if_pos herror, heq,
    Option.elim_none, ok_bind]
  rcases unpack_cases call b' with ⟨_, -, hsize⟩ | ⟨hunder, -⟩
  · have hsome : 0 < resultSize call := by cases call <;> exact Nat.succ_pos _
    omega
  · rw [hunder]
    rfl

theorem receive_heard (hf : 0 ≤ r.ret.toInt → Fits call r.out ∧ Clean r.out) (ha : AcceptsOwn c) :
    ((advanced c).receive call c.requestCounter
      (v.cut (answerBytes w stale v c.requestCounter call r))).map Prod.fst = heard r := by
  unfold heard
  by_cases hr : 0 ≤ r.ret.toInt
  · rw [if_pos hr, receive_own hf (fun hneg => absurd hr (Int.not_le.mpr hneg)) ha, javaOutcome,
      exceptionOf_of_nonneg hr]
    rfl
  · rw [if_neg hr]
    cases hx : exceptionOf r.ret with
    | none => exact receive_unknown (Int.not_le.mp hr) hx ha
    | some x =>
      rw [receive_own hf (fun _ => by rw [hx]; rfl) ha, javaOutcome, hx]
      rfl

/-- What a call that is sent comes to, if the server answers. -/
theorem roundTrip_heard {x : Outcome × World × Header × Connection} (hs : Sends call)
    (hc : Checked call) (ha : AcceptsOwn c) (h : roundTrip w stale v c call = some x) :
    ∃ r w' stale', (wireCall call).exec w = some (r, w') ∧
      ((0 ≤ r.ret.toInt → Fits call r.out ∧ Clean r.out) →
        x = (heard r, w', stale', advanced c)) := by
  obtain ⟨r, w', hex⟩ := exec_of_roundTrip hs hc h
  obtain ⟨stale', heq⟩ := roundTrip_eq stale v c hs hc hex
  refine ⟨r, w', stale', hex, fun hf => ?_⟩
  rw [heq, receive_heard hf ha] at h
  exact (Option.some.inj h).symm

end Wire

/-- A guest whose names the stubs leave alone and whose treats fit a `short`. -/
structure Legible (g : Guest) : Prop where
  owner : Trimmed (ofAscii g.owner.text.chars)
  name : Trimmed (ofAscii g.name.text.chars)
  stock : g.stock.toNat < 2 ^ 15

theorem Legible.left {g : Guest} (h : Legible g) : g.left < 2 ^ 15 :=
  (Nat.sub_le _ _).trans_lt h.stock

theorem legible_effect {i : Request} {gs : List Guest} (ht : Tidy i.call)
    (h : ∀ g ∈ gs, Legible g) : ∀ g ∈ effect i.asked.1 i.asked.2 gs, Legible g := by
  intro x hx
  obtain ⟨client, now, surroundings, handle, call⟩ := i
  cases call with
  | new o n t =>
    rcases Asylum.join_eq now (wireName o) (wireName n) (wireCount t) gs with he | ⟨ho, hn, he⟩
    · exact h x (he ▸ hx)
    · change x ∈ Asylum.join now (wireName o) (wireName n) (wireCount t) gs at hx
      rw [he] at hx
      rcases List.mem_append.mp hx with hx | hx
      · exact h x hx
      · rw [List.mem_singleton.mp hx]
        exact ⟨ht.1, ht.2.1, ht.2.2⟩
  | givetreats id t =>
    rcases State.mem_amendFirst hx with hx | ⟨g, hg, rfl⟩
    · exact h x hx
    · exact ⟨(h g hg).owner, (h g hg).name, (h g hg).stock⟩
  | howsdoing id =>
    rcases State.mem_amendFirst hx with hx | ⟨g, hg, rfl⟩
    · exact h x hx
    · exact ⟨(h g hg).owner, (h g hg).name, (h g hg).stock⟩
  | collect o => exact h x (List.mem_of_mem_filter hx)
  | lookup o n => exact h x hx
  | directory p o n => exact h x hx
  | readentry id => exact h x hx

theorem paddedName (n : Asylum.Name) : PaddedName (n.text.pad 32) := ⟨n.text, n.short, rfl⟩

/-- The out values of a call that takes no handle. -/
theorem fits_of_exec {w w' : World} {a b : State} {now : Timestamp} {v : Nat} {call : StubCall}
    {r : Reply} (hl : lists call = false) (hg : ∀ g ∈ a.guests, Legible g)
    (hex : (wireCall call).exec w = some (r, w'))
    (h : a.step (now, (wireCall call).map fun _ => v) = some (r, b)) (hr : 0 ≤ r.ret.toInt) :
    Fits call r.out ∧ Clean r.out := by
  have hfound {id : BitVec 32} (hf : a.guests.find? (·.has id) = none) (hret : r.ret = hmstrErrNotFound) :
      False := by
    rw [hret] at hr
    exact absurd hr (by decide)
  cases call with
  | directory p o n => cases hl
  | new | lookup | givetreats =>
    cases hex
    exact ⟨trivial, trivial⟩
  | collect o =>
    obtain ⟨x, -, he⟩ := Option.map_eq_some_iff.mp hex
    cases he
    exact ⟨trivial, trivial⟩
  | howsdoing id =>
    replace h : a.howsdoing now (id.getD 0) = some (r, b) := h
    rw [State.howsdoing] at h
    cases hf : a.guests.find? (·.has (id.getD 0)) with
    | none =>
      rw [hf] at h
      cases h
      exact (hfound hf rfl).elim
    | some g =>
      rw [hf] at h
      obtain ⟨rounds, -, he⟩ := Option.map_eq_some_iff.mp h
      cases he
      refine ⟨trivial, ?_⟩
      have hleft := (hg g (List.mem_of_find?_eq_some hf)).left
      show (stateOf g.ask.entry rounds).treatsLeft.toNat < 2 ^ 15
      rw [stateOf, Guest.toNat_treatsLeft]
      exact hleft
  | readentry id =>
    replace h : (a.readentry now (id.getD 0)).map (fun r => (r, a)) = some (r, b) := h
    obtain ⟨r', hread, he⟩ := Option.map_eq_some_iff.mp h
    cases he
    rw [State.readentry] at hread
    cases hf : a.guests.find? (·.has (id.getD 0)) with
    | none =>
      rw [hf] at hread
      cases hread
      exact (hfound hf rfl).elim
    | some g =>
      rw [hf] at hread
      obtain ⟨amount, -, he⟩ := Option.map_eq_some_iff.mp hread
      cases he
      have howner := g.owner.short
      have hname := g.name.short
      refine ⟨⟨paddedName g.owner, paddedName g.name⟩, ?_⟩
      show Trimmed (ofAscii (cstr (g.owner.text.pad 32)).chars) ∧
        Trimmed (ofAscii (cstr (g.name.text.pad 32)).chars)
      rw [cstr_pad_self (by omega), cstr_pad_self (by omega)]
      exact ⟨(hg g (List.mem_of_find?_eq_some hf)).owner, (hg g (List.mem_of_find?_eq_some hf)).name⟩

end Hamster.Contract.Sites
