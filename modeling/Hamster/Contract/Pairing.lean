import Hamster.Client.Exchange
import Hamster.Lib.Runs

/-!
# Requests and replies of a long session

The Java client numbers its requests with 32 bits, sends 16 of them and compares the
signed 16 bits of the reply with all 32. A reply that echoes the number is accepted for
the first 32768 requests, and then not again before the last 32768 of each 2³².
-/
namespace Hamster.Contract.Pairing

open Lib.Bytes Lib.Posix Lib.Java Lib.Runs Server.Messages Client.Stubs Client.Exchange

/-- What a server sends before it hears from the client again: one whole message, cut in
any way. -/
structure Answer where
  header : Header
  payload : List Byte
  stream : Rx
  size : (payload.length : Int) = header.paySize.toInt
  bytes : stream.bytes = headerBytes header ++ payload

/-- A stub throws before it sends anything, or it has sent a request under a header and
makes something of the answer. -/
inductive Output
  | refused (e : Thrown)
  | answered (request : Header) (outcome : Except Thrown StubResult)

def Output.isSent : Output → Bool
  | .refused _ => false
  | .answered .. => true

def step (c : Connection) (i : StubCall × Answer) : Option (Output × Connection) :=
  match c.request i.1 with
  | .error e => some (.refused e, c)
  | .ok (msgId, _, c') =>
    some (.answered (requestHeader msgId i.1)
      ((c'.receive i.1 msgId i.2.stream).map Prod.fst), c')

abbrev Session (c : Connection) (tr : List (Event Connection (StubCall × Answer) Output))
    (c' : Connection) : Prop := Run step c tr c'

/-- How many requests have been sent. -/
def sent (tr : List (Event Connection (StubCall × Answer) Output)) : Nat :=
  (outputs tr).countP Output.isSent

def wrongMessageId : Thrown := .hamsterRPC (.plain "wrong message ID")
def wrongCallId : Thrown := .hamsterRPC (.plain "wrong RPC call ID")

def Echoes (request reply : Header) : Prop :=
  reply.msgID = request.msgID ∧ reply.rpcID = request.rpcID

/-- An echoed request passes the comparison of ids, and `wrong message ID` is thrown only
for other bits than those sent. -/
def Paired (request reply : Header) (outcome : Except Thrown StubResult) : Prop :=
  (Echoes request reply → outcome ≠ .error wrongMessageId ∧ outcome ≠ .error wrongCallId) ∧
    (outcome = .error wrongMessageId → reply.msgID ≠ request.msgID)

/-- Whatever the server answers next. -/
def NextPaired (c : Connection) (call : StubCall) : Prop :=
  ∀ (a : Answer) (request : Header) (outcome : Except Thrown StubResult) (c' : Connection),
    step c (call, a) = some (.answered request outcome, c') → Paired request a.header outcome

section Counter
variable {c c' : Connection} {tr : List (Event Connection (StubCall × Answer) Output)}

theorem step_cases {i : StubCall × Answer} {out : Output} (h : step c i = some (out, c')) :
    (¬ Sends i.1 ∧ ∃ e, out = .refused e ∧ c' = c) ∨
      (Sends i.1 ∧ out = .answered (requestHeader c.requestCounter i.1)
          ((c'.receive i.1 c.requestCounter i.2.stream).map Prod.fst) ∧
        c' = { c with requestCounter := c.requestCounter + 1 }) := by
  unfold step at h
  split at h
  · rename_i hreq
    cases h
    refine .inl ⟨fun hs => ?_, _, rfl, rfl⟩
    rw [request_of_sends c hs] at hreq
    cases hreq
  · rename_i hreq
    cases h
    obtain ⟨hs, rfl, -, rfl⟩ := request_eq_ok hreq
    exact .inr ⟨hs, rfl, rfl⟩

theorem sent_cons (e : Event Connection (StubCall × Answer) Output)
    (tr : List (Event Connection (StubCall × Answer) Output)) :
    sent (e :: tr) = sent tr + if e.output.isSent then 1 else 0 := List.countP_cons ..

/-- The counter is the number of requests sent, modulo 2³². -/
theorem session_counter (h : Session c tr c') :
    c'.requestCounter = c.requestCounter + BitVec.ofNat 32 (sent tr) ∧ c'.testing = c.testing := by
  induction h with
  | nil c => exact ⟨(BitVec.add_zero _).symm, rfl⟩
  | @cons c m c' i out tr hstep _ ih =>
    obtain ⟨hcount, htest⟩ := ih
    rw [sent_cons]
    rcases step_cases hstep with ⟨-, e, rfl, rfl⟩ | ⟨-, rfl, rfl⟩
    · exact ⟨hcount, htest⟩
    · refine ⟨?_, htest⟩
      have hone : BitVec.ofNat 32 (sent tr + 1) = 1 + BitVec.ofNat 32 (sent tr) := by
        rw [Nat.add_comm, BitVec.ofNat_add]
        rfl
      rw [hcount, Output.isSent, if_pos rfl, hone, BitVec.add_assoc]

/-- Each stub call that gets past its checks counts. -/
theorem sent_of_sends (h : Session c tr c') (hs : ∀ i ∈ inputs tr, Sends i.1) :
    sent tr = tr.length := by
  induction h with
  | nil c => rfl
  | @cons c m c' i out tr hstep _ ih =>
    have hrest : sent tr = tr.length := ih fun j hj => hs j (List.mem_cons_of_mem _ hj)
    rw [sent_cons, hrest, List.length_cons]
    rcases step_cases hstep with ⟨hnot, -⟩ | ⟨-, rfl, -⟩
    · exact absurd (hs i List.mem_cons_self) hnot
    · rfl

theorem step_isSome (c : Connection) (i : StubCall × Answer) : ∃ out c', step c i = some (out, c') := by
  unfold step
  split
  · exact ⟨_, _, rfl⟩
  · exact ⟨_, _, rfl⟩

end Counter

section Outcome
variable {c : Connection} {call : StubCall} {b : ByteBuffer} {e : Thrown} {msgId : BitVec 32}

theorem receive_answer (c : Connection) (call : StubCall) (msgId : BitVec 32) (a : Answer) :
    (c.receive call msgId a.stream).map Prod.fst =
      c.answer call msgId (received a.header) (.wrap a.payload) := by
  have hb : a.stream.bytes = headerBytes a.header ++ (a.payload ++ []) := by
    rw [List.append_nil]
    exact a.bytes
  exact receive_message_fst c call msgId hb a.size

theorem exceptionOf_ne_plain {code : BitVec 32} {x : HamsterRPCException}
    (h : exceptionOf code = some x) (msg : String) : x ≠ .plain msg := by
  unfold exceptionOf at h
  repeat' split at h
  all_goals cases h <;> nofun

/-- Once the ids are compared nothing is said about them any more. -/
theorem checkResponse_ne_plain {header : RPCMessageHeader} {id : BitVec 16}
    (hm : msgId = header.msgID) (hc : id = header.rpcCallId) (msg : String) :
    c.checkResponse msgId id header b ≠ .error (.hamsterRPC (.plain msg)) := by
  rw [Connection.checkResponse, if_neg fun h => h.2 hm, if_neg fun h => h.2 hc]
  split
  · by_cases h4 : b.rest.length < 4
    · rw [decodeErrorMsg_short c h4]
      nofun
    · obtain ⟨b', -, heq⟩ := decodeErrorMsg_eq c (Nat.not_lt.mp h4)
      rw [heq]
      split
      · nofun
      · cases hx : exceptionOf (errorCode b.rest) with
        | none => nofun
        | some x =>
          intro he
          cases he
          exact exceptionOf_ne_plain hx msg rfl
  · nofun

theorem answer_ne_plain {header : RPCMessageHeader} (hm : msgId = header.msgID)
    (hc : call.funcId = header.rpcCallId) (msg : String) :
    c.answer call msgId header b ≠ .error (.hamsterRPC (.plain msg)) := by
  have hcheck := checkResponse_ne_plain (c := c) (b := b) hm hc msg
  rw [Connection.answer]
  cases hx : c.checkResponse msgId call.funcId header b with
  | error e =>
    rw [hx] at hcheck
    exact fun he => hcheck (congrArg Except.error (Except.error.inj he))
  | ok b' =>
    rw [ok_bind]
    rcases unpack_cases call b' with ⟨r, hr, -⟩ | ⟨hr, -⟩
    · rw [hr]
      nofun
    · rw [hr]
      nofun

theorem answer_wrongMessage {header : RPCMessageHeader} (ht : c.testing = false)
    (hm : msgId ≠ header.msgID) : c.answer call msgId header b = .error wrongMessageId := by
  rw [Connection.answer, Connection.checkResponse, if_pos ⟨ht, hm⟩]
  rfl

theorem answer_wrongCall {header : RPCMessageHeader} (ht : c.testing = false)
    (hm : msgId = header.msgID) (hc : call.funcId ≠ header.rpcCallId) :
    c.answer call msgId header b = .error wrongCallId := by
  rw [Connection.answer, Connection.checkResponse, if_neg fun h => h.2 hm, if_pos ⟨ht, hc⟩]
  rfl

end Outcome

section Request
variable {c : Connection} {call : StubCall}

/-- The counters that come back from their lower half. -/
def Returns (n : Nat) : Prop := n % 2 ^ 32 < 2 ^ 15 ∨ 2 ^ 32 - 2 ^ 15 ≤ n % 2 ^ 32

instance (n : Nat) : Decidable (Returns n) := inferInstanceAs (Decidable (_ ∨ _))

theorem signExtend_setWidth_iff (n : Nat) :
    ((BitVec.ofNat 32 n).setWidth 16).signExtend 32 = BitVec.ofNat 32 n ↔ Returns n := by
  have hn : (BitVec.ofNat 32 n).toNat = n % 2 ^ 32 := BitVec.toNat_ofNat ..
  have hlow : ((BitVec.ofNat 32 n).setWidth 16).toNat = n % 2 ^ 32 % 2 ^ 16 := by
    rw [BitVec.toNat_setWidth, hn]
  rw [← BitVec.toInt_inj, toInt_signExtend, BitVec.toInt_eq_toNat_cond, BitVec.toInt_eq_toNat_cond,
    hlow, hn, Returns]
  split <;> split <;> omega

/-- A server that answers with the ids it was sent and nothing else. -/
def echo (request : Header) : Answer where
  header := { request with flag := 1, paySize := 0 }
  payload := []
  stream := .ofBytes (headerBytes { request with flag := 1, paySize := 0 })
  size := rfl
  bytes := (Rx.bytes_ofBytes _).trans (List.append_nil _).symm

theorem step_of_sends (hs : Sends call) (a : Answer) : step c (call, a) =
    some (.answered (requestHeader c.requestCounter call)
      ({ c with requestCounter := c.requestCounter + 1 : Connection }.answer call c.requestCounter
        (received a.header) (.wrap a.payload)),
      { c with requestCounter := c.requestCounter + 1 }) := by
  rw [step, request_of_sends c hs]
  dsimp only
  rw [receive_answer]

theorem nextPaired_iff (ht : c.testing = false) (hs : Sends call) :
    NextPaired c call ↔
      (c.requestCounter.setWidth 16).signExtend 32 = c.requestCounter := by
  constructor
  · intro h
    by_contra hne
    have hp := h (echo (requestHeader c.requestCounter call)) _ _ _ (step_of_sends hs _)
    exact (hp.1 ⟨rfl, rfl⟩).1 (answer_wrongMessage ht fun he => hne he.symm)
  · intro heq a request outcome c' hstep
    rw [step_of_sends hs] at hstep
    cases hstep
    constructor
    · rintro ⟨hm, hc⟩
      have hmsg : c.requestCounter = (received a.header).msgID := by
        rw [received, hm]
        exact heq.symm
      exact ⟨answer_ne_plain hmsg hc.symm _, answer_ne_plain hmsg hc.symm _⟩
    · intro hw hm
      have hmsg : c.requestCounter = (received a.header).msgID := by
        rw [received, hm]
        exact heq.symm
      by_cases hc : call.funcId = (received a.header).rpcCallId
      · exact answer_ne_plain hmsg hc _ hw
      · have hother := hw.symm.trans (answer_wrongCall ht hmsg hc)
        exact absurd hother (by decide)

end Request

/-- After a session in which `n` requests were sent, the next one is paired with its reply
exactly if `n` comes back from its lower half. -/
theorem paired_iff_returns {c : Connection}
    {tr : List (Event Connection (StubCall × Answer) Output)}
    (h : Session (.opened false) tr c) {call : StubCall} (hs : Sends call) :
    NextPaired c call ↔ Returns (sent tr) := by
  obtain ⟨hcount, ht⟩ := session_counter h
  have hn : c.requestCounter = BitVec.ofNat 32 (sent tr) := hcount.trans (BitVec.zero_add _)
  rw [nextPaired_iff ht hs, hn, signExtend_setWidth_iff]

/-- Someone asks for hamster 1. -/
def inquiry : StubCall := .howsdoing (some 1)

theorem sends_inquiry : Sends inquiry := rfl

/-- Sessions are as long as anyone likes. -/
theorem exists_session (n : Nat) : ∃ tr c, Session (.opened false) tr c ∧ sent tr = n := by
  obtain ⟨tr, c, h, hin, -⟩ := Run.exists_of (fun _ _ => True)
    (fun c i is _ => let ⟨out, c', hs⟩ := step_isSome c i; ⟨out, c', hs, trivial⟩)
    (List.replicate n (inquiry, echo (requestHeader 0 inquiry))) (.opened false) trivial
  refine ⟨tr, c, h, ?_⟩
  have hlen : tr.length = n := by
    have hl := congrArg List.length hin
    rwa [inputs, List.length_map, List.length_replicate] at hl
  rw [sent_of_sends h, hlen]
  intro i hi
  rw [hin] at hi
  rw [List.eq_of_mem_replicate hi]
  exact sends_inquiry

theorem fourth_paired : ∃ tr c, Session (.opened false) tr c ∧ sent tr = 3 ∧
    NextPaired c inquiry := by
  obtain ⟨tr, c, h, hn⟩ := exists_session 3
  exact ⟨tr, c, h, hn, (paired_iff_returns h sends_inquiry).mpr (by rw [hn]; decide)⟩

/-- The reply to the 32769th request is taken for another's. -/
theorem long_session_unpaired : ∃ tr c, Session (.opened false) tr c ∧ sent tr = 32768 ∧
    ¬ NextPaired c inquiry := by
  obtain ⟨tr, c, h, hn⟩ := exists_session 32768
  refine ⟨tr, c, h, hn, ?_⟩
  obtain ⟨hcount, ht⟩ := session_counter h
  have hc : c.requestCounter = BitVec.ofNat 32 32768 := by
    rw [hcount, hn]
    exact BitVec.zero_add _
  rw [nextPaired_iff ht sends_inquiry, hc, signExtend_setWidth_iff]
  decide

end Hamster.Contract.Pairing
