import Hamster.Client.Exchange
import Hamster.Contract.Dispatch
import Hamster.Contract.Replies

/-!
# The results of the Java client

What a stub makes of the reply to a successful call. Its integers are the 16 and 32 bits
that were sent, read as signed ones, and its names are decoded as US-ASCII. Nothing is
said here about a count of treats from 2¹⁵ on, nor about names with a blank at an end.
-/
namespace Hamster.Contract.Results

open Lib.Bytes Lib.Clock Lib.Memory Lib.Posix Lib.Java Store Store.Entry Store.Library Server.Messages
  Server.Handlers Server.Protocol Server.Loop Client.Stubs Client.Exchange Contract.Dispatch
  Contract.Replies

/-- The out values are of the call, and what C can hold. -/
def Fits : StubCall → OutArgs → Prop
  | .directory .., .handle p => (BitVec.ofInt 32 p).toInt = p
  | .howsdoing _, .state _ => True
  | .readentry _, .entry owner name _ => PaddedName owner ∧ PaddedName name
  | .new .., .none | .lookup .., .none | .givetreats .., .none | .collect _, .none => True
  | _, _ => False

/-- The characters of the string are the bytes of the name. -/
def Spelt (s : JString) (name : List Byte) : Prop :=
  s.map (·.toNat) = (cstr name).chars.map (·.toNat)

/-- The caller gets the values the library gave. -/
def Unaltered : Reply → StubResult → Prop
  | ⟨ret, .none⟩, .value ret' => ret' = ret
  | ⟨ret, .handle p⟩, .handle ret' p' => ret' = ret ∧ p'.toInt = p
  | ⟨ret, .state st⟩, .state ret' treatsLeft rounds cost =>
    ret' = ret ∧ treatsLeft.toInt = st.treatsLeft.toNat ∧ rounds.toInt = st.rounds.toNat ∧
      cost.toInt = st.cost.toInt
  | ⟨ret, .entry owner name price⟩, .entry ret' owner' name' price' =>
    ret' = ret ∧ Spelt owner' owner ∧ Spelt name' name ∧ price'.toInt = price.toInt
  | _, _ => False

/-- The result, its names through the US-ASCII decoder. -/
def javaResult : Reply → StubResult
  | ⟨ret, .none⟩ => .value ret
  | ⟨ret, .handle p⟩ => .handle ret (BitVec.ofInt 32 p)
  | ⟨ret, .state st⟩ =>
    .state ret (st.treatsLeft.setWidth 32) st.rounds (st.cost.signExtend 32)
  | ⟨ret, .entry owner name price⟩ =>
    .entry ret (ofAscii (cstr owner).chars) (ofAscii (cstr name).chars) (price.signExtend 32)

/-- Fewer than 2¹⁵ treats, and names without a blank at an end. -/
def Clean : OutArgs → Prop
  | .state st => st.treatsLeft.toNat < 2 ^ 15
  | .entry owner name _ =>
    Trimmed (ofAscii (cstr owner).chars) ∧ Trimmed (ofAscii (cstr name).chars)
  | _ => True

/-- Rounds that an `int` holds, and ASCII names. -/
def PlainOut : OutArgs → Prop
  | .state st => st.rounds.toNat < 2 ^ 31
  | .entry owner name _ =>
    (∀ b ∈ (cstr owner).chars, b.toNat < 128) ∧ ∀ b ∈ (cstr name).chars, b.toNat < 128
  | _ => True

section Unpack
variable {call : StubCall} {r : Reply} {b : ByteBuffer} {more : List Byte}

theorem ofAscii_append (as bs : List Byte) : ofAscii (as ++ bs) = ofAscii as ++ ofAscii bs :=
  List.map_append

theorem ofAscii_zeros (k : Nat) : ofAscii (List.replicate k 0) = List.replicate k 0 :=
  List.map_replicate

/-- The padding of a name is trimmed off. -/
theorem trim_name {bs : List Byte} (hp : PaddedName bs) (ht : Trimmed (ofAscii (cstr bs).chars)) :
    trim (ofAscii (bs.take 32)) = ofAscii (cstr bs).chars := by
  have hall : bs.take 32 = bs := List.take_of_length_le hp.length.le
  obtain ⟨s, hs, rfl⟩ := hp
  have hs' : cstr (s.pad 32) = s := cstr_pad_self (by omega)
  rw [hs'] at ht ⊢
  rw [hall, CString.pad, ofAscii_append, ofAscii_zeros]
  exact trim_pad ht _

theorem signExtend_of_lt {x : BitVec 16} (h : x.toNat < 2 ^ 15) :
    x.signExtend 32 = x.setWidth 32 := by
  have hmsb : x.msb = false := BitVec.msb_eq_false_iff_two_mul_lt.mpr (by omega)
  exact BitVec.signExtend_eq_setWidth_of_msb_false hmsb

theorem unpack_marshalled (hf : Fits call r.out) (hc : Clean r.out)
    (hb : b.rest = marshalled r ++ more) : call.unpack b = .ok (javaResult r) := by
  obtain ⟨ret, out⟩ := r
  cases out with
  | none =>
    rw [marshalled, List.append_nil] at hb
    obtain ⟨b₁, hret, -⟩ := ByteBuffer.getInt_append hb
    cases call with
    | new | lookup | givetreats | collect =>
      simp only [StubCall.unpack, hret, ok_bind]
      rfl
    | directory | howsdoing | readentry => exact hf.elim
  | handle p =>
    rw [marshalled, List.append_assoc] at hb
    obtain ⟨b₁, hret, h₁⟩ := ByteBuffer.getInt_append hb
    obtain ⟨b₂, hp, -⟩ := ByteBuffer.getInt_append h₁
    cases call with
    | directory =>
      simp only [StubCall.unpack, hret, hp, ok_bind]
      rfl
    | new | lookup | givetreats | collect | howsdoing | readentry => exact hf.elim
  | state st =>
    simp only [marshalled, List.append_assoc] at hb
    obtain ⟨b₁, hret, h₁⟩ := ByteBuffer.getInt_append hb
    obtain ⟨b₂, htreats, h₂⟩ := ByteBuffer.getShort_append h₁
    obtain ⟨b₃, hrounds, h₃⟩ := ByteBuffer.getInt_append h₂
    obtain ⟨b₄, hcost, -⟩ := ByteBuffer.getShort_append h₃
    cases call with
    | howsdoing =>
      simp only [StubCall.unpack, hret, htreats, hrounds, hcost, ok_bind, signExtend_of_lt hc]
      rfl
    | new | lookup | givetreats | collect | directory | readentry => exact hf.elim
  | entry owner name price =>
    cases call with
    | readentry =>
      obtain ⟨ho, hn⟩ := hf
      simp only [marshalled, List.append_assoc] at hb
      obtain ⟨b₁, hret, h₁⟩ := ByteBuffer.getInt_append hb
      obtain ⟨b₂, howner, h₂⟩ := ByteBuffer.get_append (n := staticStringSize) h₁
        (List.length_take_of_le ho.length.ge)
      obtain ⟨b₃, hname, h₃⟩ := ByteBuffer.get_append (n := staticStringSize) h₂
        (List.length_take_of_le hn.length.ge)
      obtain ⟨b₄, hprice, -⟩ := ByteBuffer.getShort_append h₃
      simp only [StubCall.unpack, hret, howner, hname, hprice, ok_bind, trim_name ho hc.1,
        trim_name hn hc.2]
      rfl
    | new | lookup | givetreats | collect | directory | howsdoing => exact hf.elim

end Unpack

section Reply
variable {c : Connection} {call : StubCall} {msgId : BitVec 32} {r : Reply} {w : World}
  {headerStream payloadStream : Mem} {stale : Header} {junk : Scratch} {rx : Rx}
  {rest : List Byte}

/-- What goes out in answer to the request whose header was read. -/
def replyBytes (w : World) (headerStream payloadStream : Mem) (stale : Header) (junk : Scratch)
    (r : Reply) : List Byte :=
  (reaction (arrived w headerStream payloadStream stale) junk r).1

/-- The stub gets past its comparison of ids. -/
def Accepts (c : Connection) (call : StubCall) (msgId : BitVec 32) (h : Header) : Prop :=
  c.testing = true ∨ (msgId = h.msgID.signExtend 32 ∧ h.rpcID = call.funcId)

/-- Whatever the cut of the stream, the stub reads the reply to its end and returns
unaltered values. -/
def Arrives (c : Connection) (call : StubCall) (msgId : BitVec 32) (r : Reply)
    (sent : List Byte) : Prop :=
  ∀ (rx : Rx) (rest : List Byte), rx.bytes = sent ++ rest →
    ∃ res rx', c.receive call msgId rx = .ok (res, rx') ∧ rx'.bytes = rest ∧ Unaltered r res

/-- The announced length of a reply to a stub, whatever the server sent before. -/
theorem replyPaySize_funcId (call : StubCall) (stale : BitVec 16) :
    (replyPaySize call.funcId stale).toNat =
      match call with
      | .directory .. => 8
      | .howsdoing _ => 16
      | .readentry _ => 70
      | _ => 4 := by
  cases call <;> rfl

theorem length_marshalled_le (hf : Fits call r.out) (stale : BitVec 16) :
    (marshalled r).length ≤ (replyPaySize call.funcId stale).toNat := by
  rw [replyPaySize_funcId]
  obtain ⟨ret, out⟩ := r
  cases out with
  | none =>
    cases call with
    | new | lookup | givetreats | collect => simp [marshalled]
    | directory | howsdoing | readentry => exact hf.elim
  | handle p =>
    cases call with
    | directory => simp [marshalled]
    | new | lookup | givetreats | collect | howsdoing | readentry => exact hf.elim
  | state st =>
    cases call with
    | howsdoing => simp [marshalled]
    | new | lookup | givetreats | collect | directory | readentry => exact hf.elim
  | entry owner name price =>
    cases call with
    | readentry => simp [marshalled, hf.1.length, hf.2.length]
    | new | lookup | givetreats | collect | directory | howsdoing => exact hf.elim

theorem checkResponse_ok {h : Header} (ha : Accepts c call msgId h) (he : h.flag.getLsbD 1 = false)
    (b : ByteBuffer) : c.checkResponse msgId call.funcId (received h) b = .ok b := by
  have hmsg : ¬ (c.testing = false ∧ msgId ≠ (received h).msgID) := by
    rintro ⟨ht, hne⟩
    rcases ha with hon | ⟨hm, -⟩
    · rw [hon] at ht
      cases ht
    · exact hne hm
  have hcall : ¬ (c.testing = false ∧ call.funcId ≠ (received h).rpcCallId) := by
    rintro ⟨ht, hne⟩
    rcases ha with hon | ⟨-, hid⟩
    · rw [hon] at ht
      cases ht
    · exact hne hid.symm
  have herror : ¬ (received h).isError = true := Bool.not_eq_true _ ▸ he
  rw [Connection.checkResponse, if_neg hmsg, if_neg hcall, if_neg herror]

/-- The announced payload is the result and, for `hmstr_howsdoing`, four bytes more. -/
theorem replyBytes_eq (w : World) (payloadStream : Mem) (stale : Header) (junk : Scratch)
    (hr : 0 ≤ r.ret.toInt) (hf : Fits call r.out)
    (hid : (decodeHeader headerStream).rpcID = call.funcId) :
    ∃ h more, replyBytes w headerStream payloadStream stale junk r =
        headerBytes h ++ (marshalled r ++ more) ∧
      h.msgID = (decodeHeader headerStream).msgID ∧ h.rpcID = call.funcId ∧ h.flag = 1 ∧
      (marshalled r ++ more).length = h.paySize.toNat ∧ h.paySize.toNat < 2 ^ 15 := by
  have hle := length_marshalled_le hf stale.paySize
  have hsize := replyPaySize_funcId call stale.paySize
  have hheader : (arrived w headerStream payloadStream stale).sendHeader =
      ⟨(decodeHeader headerStream).version, 1, (decodeHeader headerStream).msgID,
        replyPaySize call.funcId stale.paySize, call.funcId⟩ := by
    simp only [arrived, handleHeader, hid]
  rw [replyBytes, reaction, if_neg (Int.not_lt.mpr hr), hheader]
  have hroom : (headerBytes ⟨(decodeHeader headerStream).version, 1,
      (decodeHeader headerStream).msgID, replyPaySize call.funcId stale.paySize, call.funcId⟩ ++
        marshalled r).length ≤ (replyPaySize call.funcId stale.paySize).toNat + 8 := by
    rw [List.length_append, length_headerBytes]
    omega
  obtain ⟨more, hpeek, hmore⟩ := peek_poke_append junk.replyBuffer hroom
  rw [List.length_append, length_headerBytes] at hmore
  refine ⟨_, more, hpeek.trans (List.append_assoc ..), rfl, rfl, rfl, ?_, ?_⟩
  · dsimp only
    rw [List.length_append]
    omega
  · dsimp only
    rw [hsize]
    split <;> decide

theorem toInt_of_lt {x : BitVec 16} (h : x.toNat < 2 ^ 15) : x.toInt = x.toNat :=
  BitVec.toInt_eq_toNat_of_lt (by omega)

/-- The stub takes the whole reply off the stream and finds the result in it. -/
theorem receive_reply (hr : 0 ≤ r.ret.toInt) (hf : Fits call r.out) (hc : Clean r.out)
    (hid : (decodeHeader headerStream).rpcID = call.funcId)
    (ha : Accepts c call msgId (decodeHeader headerStream))
    (hrx : rx.bytes = replyBytes w headerStream payloadStream stale junk r ++ rest) :
    ∃ rx', c.receive call msgId rx = .ok (javaResult r, rx') ∧ rx'.bytes = rest := by
  obtain ⟨h, more, hsent, hmsg, hrpc, hflag, hlen, hlt⟩ :=
    replyBytes_eq w payloadStream stale junk hr hf hid
  have hint : h.paySize.toInt = h.paySize.toNat := toInt_of_lt hlt
  rw [hsent, List.append_assoc, List.append_assoc, ← List.append_assoc (marshalled r)] at hrx
  obtain ⟨rx', hrest, hreceive⟩ := receive_message c call msgId hrx (by rw [hlen, hint])
  refine ⟨rx', ?_, hrest⟩
  have ha' : Accepts c call msgId h := by
    rw [Accepts, hmsg, hrpc]
    exact ha.imp_right fun ⟨hm, _⟩ => ⟨hm, rfl⟩
  have herror : h.flag.getLsbD 1 = false := by
    rw [hflag]
    decide
  rw [hreceive, Connection.answer, checkResponse_ok ha' herror, ok_bind,
    unpack_marshalled hf hc (ByteBuffer.rest_wrap _)]
  rfl

end Reply

section Limits
variable {call : StubCall} {r : Reply}

/-- A byte that is not ASCII becomes a character that is no byte. -/
theorem spelt_iff (name : List Byte) :
    Spelt (ofAscii (cstr name).chars) name ↔ ∀ b ∈ (cstr name).chars, b.toNat < 128 := by
  rw [Spelt, ofAscii, List.map_map, List.map_inj_left]
  refine forall₂_congr fun b _ => ?_
  have hb : b.toNat < 256 := b.isLt
  show (if b.toNat < 128 then b.setWidth 16 else (0xFFFD : BitVec 16)).toNat = b.toNat ↔ _
  split
  · rename_i hlt
    refine iff_of_true ?_ hlt
    rw [BitVec.toNat_setWidth]
    omega
  · rename_i hge
    refine iff_of_false (fun he => ?_) hge
    have hmark : (0xFFFD : BitVec 16).toNat = 65533 := rfl
    omega

theorem toInt_signed_iff (x : BitVec 32) : x.toInt = x.toNat ↔ x.toNat < 2 ^ 31 := by
  have hx : x.toNat < 2 ^ 32 := x.isLt
  rw [BitVec.toInt_eq_toNat_cond]
  split <;> omega

theorem toInt_setWidth (x : BitVec 16) : (x.setWidth 32).toInt = x.toNat := by
  have hx : x.toNat < 2 ^ 16 := x.isLt
  have hw : (x.setWidth 32).toNat = x.toNat := by
    rw [BitVec.toNat_setWidth, Nat.mod_eq_of_lt (by omega)]
  rw [(toInt_signed_iff _).mpr (by omega), hw]

theorem unaltered_iff (hf : Fits call r.out) : Unaltered r (javaResult r) ↔ PlainOut r.out := by
  obtain ⟨ret, out⟩ := r
  cases out with
  | none => exact iff_of_true rfl trivial
  | handle p =>
    cases call with
    | directory => exact iff_of_true ⟨rfl, hf⟩ trivial
    | new | lookup | givetreats | collect | howsdoing | readentry => exact hf.elim
  | state st =>
    exact (and_iff_right rfl).trans ((and_iff_right (toInt_setWidth _)).trans
      ((and_iff_left (toInt_signExtend _)).trans (toInt_signed_iff _)))
  | entry owner name price =>
    exact (and_iff_right rfl).trans (and_congr (spelt_iff owner)
      ((and_iff_left (toInt_signExtend _)).trans (spelt_iff name)))

theorem arrives_iff {c : Connection} {msgId : BitVec 32} {w : World}
    {headerStream payloadStream : Mem} {stale : Header} {junk : Scratch} (hr : 0 ≤ r.ret.toInt)
    (hf : Fits call r.out) (hc : Clean r.out) (hid : (decodeHeader headerStream).rpcID = call.funcId)
    (ha : Accepts c call msgId (decodeHeader headerStream)) :
    Arrives c call msgId r (replyBytes w headerStream payloadStream stale junk r) ↔
      PlainOut r.out := by
  rw [← unaltered_iff hf]
  constructor
  · intro h
    have hrx : (Rx.ofBytes (replyBytes w headerStream payloadStream stale junk r)).bytes =
        replyBytes w headerStream payloadStream stale junk r ++ [] := by
      rw [Rx.bytes_ofBytes, List.append_nil]
    obtain ⟨res, rx', hres, -, hu⟩ := h _ _ hrx
    obtain ⟨rx'', hjava, -⟩ := receive_reply hr hf hc hid ha hrx
    cases hres.symm.trans hjava
    exact hu
  · intro hu rx rest hrx
    obtain ⟨rx', hjava, hrest⟩ := receive_reply hr hf hc hid ha hrx
    exact ⟨_, rx', hjava, hrest, hu⟩

end Limits

/-- A stub that accepts the ids of a reply to a successful call returns the result with its
names decoded, and that is unaltered exactly for ASCII names and rounds below 2³¹. -/
theorem result_arrives {c : Connection} {call : StubCall} {msgId : BitVec 32} {r : Reply}
    (hr : 0 ≤ r.ret.toInt) (hf : Fits call r.out) (hc : Clean r.out) (w : World)
    {headerStream : Mem} (hid : (decodeHeader headerStream).rpcID = call.funcId)
    (ha : Accepts c call msgId (decodeHeader headerStream)) (payloadStream : Mem) (stale : Header)
    (junk : Scratch) :
    (∀ (rx : Rx) (rest : List Byte),
      rx.bytes = replyBytes w headerStream payloadStream stale junk r ++ rest →
      ∃ rx', c.receive call msgId rx = .ok (javaResult r, rx') ∧ rx'.bytes = rest) ∧
    (Arrives c call msgId r (replyBytes w headerStream payloadStream stale junk r) ↔
      PlainOut r.out) :=
  ⟨fun _ _ hrx => receive_reply hr hf hc hid ha hrx, arrives_iff hr hf hc hid ha⟩

/-- The header of the request, over zeros. -/
def asked (call : StubCall) : Mem := poke (fun _ => 0) 0 (headerBytes (requestHeader 0 call))

theorem decodeHeader_asked (call : StubCall) :
    decodeHeader (asked call) = requestHeader 0 call :=
  decodeHeader_of_bytes (peek_poke_header _ _)

/-- The answer to `call`, put into zeroed buffers. -/
def answered (call : StubCall) (r : Reply) : List Byte :=
  replyBytes (Session.initial.clockAt .epoch) (asked call) (fun _ => 0) ⟨0, 0, 0, 0, 0⟩
    ⟨fun _ => 0, fun _ => 0, fun _ => 0, [], [], blankState, 0⟩ r

theorem accepts_asked (call : StubCall) :
    Accepts (.opened false) call 0 (decodeHeader (asked call)) := by
  rw [decodeHeader_asked]
  exact .inr ⟨rfl, rfl⟩

/-- Three treats left after two rounds. -/
def wellFed : Reply := ⟨0, .state ⟨3, 2, 17⟩⟩

theorem state_arrives : Arrives (.opened false) (.howsdoing (some 1)) 0 wellFed
    (answered (.howsdoing (some 1)) wellFed) := by
  have hfits : Fits (.howsdoing (some 1)) wellFed.out := trivial
  have hclean : Clean wellFed.out := (by decide : 3 < 2 ^ 15)
  have hplain : PlainOut wellFed.out := (by decide : 2 < 2 ^ 31)
  exact (result_arrives (by decide) hfits hclean _ (by rw [decodeHeader_asked]; rfl)
    (accepts_asked _) _ _ _).2.mpr hplain

/-- The entry of a hamster of "ä", as Latin-1 writes it. -/
def umlautEntry : Reply := ⟨0, .entry (CString.pad 32 ⟨[0xE4], by decide⟩) blankName 17⟩

/-- The caller is told another owner. -/
theorem umlaut_lost : ¬ Arrives (.opened false) (.readentry (some 1)) 0 umlautEntry
    (answered (.readentry (some 1)) umlautEntry) := by
  have hfits : Fits (.readentry (some 1)) umlautEntry.out :=
    ⟨⟨_, by decide, rfl⟩, paddedName_blank⟩
  have hclean : Clean umlautEntry.out := ⟨⟨by decide, by decide⟩, ⟨by decide, by decide⟩⟩
  intro ha
  have hplain := (arrives_iff (by decide) hfits hclean (by rw [decodeHeader_asked]; rfl)
    (accepts_asked _)).mp ha
  have hbyte : (0xE4 : Byte).toNat < 128 := hplain.1 0xE4 (by decide)
  exact absurd hbyte (by decide)

end Hamster.Contract.Results
