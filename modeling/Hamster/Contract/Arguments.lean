import Hamster.Client.Exchange

/-!
# The arguments of the Java client

What the server hands to the library for a request of a stub. Names travel as US-ASCII
in front of a zero, counts on 16 bits, and the empty name stands for null; within these
limits the arguments are those of the caller. `lookup` and `collect` do not check the
length of their names; nothing is said here about names of theirs that are too long.
-/
namespace Hamster.Contract.Arguments

open Lib.Bytes Lib.Memory Lib.Java Store.Library Server.Messages Server.Handlers Server.Protocol
  Client.Stubs Client.Exchange

/-- The characters of the string are the bytes of the name. -/
def Spells : Option JString → Option CString → Prop
  | none, none => True
  | some s, some t => s.map (·.toNat) = t.chars.map (·.toNat)
  | _, _ => False

/-- The library gets the values the stub was called with. -/
def Unaltered : StubCall → Call Int → Prop
  | .new o n t, .new o' n' t' =>
    Spells o (some o') ∧ Spells n (some n') ∧ t.map (·.toInt) = some (t'.toNat : Int)
  | .lookup o n, .lookup o' n' => Spells o o' ∧ Spells n n'
  | .directory p o n, .directory p' o' n' => p.toInt = p' ∧ Spells o o' ∧ Spells n n'
  | .howsdoing id, .howsdoing id' => id = some id'
  | .readentry id, .readentry id' => id = some id'
  | .givetreats id t, .givetreats id' t' =>
    id = some id' ∧ t.map (·.toInt) = some (t'.toNat : Int)
  | .collect o, .collect o' => Spells o o'
  | _, _ => False

/-- What the server decodes, once it has read the message, is unaltered. -/
def Arrives (call : StubCall) (msg : List Byte) : Prop :=
  ∀ (headerStream payloadStream : Mem) (junk : Scratch),
    peek headerStream 0 8 = msg.take 8 →
    peek payloadStream 0 (msg.drop 8).length = msg.drop 8 →
    ∃ d, requestedCall (decodeHeader headerStream).rpcID payloadStream junk = some d ∧
      Unaltered call d

def names : StubCall → List (Option JString)
  | .new o n _ | .lookup o n | .directory _ o n => [o, n]
  | .collect o => [o]
  | _ => []

/-- No name has more than 31 bytes. -/
def Checked (call : StubCall) : Prop := ∀ s ∈ names call, checkNonNull s = .ok ()

instance (call : StubCall) : Decidable (Checked call) :=
  inferInstanceAs (Decidable (∀ s ∈ names call, checkNonNull s = .ok ()))

/-- A string as US-ASCII, up to its first zero. Null has no characters. -/
def wireName (s : Option JString) : CString := cstr ((s.map asciiBytes).getD [])

def wireFilter (s : Option JString) : Option CString :=
  if (wireName s).chars = [] then none else some (wireName s)

/-- A count modulo 2¹⁶. -/
def wireCount (t : Option (BitVec 32)) : BitVec 16 := (t.getD 0).setWidth 16

def wireCall : StubCall → Call Int
  | .new o n t => .new (wireName o) (wireName n) (wireCount t)
  | .lookup o n => .lookup (some (wireName o)) (some (wireName n))
  | .directory p o n => .directory p.toInt (wireFilter o) (wireFilter n)
  | .howsdoing id => .howsdoing (id.getD 0)
  | .readentry id => .readentry (id.getD 0)
  | .givetreats id t => .givetreats (id.getD 0) (wireCount t)
  | .collect o => .collect (some (wireName o))

def PlainName (s : Option JString) : Prop := ∃ x, s = some x ∧ Plain x

def PlainFilter (s : Option JString) : Prop := ∀ x, s = some x → x ≠ [] ∧ Plain x

def PlainCount (t : Option (BitVec 32)) : Prop := ∀ x, t = some x → 0 ≤ x.toInt ∧ x.toInt < 65536

/-- Names of ASCII characters other than the zero, given where one must be and not empty
where null is possible, and counts from 0 to 65535. -/
def PlainCall : StubCall → Prop
  | .new o n t => PlainName o ∧ PlainName n ∧ PlainCount t
  | .lookup o n => PlainName o ∧ PlainName n
  | .directory _ o n => PlainFilter o ∧ PlainFilter n
  | .howsdoing _ | .readentry _ => True
  | .givetreats _ t => PlainCount t
  | .collect o => PlainName o

section Names
variable {s : Option JString}

theorem cstr_append_zero (bs rest : List Byte) : cstr (bs ++ 0 :: rest) = cstr bs := by
  by_cases h : (0 : Byte) ∈ bs
  · exact cstr_append h _
  · have hall : ∀ b ∈ bs, decide (b ≠ 0) = true := by
      intro b hb
      simpa using fun hz : b = 0 => h (hz ▸ hb)
    apply CString.ext
    simp only [cstr, List.takeWhile_append_of_pos hall, List.takeWhile_eq_self_iff.mpr hall]
    simp

/-- A name that was checked leaves room for a zero. -/
theorem getStaticAscii_of_checked (h : checkNonNull s = .ok ()) :
    ∃ k, getStaticAscii s = (s.map asciiBytes).getD [] ++ 0 :: List.replicate k 0 := by
  cases s with
  | none => exact ⟨31, rfl⟩
  | some s =>
    have hl : (asciiBytes s).length ≤ 31 := by
      by_contra hl
      have hlong : staticStringSize - 1 < (asciiBytes s).length := Nat.not_le.mp hl
      rw [checkNonNull, checkString, if_pos hlong] at h
      cases h
    refine ⟨31 - (asciiBytes s).length, ?_⟩
    have hroom : 32 - (asciiBytes s).length = (31 - (asciiBytes s).length) + 1 := by omega
    rw [getStaticAscii, copyOf, staticStringSize, List.take_of_length_le (by omega), hroom,
      List.replicate_succ]
    rfl

theorem cstr_getStaticAscii (h : checkNonNull s = .ok ()) : cstr (getStaticAscii s) = wireName s := by
  obtain ⟨k, hk⟩ := getStaticAscii_of_checked h
  rw [hk, cstr_append_zero, wireName]

theorem zero_mem_getStaticAscii (h : checkNonNull s = .ok ()) : (0 : Byte) ∈ getStaticAscii s := by
  obtain ⟨k, hk⟩ := getStaticAscii_of_checked h
  rw [hk]
  exact List.mem_append_right _ List.mem_cons_self

end Names

section Server
variable {call : StubCall}

theorem length_arguments (call : StubCall) :
    (arguments call).length = documentedSize call.funcId := by
  cases call <;> simp [arguments, documentedSize, StubCall.funcId]

theorem field_append {front mid back : List Byte} {off n : Nat} (hf : front.length = off)
    (hm : mid.length = n) : field (front ++ (mid ++ back)) off n = mid := by
  rw [field, List.drop_left' hf, List.take_left' hm]

theorem field_front {mid back : List Byte} {n : Nat} (hm : mid.length = n) :
    field (mid ++ back) 0 n = mid := @field_append [] mid back 0 n rfl hm

theorem field_back {front mid : List Byte} {off n : Nat} (hf : front.length = off)
    (hm : mid.length = n) : field (front ++ mid) off n = mid := by
  have h := @field_append front mid [] off n hf hm
  rwa [List.append_nil] at h

theorem field_all {mid : List Byte} {n : Nat} (hm : mid.length = n) : field mid 0 n = mid :=
  List.take_of_length_le (Nat.le_of_eq hm)

/-- Each name stands in its field. -/
theorem name_fields (call : StubCall) :
    (nameOffsets call.funcId).map (fun off => field (arguments call) off 32) =
      (names call).map getStaticAscii := by
  cases call with
  | new o n t =>
    have ho : field (arguments (.new o n t)) 0 32 = getStaticAscii o := by
      rw [arguments, List.append_assoc, field_front (length_getStaticAscii o)]
    have hn : field (arguments (.new o n t)) 32 32 = getStaticAscii n := by
      rw [arguments, List.append_assoc, field_append (length_getStaticAscii o) (by simp)]
    exact congrArg₂ (fun a b => [a, b]) ho hn
  | lookup o n =>
    have ho : field (arguments (.lookup o n)) 0 32 = getStaticAscii o :=
      field_front (length_getStaticAscii o)
    have hn : field (arguments (.lookup o n)) 32 32 = getStaticAscii n :=
      field_back (length_getStaticAscii o) (length_getStaticAscii n)
    exact congrArg₂ (fun a b => [a, b]) ho hn
  | directory p o n =>
    have ho : field (arguments (.directory p o n)) 4 32 = getStaticAscii o := by
      rw [arguments, List.append_assoc, field_append (length_beBytes ..) (by simp)]
    have hn : field (arguments (.directory p o n)) 36 32 = getStaticAscii n :=
      field_back (by simp) (length_getStaticAscii n)
    exact congrArg₂ (fun a b => [a, b]) ho hn
  | collect o =>
    have ho : field (arguments (.collect o)) 0 32 = getStaticAscii o :=
      field_all (length_getStaticAscii o)
    exact congrArg (fun a => [a]) ho
  | howsdoing id | readentry id | givetreats id t => rfl

theorem terminated_arguments (hc : Checked call) :
    ∀ off ∈ nameOffsets call.funcId, (0 : Byte) ∈ field (arguments call) off 32 := by
  intro off hoff
  have hmem : field (arguments call) off 32 ∈ (names call).map getStaticAscii := by
    rw [← name_fields]
    exact List.mem_map_of_mem hoff
  obtain ⟨s, hs, he⟩ := List.mem_map.mp hmem
  rw [← he]
  exact zero_mem_getStaticAscii (hc s hs)

theorem documentedSize_lt (id : BitVec 16) : documentedSize id < 2 ^ 16 := by
  unfold documentedSize
  split <;> decide

/-- The request is one the protocol knows. -/
def asRequest (msgId : BitVec 32) (call : StubCall) (hc : Checked call) : Request where
  header := requestHeader msgId call
  payload := arguments call
  known := known_funcId call
  size := length_arguments call
  paySize := by
    rw [requestHeader, BitVec.toNat_ofNat, Nat.mod_eq_of_lt]
    rw [length_arguments]
    exact documentedSize_lt _
  terminated := terminated_arguments hc

theorem documentedCall_arguments (hc : Checked call) :
    documentedCall (arguments call) call.funcId = wireCall call := by
  have hint (x : BitVec 32) : BitVec.ofNat 32 (beNat (beBytes 4 x.toNat)) = x :=
    beNat_beBytes (by norm_num) x
  have hshort (x : BitVec 16) : BitVec.ofNat 16 (beNat (beBytes 2 x.toNat)) = x :=
    beNat_beBytes (by norm_num) x
  have hfields := name_fields call
  have hname : ∀ s ∈ names call, cstr (getStaticAscii s) = wireName s := fun s hs =>
    cstr_getStaticAscii (hc s hs)
  cases call with
  | new o n t =>
    have ho : field (arguments (.new o n t)) 0 32 = getStaticAscii o :=
      (List.cons_eq_cons.mp hfields).1
    have hn : field (arguments (.new o n t)) 32 32 = getStaticAscii n :=
      List.head_eq_of_cons_eq (List.cons_eq_cons.mp hfields).2
    have ht : field (arguments (.new o n t)) 64 2 = beBytes 2 (wireCount t).toNat :=
      field_back (by simp) (length_beBytes ..)
    show Call.new (cstr (field _ 0 32)) (cstr (field _ 32 32)) (.ofNat 16 (beNat (field _ 64 2))) = _
    rw [ho, hn, ht, hshort, hname o (by simp [names]),
      hname n (by simp [names]), wireCall]
  | lookup o n =>
    have ho : field (arguments (.lookup o n)) 0 32 = getStaticAscii o :=
      (List.cons_eq_cons.mp hfields).1
    have hn : field (arguments (.lookup o n)) 32 32 = getStaticAscii n :=
      List.head_eq_of_cons_eq (List.cons_eq_cons.mp hfields).2
    show Call.lookup (some (cstr (field _ 0 32))) (some (cstr (field _ 32 32))) = _
    rw [ho, hn, hname o (by simp [names]), hname n (by simp [names]),
      wireCall]
  | directory p o n =>
    have ho : field (arguments (.directory p o n)) 4 32 = getStaticAscii o :=
      (List.cons_eq_cons.mp hfields).1
    have hn : field (arguments (.directory p o n)) 36 32 = getStaticAscii n :=
      List.head_eq_of_cons_eq (List.cons_eq_cons.mp hfields).2
    have hp : field (arguments (.directory p o n)) 0 4 = beBytes 4 p.toNat := by
      rw [arguments, List.append_assoc, field_front (length_beBytes ..)]
    show Call.directory (BitVec.ofNat 32 (beNat (field _ 0 4))).toInt (textOpt _ 4) (textOpt _ 36) = _
    rw [textOpt, textOpt, text, text, ho, hn, hp, hint,
      hname o (by simp [names]), hname n (by simp [names]), wireCall, wireFilter, wireFilter]
  | howsdoing id =>
    have hid : field (arguments (.howsdoing id)) 0 4 = beBytes 4 (id.getD 0).toNat :=
      field_all (length_beBytes ..)
    show Call.howsdoing (.ofNat 32 (beNat (field _ 0 4))) = _
    rw [hid, hint, wireCall]
  | readentry id =>
    have hid : field (arguments (.readentry id)) 0 4 = beBytes 4 (id.getD 0).toNat :=
      field_all (length_beBytes ..)
    show Call.readentry (.ofNat 32 (beNat (field _ 0 4))) = _
    rw [hid, hint, wireCall]
  | givetreats id t =>
    have hid : field (arguments (.givetreats id t)) 0 4 = beBytes 4 (id.getD 0).toNat :=
      field_front (length_beBytes ..)
    have ht : field (arguments (.givetreats id t)) 4 2 = beBytes 2 (wireCount t).toNat :=
      field_back (length_beBytes ..) (length_beBytes ..)
    show Call.givetreats (.ofNat 32 (beNat (field _ 0 4))) (.ofNat 16 (beNat (field _ 4 2))) = _
    rw [hid, ht, hint, hshort, wireCall]
  | collect o =>
    have ho : field (arguments (.collect o)) 0 32 = getStaticAscii o := List.head_eq_of_cons_eq hfields
    show Call.collect (some (cstr (field _ 0 32))) = _
    rw [ho, hname o (by simp [names]), wireCall]

end Server

section Limits
variable {s : JString}

theorem lt_of_mem_asciiBytes : ∀ {s : JString} {b : Byte}, b ∈ asciiBytes s → b.toNat < 128
  | [], b, h => nomatch h
  | [c], b, h => by
    have hb : b = if c.toNat < 128 then c.setWidth 8 else 63 := List.mem_singleton.mp h
    subst hb
    split
    · rw [BitVec.toNat_setWidth]
      omega
    · decide
  | c :: d :: s, b, h => by
    rw [asciiBytes] at h
    split at h
    · rcases List.mem_cons.mp h with rfl | h
      · rw [BitVec.toNat_setWidth]
        omega
      · exact lt_of_mem_asciiBytes h
    · split at h
      · rcases List.mem_cons.mp h with rfl | h
        · decide
        · exact lt_of_mem_asciiBytes h
      · rcases List.mem_cons.mp h with rfl | h
        · decide
        · exact lt_of_mem_asciiBytes h

theorem wireName_of_plain (h : Plain s) : (wireName (some s)).chars = s.map (·.setWidth 8) := by
  have hascii : asciiBytes s = s.map (·.setWidth 8) := asciiBytes_of_lt fun c hc => (h c hc).2
  rw [wireName, Option.map_some, Option.getD_some, cstr, hascii, List.takeWhile_eq_self_iff]
  intro b hb
  obtain ⟨c, hc, rfl⟩ := List.mem_map.mp hb
  obtain ⟨hpos, hlt⟩ := h c hc
  have hne : c.setWidth 8 ≠ 0 := by
    intro he
    have hz : c.toNat % 2 ^ 8 = 0 := by
      rw [← BitVec.toNat_setWidth, he]
      rfl
    omega
  exact decide_eq_true hne

/-- A name that arrives whole is plain: the bytes sent are ASCII, and were there a zero
among them there would be fewer than characters. -/
theorem spells_wireName_iff : Spells (some s) (some (wireName (some s))) ↔ Plain s := by
  constructor
  · intro h
    have hchars : s.map (·.toNat) = ((asciiBytes s).takeWhile (· ≠ 0)).map (·.toNat) := h
    intro c hc
    have hmem : c.toNat ∈ ((asciiBytes s).takeWhile (· ≠ 0)).map (·.toNat) := by
      rw [← hchars]
      exact List.mem_map_of_mem hc
    obtain ⟨b, hb, he⟩ := List.mem_map.mp hmem
    have hne : b ≠ 0 := by simpa using List.mem_takeWhile_imp hb
    have hpos : b.toNat ≠ 0 := fun hz => hne (BitVec.eq_of_toNat_eq hz)
    have hlt : b.toNat < 128 := lt_of_mem_asciiBytes (List.takeWhile_subset _ hb)
    omega
  · intro h
    show s.map (·.toNat) = (wireName (some s)).chars.map (·.toNat)
    rw [wireName_of_plain h, List.map_map]
    refine List.map_congr_left fun c hc => ?_
    have hlt := (h c hc).2
    show c.toNat = (c.setWidth 8).toNat
    rw [BitVec.toNat_setWidth]
    omega

theorem spells_name_iff (s : Option JString) :
    Spells s (some (wireName s)) ↔ PlainName s := by
  cases s with
  | none => exact iff_of_false id fun ⟨x, hx, _⟩ => nomatch hx
  | some s =>
    rw [spells_wireName_iff]
    exact ⟨fun h => ⟨s, rfl, h⟩, fun ⟨x, hx, h⟩ => Option.some.inj hx ▸ h⟩

theorem spells_filter_iff (s : Option JString) : Spells s (wireFilter s) ↔ PlainFilter s := by
  cases s with
  | none => exact iff_of_true trivial fun x hx => nomatch hx
  | some s =>
    have hplain : PlainFilter (some s) ↔ s ≠ [] ∧ Plain s :=
      ⟨fun h => h s rfl, fun h x hx => Option.some.inj hx ▸ h⟩
    rw [hplain, wireFilter]
    split
    · rename_i hempty
      refine iff_of_false id fun ⟨hne, h⟩ => hne ?_
      rwa [wireName_of_plain h, List.map_eq_nil_iff] at hempty
    · rename_i hempty
      rw [spells_wireName_iff]
      refine ⟨fun h => ⟨fun he => ?_, h⟩, And.right⟩
      rw [wireName_of_plain h, he] at hempty
      exact hempty rfl

theorem count_iff {t : Option (BitVec 32)} (h : t.isSome) :
    t.map (·.toInt) = some ((wireCount t).toNat : Int) ↔ PlainCount t := by
  obtain ⟨x, rfl⟩ := Option.isSome_iff_exists.mp h
  have hcut : (x.setWidth 16).toNat = x.toNat % 65536 := BitVec.toNat_setWidth 16 x
  have hx : x.toNat < 2 ^ 32 := x.isLt
  have hplain : PlainCount (some x) ↔ 0 ≤ x.toInt ∧ x.toInt < 65536 :=
    ⟨fun h => h x rfl, fun h y hy => Option.some.inj hy ▸ h⟩
  rw [hplain, Option.map_some, Option.some_inj, wireCount, Option.getD_some, hcut,
    BitVec.toInt_eq_toNat_cond]
  split <;> omega

theorem id_eq {id : Option (BitVec 32)} (h : id.isSome) : id = some (id.getD 0) := by
  obtain ⟨x, rfl⟩ := Option.isSome_iff_exists.mp h
  rfl

theorem unaltered_iff {call : StubCall} (hs : Sends call) :
    Unaltered call (wireCall call) ↔ PlainCall call := by
  cases call with
  | new o n t =>
    exact and_congr (spells_name_iff o) (and_congr (spells_name_iff n) (count_iff hs.2.2))
  | lookup o n =>
    exact and_congr (spells_name_iff o) (spells_name_iff n)
  | directory p o n =>
    exact (and_iff_right rfl).trans (and_congr (spells_filter_iff o) (spells_filter_iff n))
  | howsdoing id | readentry id => exact iff_of_true (id_eq hs) trivial
  | givetreats id t => exact (and_iff_right (id_eq hs.1)).trans (count_iff hs.2)
  | collect o => exact spells_name_iff o

end Limits

section Decoded
variable {c c' : Connection} {call : StubCall} {msgId : BitVec 32} {msg : List Byte}

/-- However it comes to lie in the buffers. -/
theorem decoded_request (hc : Checked call) {headerStream payloadStream : Mem}
    (hh : peek headerStream 0 8 = (requestBytes msgId call).take 8)
    (hp : peek payloadStream 0 ((requestBytes msgId call).drop 8).length =
      (requestBytes msgId call).drop 8) (junk : Scratch) :
    (decodeHeader headerStream).paySize.toNat = ((requestBytes msgId call).drop 8).length ∧
      requestedCall (decodeHeader headerStream).rpcID payloadStream junk = some (wireCall call) := by
  have htake : (requestBytes msgId call).take 8 = headerBytes (requestHeader msgId call) :=
    List.take_left' (length_headerBytes _)
  have hdrop : (requestBytes msgId call).drop 8 = arguments call :=
    List.drop_left' (length_headerBytes _)
  rw [htake] at hh
  rw [hdrop] at hp ⊢
  rw [decodeHeader_of_bytes hh]
  refine ⟨(asRequest msgId call hc).paySize, ?_⟩
  rw [← documentedCall_arguments hc]
  exact requestedCall_eq (asRequest msgId call hc) hp junk

theorem arrives_iff (hc : Checked call) (hs : Sends call) :
    Arrives call (requestBytes msgId call) ↔ PlainCall call := by
  rw [← unaltered_iff hs]
  constructor
  · intro ha
    have hh := peek_poke_header (fun _ => 0) (requestHeader msgId call)
    have hp : peek (poke (fun _ => 0) 0 ((requestBytes msgId call).drop 8)) 0
        ((requestBytes msgId call).drop 8).length = (requestBytes msgId call).drop 8 := peek_poke _
    have junk : Scratch := ⟨fun _ => 0, fun _ => 0, fun _ => 0, [], [], blankState, 0⟩
    have htake : headerBytes (requestHeader msgId call) = (requestBytes msgId call).take 8 :=
      (List.take_left' (length_headerBytes _)).symm
    obtain ⟨d, hd, hu⟩ := ha _ _ junk (hh.trans htake) hp
    rw [(decoded_request hc (hh.trans htake) hp junk).2] at hd
    rwa [Option.some.inj hd]
  · intro hu headerStream payloadStream junk hh hp
    exact ⟨_, (decoded_request hc hh hp junk).2, hu⟩

end Decoded

/-- The server reads the whole message and makes the call whose arguments are the
caller's, encoded; they are the caller's themselves exactly for a plain call. -/
theorem request_arrives {c c' : Connection} {call : StubCall} {msgId : BitVec 32}
    {msg : List Byte} (h : c.request call = .ok (msgId, msg, c')) (hc : Checked call) :
    (∀ (headerStream payloadStream : Mem) (junk : Scratch),
      peek headerStream 0 8 = msg.take 8 →
      peek payloadStream 0 (msg.drop 8).length = msg.drop 8 →
      (decodeHeader headerStream).paySize.toNat = (msg.drop 8).length ∧
        requestedCall (decodeHeader headerStream).rpcID payloadStream junk =
          some (wireCall call)) ∧
    (Arrives call msg ↔ PlainCall call) := by
  obtain ⟨hs, -, rfl, -⟩ := request_eq_ok h
  exact ⟨fun _ _ junk hh hp => decoded_request hc hh hp junk, arrives_iff hc hs⟩

/-- "c" brings "d" with three treats. -/
def welcome : StubCall := .new (some [99]) (some [100]) (some 3)

theorem plainCall_welcome : PlainCall welcome := by
  refine ⟨⟨[99], rfl, by decide⟩, ⟨[100], rfl, by decide⟩, fun x hx => ?_⟩
  obtain rfl : x = 3 := (Option.some.inj hx).symm
  decide

theorem sends_welcome : Sends welcome := ⟨rfl, rfl, rfl⟩

theorem welcome_arrives : Arrives welcome (requestBytes 0 welcome) :=
  (request_arrives (request_of_sends (.opened false) sends_welcome) (by decide)).2.mpr
    plainCall_welcome

/-- The owner "ä" has no US-ASCII name. -/
def umlaut : StubCall := .collect (some [0xE4])

/-- The library is asked about the owner "?". -/
theorem umlaut_altered :
    (Connection.opened false).request umlaut = .ok (0, requestBytes 0 umlaut, ⟨1, false, false⟩) ∧
      ¬ Arrives umlaut (requestBytes 0 umlaut) := by
  have hs : Sends umlaut := trivial
  have hc : Checked umlaut := by decide
  refine ⟨request_of_sends _ hs, fun ha => ?_⟩
  obtain ⟨x, hx, hplain⟩ : PlainName (some [0xE4]) := (arrives_iff hc hs).mp ha
  rw [← Option.some.inj hx] at hplain
  exact absurd hplain (by decide)

end Hamster.Contract.Arguments
