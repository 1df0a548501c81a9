import Hamster.Server.Handlers

/-!
# Requests as the protocol documents them

What a well-formed request is, and the library call it asks for, read off its
bytes. The handlers find just that call; given any other request they make the call
that the first bytes of their buffer stand for.
-/
namespace Hamster.Server.Protocol

open Lib.Bytes Lib.Memory Wire Messages Handlers Store.Entry Store.Library

/-- The marshalled size of a call's in arguments. -/
def documentedSize (rpcID : BitVec 16) : Nat :=
  match rpcID.toNat with
  | 1 => 66
  | 2 => 64
  | 3 => 68
  | 4 => 4
  | 5 => 4
  | 6 => 6
  | _ => 32

/-- Where its name fields begin. -/
def nameOffsets (rpcID : BitVec 16) : List Nat :=
  match rpcID.toNat with
  | 1 | 2 => [0, 32]
  | 3 => [4, 36]
  | 7 => [0]
  | _ => []

section Fields
variable (payload : List Byte)

def field (off n : Nat) : List Byte := (payload.drop off).take n

def word (bits off n : Nat) : BitVec bits := BitVec.ofNat bits (beNat (field payload off n))

def text (off : Nat) : CString := cstr (field payload off 32)

/-- The empty name stands for a null pointer. -/
def textOpt (off : Nat) : Option CString :=
  if (text payload off).chars = [] then none else some (text payload off)

/-- The arguments stand in the order of the parameter list. -/
def documentedCall (rpcID : BitVec 16) : Call Int :=
  match rpcID.toNat with
  | 1 => .new (text payload 0) (text payload 32) (word payload 16 64 2)
  | 2 => .lookup (some (text payload 0)) (some (text payload 32))
  | 3 => .directory (word payload 32 0 4).toInt (textOpt payload 4) (textOpt payload 36)
  | 4 => .howsdoing (word payload 32 0 4)
  | 5 => .readentry (word payload 32 0 4)
  | 6 => .givetreats (word payload 32 0 4) (word payload 16 4 2)
  | _ => .collect (some (text payload 0))

end Fields

structure Request where
  header : Header
  payload : List Byte
  known : 1 ≤ header.rpcID.toNat ∧ header.rpcID.toNat ≤ 7
  size : payload.length = documentedSize header.rpcID
  paySize : header.paySize.toNat = payload.length
  terminated : ∀ off ∈ nameOffsets header.rpcID, (0 : Byte) ∈ field payload off 32

namespace Request

def call (q : Request) : Call Int := documentedCall q.payload q.header.rpcID

end Request

theorem decodeHeader_of_bytes {m : Mem} {h : Header} (hm : peek m 0 8 = headerBytes h) :
    decodeHeader m = h := by
  have hat {off n : Nat} (hle : off + n ≤ 8) : peek m off n = ((headerBytes h).drop off).take n :=
    peek_of_content (by rw [length_headerBytes, hm]) (by rw [length_headerBytes]; exact hle)
  have hword (x : BitVec 16) : BitVec.ofNat 16 (beNat (beBytes 2 x.toNat)) = x :=
    beNat_beBytes (by norm_num) x
  have hversion : peek m 0 1 = [h.version] := by rw [hat (by decide)]; simp [headerBytes]
  have hflag : peek m 1 1 = [h.flag] := by rw [hat (by decide)]; simp [headerBytes]
  have hmsg : peek m 2 2 = beBytes 2 h.msgID.toNat := by
    rw [hat (by decide)]; simp [headerBytes]
  have hpay : peek m 4 2 = beBytes 2 h.paySize.toNat := by
    rw [hat (by decide)]; simp [headerBytes]
  have hrpc : peek m 6 2 = beBytes 2 h.rpcID.toNat := by
    rw [hat (by decide)]; simp [headerBytes, List.drop_append, List.drop_eq_nil_of_le]
  have hv : m 0 = h.version := List.head_eq_of_cons_eq hversion
  have hf : m 1 = h.flag := List.head_eq_of_cons_eq hflag
  simp only [decodeHeader, rpcDecodeOctet, rpcDecodeUint16_eq, hv, hf, hmsg, hpay, hrpc, hword]

section Arguments
variable {m : Mem} {payload : List Byte} (hm : peek m 0 payload.length = payload)
include hm

theorem rpcDecodeInt32_of_payload {off : Nat} (h : off + 4 ≤ payload.length) :
    rpcDecodeInt32 m off = word payload 32 off 4 := by
  rw [rpcDecodeInt32_eq, peek_of_content hm h]
  rfl

theorem rpcDecodeUint16_of_payload {off : Nat} (h : off + 2 ≤ payload.length) :
    rpcDecodeUint16 m off = word payload 16 off 2 := by
  rw [rpcDecodeUint16_eq, peek_of_content hm h]
  rfl

/-- A name with a zero in its field ends there, whatever lies behind the array. -/
theorem nameArg_of_payload {off : Nat} (h : off + 32 ≤ payload.length)
    (hz : (0 : Byte) ∈ field payload off 32) (behind : List Byte) :
    nameArg m off behind = text payload off := by
  rw [nameArg, rpcDecodeSstring, peek_of_content hm h, text, field]
  exact cstr_append hz behind

theorem nameArgOpt_of_payload {off : Nat} (h : off + 32 ≤ payload.length)
    (hz : (0 : Byte) ∈ field payload off 32) (behind : List Byte) :
    nameArgOpt m off behind = textOpt payload off := by
  have hfirst : m off :: peek m (off + 1) 31 = field payload off 32 := by
    rw [field, ← peek_of_content hm h, show (32 : Nat) = 1 + 31 from rfl, peek_add]
    rfl
  have hempty : (text payload off).chars = [] ↔ m off = 0 := by
    rw [text, ← hfirst]
    simp [cstr, List.takeWhile_cons]
  simp only [nameArgOpt, textOpt, nameArg_of_payload hm h hz behind, hempty]

end Arguments

/-- The seven call ids. -/
theorem cases_known {id : BitVec 16} (h : 1 ≤ id.toNat ∧ id.toNat ≤ 7) : id.toNat = 1 ∨
    id.toNat = 2 ∨ id.toNat = 3 ∨ id.toNat = 4 ∨ id.toNat = 5 ∨ id.toNat = 6 ∨ id.toNat = 7 := by
  omega

theorem Request.cases_rpcID (q : Request) : q.header.rpcID.toNat = 1 ∨ q.header.rpcID.toNat = 2 ∨
    q.header.rpcID.toNat = 3 ∨ q.header.rpcID.toNat = 4 ∨ q.header.rpcID.toNat = 5 ∨
      q.header.rpcID.toNat = 6 ∨ q.header.rpcID.toNat = 7 := cases_known q.known

theorem requestedCall_eq (q : Request) {m : Mem} (hm : peek m 0 q.payload.length = q.payload)
    (junk : Scratch) : requestedCall q.header.rpcID m junk = some q.call := by
  have hsize := q.size
  have hz := q.terminated
  unfold documentedSize at hsize
  unfold nameOffsets at hz
  unfold requestedCall Request.call documentedCall
  rcases q.cases_rpcID with h | h | h | h | h | h | h
  · simp only [h, List.mem_cons, List.not_mem_nil, or_false, forall_eq_or_imp, forall_eq] at hsize hz ⊢
    rw [nameArg_of_payload hm (by omega) hz.1, nameArg_of_payload hm (by omega) hz.2,
      rpcDecodeUint16_of_payload hm (by omega)]
  · simp only [h, List.mem_cons, List.not_mem_nil, or_false, forall_eq_or_imp, forall_eq] at hsize hz ⊢
    rw [nameArg_of_payload hm (by omega) hz.1, nameArg_of_payload hm (by omega) hz.2]
  · simp only [h, List.mem_cons, List.not_mem_nil, or_false, forall_eq_or_imp, forall_eq] at hsize hz ⊢
    rw [nameArgOpt_of_payload hm (by omega) hz.1, nameArgOpt_of_payload hm (by omega) hz.2,
      rpcDecodeInt32_of_payload hm (by omega)]
  · simp only [h] at hsize ⊢
    rw [rpcDecodeInt32_of_payload hm (by omega)]
  · simp only [h] at hsize ⊢
    rw [rpcDecodeInt32_of_payload hm (by omega)]
  · simp only [h] at hsize ⊢
    rw [rpcDecodeInt32_of_payload hm (by omega), rpcDecodeUint16_of_payload hm (by omega)]
  · simp only [h, List.mem_cons, List.not_mem_nil, or_false, forall_eq] at hsize hz ⊢
    rw [nameArg_of_payload hm (by omega) hz]

/-- Any header, with as many bytes behind it as it announces. -/
structure Packet where
  header : Header
  payload : List Byte
  complete : payload.length = header.paySize.toNat

/-- The same name, or two that are refused for their length. -/
def SameName (s t : Option CString) : Prop := s = t ∨ (tooLongOpt s = true ∧ tooLongOpt t = true)

section Names
variable {w : World} {o o' n n' : Option CString}

theorem SameName.tooLong_or (ho : SameName o o') (hn : SameName n n') :
    (tooLongOpt o || tooLongOpt n) = (tooLongOpt o' || tooLongOpt n') := by
  rcases ho with rfl | ⟨h, h'⟩
  · rcases hn with rfl | ⟨h, h'⟩
    · rfl
    · rw [h, h']
  · rw [h, h', Bool.true_or, Bool.true_or]

theorem SameName.eq (h : SameName o o') (hl : tooLongOpt o = false) : o = o' := by
  rcases h with rfl | ⟨h, -⟩
  · rfl
  · rw [hl] at h
    cases h

/-- A name that fills its array is refused, whatever it runs on into. -/
theorem sameName_append (bs behind : List Byte) (hl : bs.length = 32) :
    SameName (some (cstr (bs ++ behind))) (some (cstr bs)) := by
  by_cases hz : (0 : Byte) ∈ bs
  · exact .inl (congrArg some (cstr_append hz behind))
  · have hall : ∀ b ∈ bs, decide (b ≠ 0) = true := by
      intro b hb
      simpa using fun h : b = 0 => hz (h ▸ hb)
    refine .inr ⟨?_, ?_⟩
    all_goals
      simp only [tooLongOpt, Option.any_some, tooLong, CString.strlen, cstr, hmstrMaxName,
        List.takeWhile_append_of_pos hall, List.takeWhile_eq_self_iff.mpr hall, List.length_append,
        hl, decide_eq_true_eq]
      omega

/-- Names that are too long are not looked at. -/
theorem new_sameName {o o' n n' : CString} (ho : SameName (some o) (some o'))
    (hn : SameName (some n) (some n')) (t : BitVec 16) :
    hmstrNew w o n t = hmstrNew w o' n' t := by
  have hor : (tooLong o || tooLong n) = (tooLong o' || tooLong n') := ho.tooLong_or hn
  cases hl : tooLong o || tooLong n with
  | true => simp only [hmstrNew, ← hor, hl, ↓reduceIte]
  | false =>
    obtain ⟨hlo, hln⟩ := Bool.or_eq_false_iff.mp hl
    rw [Option.some.inj (ho.eq hlo), Option.some.inj (hn.eq hln)]

theorem lookup_sameName {o o' n n' : CString} (ho : SameName (some o) (some o'))
    (hn : SameName (some n) (some n')) :
    hmstrLookup w (some o) (some n) = hmstrLookup w (some o') (some n') := by
  have hor : (tooLong o || tooLong n) = (tooLong o' || tooLong n') := ho.tooLong_or hn
  cases hl : tooLong o || tooLong n with
  | true => simp only [hmstrLookup, ← hor, hl, ↓reduceIte]
  | false =>
    obtain ⟨hlo, hln⟩ := Bool.or_eq_false_iff.mp hl
    rw [ho.eq hlo, hn.eq hln]

theorem directory_sameName (ho : SameName o o') (hn : SameName n n') (fdptr : Int) :
    hmstrDirectory w fdptr o n = hmstrDirectory w fdptr o' n' := by
  have hor := ho.tooLong_or hn
  cases hl : tooLongOpt o || tooLongOpt n with
  | true => simp only [hmstrDirectory, ← hor, hl, ↓reduceIte]
  | false =>
    obtain ⟨hlo, hln⟩ := Bool.or_eq_false_iff.mp hl
    rw [ho.eq hlo, hn.eq hln]

theorem collect_sameName (ho : SameName o o') : hmstrCollect w o = hmstrCollect w o' := by
  rcases ho with rfl | ⟨h, h'⟩
  · rfl
  · match o, o' with
    | some o, some o' =>
      have hl : tooLong o = true := h
      have hl' : tooLong o' = true := h'
      simp only [hmstrCollect, hl, hl', ↓reduceIte]

end Names

section AnySize
variable (m : Mem) (junk : Scratch)

/-- The bytes of a field that the buffer begins with. -/
theorem field_peek {n off k : Nat} (h : off + k ≤ n) : field (peek m 0 n) off k = peek m off k := by
  have hn : peek m 0 (peek m 0 n).length = peek m 0 n := by rw [length_peek]
  exact (peek_of_content hn (by rw [length_peek]; exact h)).symm

theorem nameArg_sameName (off : Nat) (behind : List Byte) {n : Nat} (h : off + 32 ≤ n) :
    SameName (some (nameArg m off behind)) (some (text (peek m 0 n) off)) := by
  rw [text, field_peek m h]
  exact sameName_append _ behind (length_peek ..)

theorem nameArgOpt_sameName (off : Nat) (behind : List Byte) {n : Nat} (h : off + 32 ≤ n) :
    SameName (nameArgOpt m off behind) (textOpt (peek m 0 n) off) := by
  have hfield : field (peek m 0 n) off 32 = m off :: peek m (off + 1) 31 := by
    rw [field_peek m h, show (32 : Nat) = 1 + 31 from rfl, peek_add]
    rfl
  have hempty : (text (peek m 0 n) off).chars = [] ↔ m off = 0 := by
    rw [text, hfield]
    simp [cstr, List.takeWhile_cons]
  unfold nameArgOpt textOpt
  simp only [hempty]
  split
  · exact .inl rfl
  · exact nameArg_sameName m off behind h

/-- What the library does for a request is what it does for the documented call on the
first bytes of the buffer, also where a name has no zero in it. -/
theorem requestedCall_exec (w : World) {id : BitVec 16} (hid : 1 ≤ id.toNat ∧ id.toNat ≤ 7) :
    ∃ c, requestedCall id m junk = some c ∧
      c.exec w = (documentedCall (peek m 0 (documentedSize id)) id).exec w := by
  have hint (n : Nat) {off : Nat} (h : off + 4 ≤ n) :
      rpcDecodeInt32 m off = word (peek m 0 n) 32 off 4 :=
    rpcDecodeInt32_of_payload (by rw [length_peek]) (by rw [length_peek]; exact h)
  have hshort (n : Nat) {off : Nat} (h : off + 2 ≤ n) :
      rpcDecodeUint16 m off = word (peek m 0 n) 16 off 2 :=
    rpcDecodeUint16_of_payload (by rw [length_peek]) (by rw [length_peek]; exact h)
  have hname (n off : Nat) (behind : List Byte) (h : off + 32 ≤ n) :=
    nameArg_sameName m off behind h
  have hopt (n off : Nat) (behind : List Byte) (h : off + 32 ≤ n) :=
    nameArgOpt_sameName m off behind h
  unfold requestedCall documentedCall documentedSize
  rcases cases_known hid with h | h | h | h | h | h | h
  all_goals simp only [h]; refine ⟨_, rfl, ?_⟩
  · rw [exec_new, exec_new, ← hshort 66 (by decide),
      new_sameName (hname 66 0 _ (by decide)) (hname 66 32 _ (by decide))]
  · rw [exec_lookup, exec_lookup,
      lookup_sameName (hname 64 0 _ (by decide)) (hname 64 32 _ (by decide))]
  · rw [exec_directory, exec_directory, ← hint 68 (by decide),
      directory_sameName (hopt 68 4 _ (by decide)) (hopt 68 36 _ (by decide))]
  · rw [hint 4 (by decide)]
  · rw [hint 4 (by decide)]
  · rw [hint 6 (by decide), hshort 6 (by decide)]
  · rw [exec_collect, exec_collect, collect_sameName (hname 32 0 _ (by decide))]

end AnySize

/-- The documented call does not depend on what follows the documented size. -/
theorem documentedCall_take (payload : List Byte) {id : BitVec 16}
    (hid : 1 ≤ id.toNat ∧ id.toNat ≤ 7) :
    documentedCall (payload.take (documentedSize id)) id = documentedCall payload id := by
  have hfield {k off n : Nat} (h : off + n ≤ k) :
      field (payload.take k) off n = field payload off n := by
    rw [field, field, List.drop_take, List.take_take, Nat.min_eq_left (by omega)]
  have htext {k off : Nat} (h : off + 32 ≤ k) : text (payload.take k) off = text payload off := by
    rw [text, hfield h, text]
  have hopt {k off : Nat} (h : off + 32 ≤ k) :
      textOpt (payload.take k) off = textOpt payload off := by
    rw [textOpt, htext h, textOpt]
  have hword {bits k off n : Nat} (h : off + n ≤ k) :
      word (payload.take k) bits off n = word payload bits off n := by
    rw [word, hfield h, word]
  unfold documentedCall documentedSize
  rcases cases_known hid with h | h | h | h | h | h | h
  all_goals simp only [h]
  · rw [htext (by decide), htext (by decide), hword (by decide)]
  · rw [htext (by decide), htext (by decide)]
  · rw [hopt (by decide), hopt (by decide), hword (by decide)]
  · rw [hword (by decide)]
  · rw [hword (by decide)]
  · rw [hword (by decide), hword (by decide)]
  · rw [htext (by decide)]

end Hamster.Server.Protocol
