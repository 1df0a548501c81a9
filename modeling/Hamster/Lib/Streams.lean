import Hamster.Lib.Java

/-!
# Input streams in general

Any `java.io.InputStream`, by what its `read` documents: it blocks until a byte is there
and returns as many as it likes, at least one, at most as many as were asked for. A
stream that writes down what it is asked observes a program from outside.
-/
namespace Hamster.Lib.Streams

open Bytes Posix Java

/-- `left` are bytes that are certain to come. What a request for more than these brings is
left open: the end of the stream, an error, or more. -/
structure InputStream (σ : Type) where
  next : σ → Nat → Option (List Byte) × σ
  left : σ → List Byte
  next_left : ∀ {s : σ} {n : Nat}, 0 < n → n ≤ (left s).length →
    ∃ bs s', next s n = (some bs, s') ∧ bs ≠ [] ∧ bs.length ≤ n ∧ left s = bs ++ left s'

namespace InputStream

/-- `read(array, off, len)` -/
def readInto {σ : Type} (S : InputStream σ) (s : σ) (array : List Byte) (off len : Int) :
    Except JavaException (Int × List Byte × σ) :=
  if off < 0 ∨ len < 0 ∨ array.length - off < len then .error .indexOutOfBounds
  else if len = 0 then .ok (0, array, s)
  else
    match S.next s len.toNat with
    | (none, _) => .error .io
    | (some [], s) => .ok (-1, array, s)
    | (some (b :: bs), s) => .ok ((b :: bs).length, fillAt array off.toNat (b :: bs), s)

/-- The same stream, with every state it was asked in and for how many bytes. -/
def recorded {σ : Type} (S : InputStream σ) : InputStream (σ × List (σ × Nat)) where
  next s n := ((S.next s.1 n).1, (S.next s.1 n).2, s.2 ++ [(s.1, n)])
  left s := S.left s.1
  next_left := by
    intro s n hpos hn
    obtain ⟨bs, s', hnext, hne, hlen, hleft⟩ := S.next_left hpos hn
    exact ⟨bs, (s', s.2 ++ [(s.1, n)]), by rw [hnext], hne, hlen, hleft⟩

theorem read_left {rx : Rx} {n : Nat} (hpos : 0 < n) (hn : n ≤ rx.bytes.length) :
    ∃ bs rx', rx.read n = (some bs, rx') ∧ bs ≠ [] ∧ bs.length ≤ n ∧
      rx.bytes = bs ++ rx'.bytes := by
  have hs : rx.segments ≠ [] := by
    intro h
    rw [Rx.bytes, h, List.flatten_nil, List.length_nil] at hn
    omega
  obtain ⟨bs, hread, hne, hlen, hbytes⟩ := Rx.read_some (Nat.ne_of_gt hpos) hs
  exact ⟨bs, (rx.read n).2, Prod.ext hread rfl, hne, hlen, hbytes⟩

/-- A connection, of which a read takes what has arrived. -/
def ofRx : InputStream Rx where
  next := Rx.read
  left := Rx.bytes
  next_left := read_left

theorem readInto_ofRx (rx : Rx) (array : List Byte) (off len : Int) :
    ofRx.readInto rx array off len = Java.readInto rx array off len := by
  have hnext : ofRx.next rx len.toNat = rx.read len.toNat := rfl
  rw [readInto, Java.readInto, hnext]
  rcases rx.read len.toNat with ⟨_ | _ | ⟨b, bs⟩, rx'⟩
  · rfl
  · rfl
  · rfl

section Reading
variable {σ : Type} {S : InputStream σ} {s : σ} {array : List Byte}

/-- Where the rest of the array is certain to come, a read brings some of it. -/
theorem readInto_left {off : Nat} (hoff : off < array.length)
    (hleft : array.length - off ≤ (S.left s).length) :
    ∃ bs s', S.next s (array.length - off) = (some bs, s') ∧ bs ≠ [] ∧
      off + bs.length ≤ array.length ∧ S.left s = bs ++ S.left s' ∧
      S.readInto s array off (array.length - off) = .ok (bs.length, fillAt array off bs, s') := by
  obtain ⟨bs, s', hnext, hne, hlen, hbytes⟩ := S.next_left (by omega) hleft
  refine ⟨bs, s', hnext, hne, by omega, hbytes, ?_⟩
  have hlen' : ((array.length : Int) - off).toNat = array.length - off := by omega
  rw [readInto, if_neg (by omega), if_neg (by omega), hlen', hnext]
  obtain ⟨b, bs, rfl⟩ := List.exists_cons_of_ne_nil hne
  rfl

/-- The record changes nothing of what is read. -/
theorem readInto_recorded (s : σ × List (σ × Nat)) (array : List Byte) (off len : Int) :
    S.readInto s.1 array off len =
      (S.recorded.readInto s array off len).map fun x => (x.1, x.2.1, x.2.2.1) := by
  rw [readInto, readInto]
  split
  · rfl
  · split
    · rfl
    · rw [recorded]
      dsimp only
      rcases S.next s.1 len.toNat with ⟨_ | _ | ⟨b, bs⟩, s'⟩
      · rfl
      · rfl
      · rfl

end Reading

section Asking
variable {σ : Type} (S : InputStream σ)

/-- Asked when some of the first `k` bytes from `s` on had come, for none beyond them. -/
def Within (s : σ) (k : Nat) (ask : σ × Nat) : Prop :=
  ∃ before, S.left s = before ++ S.left ask.1 ∧ before.length + ask.2 ≤ k

variable {S}

theorem Within.after {s s₁ : σ} {before : List Byte} {k : Nat} {ask : σ × Nat}
    (hleft : S.left s = before ++ S.left s₁) (h : S.Within s₁ k ask) :
    S.Within s (before.length + k) ask := by
  obtain ⟨more, hmore, hk⟩ := h
  refine ⟨before ++ more, by rw [hleft, hmore, List.append_assoc], ?_⟩
  rw [List.length_append]
  omega

end Asking

end InputStream

end Hamster.Lib.Streams
