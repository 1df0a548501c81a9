import Hamster.Lib.Posix

/-!
# Strings, buffers and streams of the Java library

What `String`, `java.nio.ByteBuffer` and `java.io.InputStream` document, as far as
fixed-width messages need it: US-ASCII in both directions, a big-endian buffer with
a position, and reads into an array until it is full.
-/
namespace Hamster.Lib.Java

open Bytes Posix

inductive JavaException
  | nullPointer
  | illegalArgument
  | indexOutOfBounds
  | bufferOverflow
  | bufferUnderflow
  | assertion
  | io
  deriving DecidableEq

section Bind
variable {ε α β : Type}

@[simp] theorem ok_bind (a : α) (f : α → Except ε β) : (Except.ok a >>= f) = f a := rfl

@[simp] theorem error_bind (e : ε) (f : α → Except ε β) :
    (Except.error e >>= f) = Except.error e := rfl

/-- What came out passed through both parts. -/
theorem bind_eq_ok {x : Except ε α} {f : α → Except ε β} {b : β} (h : x >>= f = .ok b) :
    ∃ a, x = .ok a ∧ f a = .ok b := by
  cases x with
  | error e => cases h
  | ok a => exact ⟨a, rfl, h⟩

end Bind

/-! ## Strings -/

/-- The UTF-16 code units of a `String`. -/
abbrev JString := List (BitVec 16)

def isHighSurrogate (c : BitVec 16) : Bool := 0xD800 ≤ c.toNat && c.toNat ≤ 0xDBFF
def isLowSurrogate (c : BitVec 16) : Bool := 0xDC00 ≤ c.toNat && c.toNat ≤ 0xDFFF

/-- `getBytes(US_ASCII)`: a character that is not ASCII becomes a question mark, a
surrogate pair a single one. -/
def asciiBytes : JString → List Byte
  | [] => []
  | [c] => [if c.toNat < 128 then c.setWidth 8 else 63]
  | c :: d :: s =>
    if c.toNat < 128 then c.setWidth 8 :: asciiBytes (d :: s)
    else if isHighSurrogate c && isLowSurrogate d then 63 :: asciiBytes s
    else 63 :: asciiBytes (d :: s)

/-- `new String(bs, US_ASCII)` -/
def ofAscii (bs : List Byte) : JString :=
  bs.map fun b => if b.toNat < 128 then b.setWidth 16 else 0xFFFD

/-- `trim()`: both ends lose what is not above the space character. -/
def trim (s : JString) : JString :=
  ((s.dropWhile fun c => c.toNat ≤ 32).reverse.dropWhile fun c => c.toNat ≤ 32).reverse

/-- `Arrays.copyOf` -/
def copyOf (bs : List Byte) (n : Nat) : List Byte :=
  bs.take n ++ List.replicate (n - bs.length) 0

/-! ## ByteBuffer -/

/-- Its limit is always its capacity. -/
structure ByteBuffer where
  array : List Byte
  position : Nat
  le_limit : position ≤ array.length

namespace ByteBuffer

def remaining (b : ByteBuffer) : Nat := b.array.length - b.position

def allocate (capacity : Int) : Except JavaException ByteBuffer :=
  if capacity < 0 then .error .illegalArgument
  else .ok ⟨List.replicate capacity.toNat 0, 0, Nat.zero_le _⟩

def put (b : ByteBuffer) (bs : List Byte) : Except JavaException ByteBuffer :=
  if h : bs.length ≤ b.remaining then
    .ok ⟨b.array.take b.position ++ bs ++ b.array.drop (b.position + bs.length),
      b.position + bs.length, by
        simp only [List.length_append, List.length_take, List.length_drop]
        have hle := b.le_limit
        unfold remaining at h
        omega⟩
  else .error .bufferOverflow

def putShort (b : ByteBuffer) (x : BitVec 16) : Except JavaException ByteBuffer :=
  b.put (beBytes 2 x.toNat)

def putInt (b : ByteBuffer) (x : BitVec 32) : Except JavaException ByteBuffer :=
  b.put (beBytes 4 x.toNat)

def get (b : ByteBuffer) (n : Nat) : Except JavaException (List Byte × ByteBuffer) :=
  if h : n ≤ b.remaining then
    .ok ((b.array.drop b.position).take n, ⟨b.array, b.position + n, by
      have hle := b.le_limit
      unfold remaining at h
      omega⟩)
  else .error .bufferUnderflow

def getByte (b : ByteBuffer) : Except JavaException (Byte × ByteBuffer) :=
  (b.get 1).map fun (bs, b) => (BitVec.ofNat 8 (beNat bs), b)

def getShort (b : ByteBuffer) : Except JavaException (BitVec 16 × ByteBuffer) :=
  (b.get 2).map fun (bs, b) => (BitVec.ofNat 16 (beNat bs), b)

def getInt (b : ByteBuffer) : Except JavaException (BitVec 32 × ByteBuffer) :=
  (b.get 4).map fun (bs, b) => (BitVec.ofNat 32 (beNat bs), b)

/-- A buffer around an array, at its front. -/
def wrap (bs : List Byte) : ByteBuffer := ⟨bs, 0, Nat.zero_le _⟩

/-- `done` was put, and there is room for `k` more. -/
def filled (done : List Byte) (k : Nat) : ByteBuffer :=
  ⟨done ++ List.replicate k 0, done.length, by simp⟩

theorem allocate_nat (n : Nat) : allocate n = .ok (filled [] n) := if_neg (by omega)

@[simp] theorem array_filled_nil (n : Nat) : (filled [] n).array = List.replicate n 0 := rfl

theorem put_filled {done bs : List Byte} {n k : Nat} (hn : bs.length = n) (h : n ≤ k) :
    (filled done k).put bs = .ok (filled (done ++ bs) (k - n)) := by
  subst hn
  have hroom : bs.length ≤ (filled done k).remaining := by
    simp only [filled, remaining, List.length_append, List.length_replicate]
    omega
  rw [put, dif_pos hroom]
  congr 1
  simp only [filled, mk.injEq, List.length_append, and_true]
  rw [List.take_left, ← List.drop_drop, List.drop_left, List.drop_replicate]

@[simp] theorem array_filled (done : List Byte) : (filled done 0).array = done :=
  List.append_nil done

/-- What is still to be read. -/
def rest (b : ByteBuffer) : List Byte := b.array.drop b.position

@[simp] theorem rest_wrap (bs : List Byte) : (wrap bs).rest = bs := rfl

theorem length_rest (b : ByteBuffer) : b.rest.length = b.remaining := List.length_drop

theorem get_ok {b : ByteBuffer} {n : Nat} (h : n ≤ b.rest.length) :
    ∃ b', b.get n = .ok (b.rest.take n, b') ∧ b'.rest = b.rest.drop n := by
  refine ⟨_, dif_pos (by rwa [← length_rest]), ?_⟩
  exact List.drop_drop.symm

theorem get_error {b : ByteBuffer} {n : Nat} (h : b.rest.length < n) :
    b.get n = .error .bufferUnderflow := dif_neg (by rw [← length_rest]; omega)

section Numbers
variable {b : ByteBuffer}

theorem getInt_ok (h : 4 ≤ b.rest.length) :
    ∃ b', b.getInt = .ok (BitVec.ofNat 32 (beNat (b.rest.take 4)), b') ∧
      b'.rest = b.rest.drop 4 := by
  obtain ⟨b', hget, hrest⟩ := get_ok h
  exact ⟨b', by rw [getInt, hget]; rfl, hrest⟩

theorem getInt_error (h : b.rest.length < 4) : b.getInt = .error .bufferUnderflow := by
  rw [getInt, get_error h]
  rfl

/-- A getter takes its bytes, or there are too few of them. -/
theorem get_cases (b : ByteBuffer) (n : Nat) :
    (∃ bs b', b.get n = .ok (bs, b') ∧ b.rest.length = n + b'.rest.length) ∨
      (b.get n = .error .bufferUnderflow ∧ b.rest.length < n) := by
  by_cases h : n ≤ b.rest.length
  · obtain ⟨b', hget, hrest⟩ := get_ok h
    refine .inl ⟨_, b', hget, ?_⟩
    rw [hrest, List.length_drop]
    omega
  · exact .inr ⟨get_error (Nat.not_le.mp h), Nat.not_le.mp h⟩

theorem getShort_cases (b : ByteBuffer) :
    (∃ x b', b.getShort = .ok (x, b') ∧ b.rest.length = 2 + b'.rest.length) ∨
      (b.getShort = .error .bufferUnderflow ∧ b.rest.length < 2) := by
  rcases get_cases b 2 with ⟨bs, b', hget, hlen⟩ | ⟨hget, hlen⟩
  · exact .inl ⟨_, b', by rw [getShort, hget]; rfl, hlen⟩
  · exact .inr ⟨by rw [getShort, hget]; rfl, hlen⟩

theorem getInt_cases (b : ByteBuffer) :
    (∃ x b', b.getInt = .ok (x, b') ∧ b.rest.length = 4 + b'.rest.length) ∨
      (b.getInt = .error .bufferUnderflow ∧ b.rest.length < 4) := by
  rcases get_cases b 4 with ⟨bs, b', hget, hlen⟩ | ⟨hget, hlen⟩
  · exact .inl ⟨_, b', by rw [getInt, hget]; rfl, hlen⟩
  · exact .inr ⟨by rw [getInt, hget]; rfl, hlen⟩

end Numbers

section Back
variable {b : ByteBuffer} {more : List Byte}

theorem get_append {n : Nat} {bs : List Byte} (h : b.rest = bs ++ more) (hn : bs.length = n) :
    ∃ b', b.get n = .ok (bs, b') ∧ b'.rest = more := by
  obtain ⟨b', hget, hrest⟩ := get_ok (b := b) (n := n) (by rw [h, List.length_append]; omega)
  rw [h, List.take_left' hn] at hget
  rw [h, List.drop_left' hn] at hrest
  exact ⟨b', hget, hrest⟩

theorem getByte_cons {x : Byte} (h : b.rest = [x] ++ more) :
    ∃ b', b.getByte = .ok (x, b') ∧ b'.rest = more := by
  obtain ⟨b', hget, hrest⟩ := get_append (n := 1) h rfl
  refine ⟨b', ?_, hrest⟩
  have hx : BitVec.ofNat 8 (beNat [x]) = x := by simp [beNat, leNat]
  rw [getByte, hget]
  exact congrArg (fun y => Except.ok (y, b')) hx

theorem getShort_append {x : BitVec 16} (h : b.rest = beBytes 2 x.toNat ++ more) :
    ∃ b', b.getShort = .ok (x, b') ∧ b'.rest = more := by
  obtain ⟨b', hget, hrest⟩ := get_append h (length_beBytes ..)
  refine ⟨b', ?_, hrest⟩
  rw [getShort, hget]
  exact congrArg (fun y => Except.ok (y, b')) (beNat_beBytes (by norm_num) x)

theorem getInt_append {x : BitVec 32} (h : b.rest = beBytes 4 x.toNat ++ more) :
    ∃ b', b.getInt = .ok (x, b') ∧ b'.rest = more := by
  obtain ⟨b', hget, hrest⟩ := get_append h (length_beBytes ..)
  refine ⟨b', ?_, hrest⟩
  rw [getInt, hget]
  exact congrArg (fun y => Except.ok (y, b')) (beNat_beBytes (by norm_num) x)

end Back

end ByteBuffer

/-! ## InputStream -/

/-- `bs` put into the array at `off`. -/
def fillAt (array : List Byte) (off : Nat) (bs : List Byte) : List Byte :=
  array.take off ++ bs ++ array.drop (off + bs.length)

/-- `read(array, off, len)` on a connection: how many bytes came, -1 at the end of the
stream. -/
def readInto (rx : Rx) (array : List Byte) (off len : Int) :
    Except JavaException (Int × List Byte × Rx) :=
  if off < 0 ∨ len < 0 ∨ array.length - off < len then .error .indexOutOfBounds
  else if len = 0 then .ok (0, array, rx)
  else
    match rx.read len.toNat with
    | (none, _) => .error .io
    | (some [], rx) => .ok (-1, array, rx)
    | (some (b :: bs), rx) => .ok ((b :: bs).length, fillAt array off.toNat (b :: bs), rx)

/-- `do received += read(array, received, array.length - received);
while (received < array.length)`. Each read takes a byte off the stream or, at its end,
one off `received`, so the fuel never runs out. -/
def receiveLoop : Nat → Rx → List Byte → Int → Except JavaException (List Byte × Rx)
  | 0, _, _, _ => .error .indexOutOfBounds
  | fuel + 1, rx, array, received =>
    match readInto rx array received (array.length - received) with
    | .error e => .error e
    | .ok (n, array, rx) =>
      if received + n < array.length then receiveLoop fuel rx array (received + n)
      else .ok (array, rx)

/-- The array filled by the loop above. -/
def receiveAll (rx : Rx) (n : Nat) : Except JavaException (List Byte × Rx) :=
  receiveLoop (2 * rx.bytes.length + 2) rx (List.replicate n 0) 0

/-! ## Filling an array from a stream -/

section Receive
variable {rx : Rx} {array : List Byte} {off : Nat}

theorem readInto_end (hb : rx.broken = false) (hs : rx.segments = []) (hoff : off < array.length) :
    readInto rx array off (array.length - off) = .ok (-1, array, rx) := by
  have hread : rx.read ((array.length : Int) - off).toNat = (some [], rx) := by
    rw [Rx.read_nil (by omega) hs, hb]
    rfl
  rw [readInto, if_neg (by omega), if_neg (by omega), hread]

theorem readInto_broken (hb : rx.broken = true) (hs : rx.segments = []) (hoff : off < array.length) :
    readInto rx array off (array.length - off) = .error .io := by
  have hread : rx.read ((array.length : Int) - off).toNat = (none, rx) := by
    rw [Rx.read_nil (by omega) hs, hb]
    rfl
  rw [readInto, if_neg (by omega), if_neg (by omega), hread]

/-- A read before the end brings at least one byte and no more than fit. -/
theorem readInto_some (hs : rx.segments ≠ []) (hoff : off < array.length) :
    ∃ bs rx', bs ≠ [] ∧ off + bs.length ≤ array.length ∧ rx.bytes = bs ++ rx'.bytes ∧
      rx'.broken = rx.broken ∧
      readInto rx array off (array.length - off) = .ok (bs.length, fillAt array off bs, rx') := by
  have hn : ((array.length : Int) - off).toNat ≠ 0 := by omega
  obtain ⟨bs, hget, hne, hlen, hbytes⟩ := Rx.read_some hn hs
  refine ⟨bs, (rx.read ((array.length : Int) - off).toNat).2, hne, by omega, hbytes,
    Rx.read_broken .., ?_⟩
  rw [readInto, if_neg (by omega), if_neg (by omega)]
  cases hr : rx.read ((array.length : Int) - off).toNat with
  | mk got rx' =>
    rw [hr] at hget
    obtain ⟨b, bs, rfl⟩ := List.exists_cons_of_ne_nil hne
    obtain rfl : got = some (b :: bs) := hget
    rfl

theorem length_fillAt {bs : List Byte} (h : off + bs.length ≤ array.length) :
    (fillAt array off bs).length = array.length := by
  rw [fillAt, List.length_append, List.length_append, List.length_take, List.length_drop]
  omega

/-- A read that returns: what has come, and -1 for nothing. -/
theorem readInto_cases {off len n : Int} {array' : List Byte} {rx' : Rx} (hlen : len ≠ 0)
    (h : readInto rx array off len = .ok (n, array', rx')) :
    0 ≤ off ∧ array'.length = array.length ∧
      ∃ bs, rx.bytes = bs ++ rx'.bytes ∧ n = if bs = [] then (-1 : Int) else bs.length := by
  rw [readInto] at h
  by_cases hin : off < 0 ∨ len < 0 ∨ array.length - off < len
  · rw [if_pos hin] at h
    cases h
  · rw [if_neg hin, if_neg hlen] at h
    have hget : ∀ bs, (rx.read len.toNat).1 = some bs →
        bs ++ (rx.read len.toNat).2.bytes = rx.bytes := fun _ => Rx.read_bytes
    have hle : ∀ bs, (rx.read len.toNat).1 = some bs → bs.length ≤ len.toNat :=
      fun _ => Rx.length_read
    generalize rx.read len.toNat = got at h hget hle
    rcases got with ⟨_ | _ | ⟨b, bs⟩, rx''⟩
    · cases h
    · obtain ⟨rfl, rfl, rfl⟩ : -1 = n ∧ array = array' ∧ rx'' = rx' := by simpa using h
      exact ⟨by omega, rfl, [], (hget _ rfl).symm, rfl⟩
    · obtain ⟨rfl, rfl, rfl⟩ :
          ((b :: bs).length : Int) = n ∧ fillAt array off.toNat (b :: bs) = array' ∧ rx'' = rx' := by
        simpa using h
      have hfit := hle _ rfl
      exact ⟨by omega, length_fillAt (by omega), b :: bs, (hget _ rfl).symm, rfl⟩

/-- At the end of the stream the loop walks back and leaves the array. -/
theorem receiveLoop_end (hb : rx.broken = false) (hs : rx.segments = []) :
    ∀ {fuel : Nat}, off < array.length → off + 2 ≤ fuel →
      receiveLoop fuel rx array off = .error .indexOutOfBounds := by
  induction off with
  | zero =>
    intro fuel hoff hfuel
    obtain ⟨fuel, rfl⟩ : ∃ k, fuel = k + 2 := ⟨fuel - 2, by omega⟩
    have hread : readInto rx array 0 (array.length - 0) = _ := readInto_end hb hs hoff
    have hout : readInto rx array (-1) (array.length - -1) = .error .indexOutOfBounds := rfl
    rw [receiveLoop]
    simp only [Nat.cast_zero, hread]
    rw [if_pos (by omega), receiveLoop]
    simp only [Int.zero_add, hout]
  | succ off ih =>
    intro fuel hoff hfuel
    obtain ⟨fuel, rfl⟩ : ∃ k, fuel = k + 1 := ⟨fuel - 1, by omega⟩
    have hback : ((off + 1 : Nat) : Int) + -1 = off := by omega
    rw [receiveLoop, readInto_end hb hs hoff]
    dsimp only
    rw [hback, if_pos (by omega)]
    exact ih (by omega) (by omega)

theorem fillAt_append (got bs : List Byte) (k : Nat) :
    fillAt (got ++ List.replicate k 0) got.length bs =
      (got ++ bs) ++ List.replicate (k - bs.length) 0 := by
  rw [fillAt, List.take_left, ← List.drop_drop, List.drop_left, List.drop_replicate]

/-- A turn of the loop before the end of the stream, with `k` bytes missing. -/
theorem receiveLoop_some {k : Nat} (hs : rx.segments ≠ []) (got : List Byte) (hk : 0 < k)
    (fuel : Nat) :
    ∃ bs rx', bs ≠ [] ∧ bs.length ≤ k ∧ rx.bytes = bs ++ rx'.bytes ∧ rx'.broken = rx.broken ∧
      receiveLoop (fuel + 1) rx (got ++ List.replicate k 0) got.length =
        if bs.length < k then
          receiveLoop fuel rx' ((got ++ bs) ++ List.replicate (k - bs.length) 0) (got ++ bs).length
        else .ok (got ++ bs, rx') := by
  have hlen : (got ++ List.replicate k (0 : Byte)).length = got.length + k := by
    rw [List.length_append, List.length_replicate]
  have hoff : got.length < (got ++ List.replicate k (0 : Byte)).length := by omega
  obtain ⟨bs, rx', hne, hfit, hbytes, hbroken, hread⟩ := readInto_some hs hoff
  refine ⟨bs, rx', hne, by omega, hbytes, hbroken, ?_⟩
  have hlen' : ((got ++ bs) ++ List.replicate (k - bs.length) (0 : Byte)).length =
      got.length + k := by
    rw [List.length_append, List.length_append, List.length_replicate]
    omega
  have hcount : (got.length : Int) + bs.length = ((got ++ bs).length : Nat) := by
    rw [List.length_append, Nat.cast_add]
  rw [receiveLoop, hread]
  dsimp only
  rw [fillAt_append, hlen', hcount]
  by_cases hmore : bs.length < k
  · rw [if_pos hmore, if_pos (by rw [List.length_append]; omega)]
  · have hfull : k - bs.length = 0 := by omega
    rw [if_neg hmore, if_neg (by rw [List.length_append]; omega), hfull, List.replicate_zero,
      List.append_nil]

/-- What the loop leaves: the front of the stream in the array, or the error that follows
what there was. -/
theorem receiveLoop_spec {fuel k : Nat} {got : List Byte} (hk : 0 < k)
    (hfuel : rx.bytes.length + (got.length + rx.bytes.length) + 2 ≤ fuel) :
    if k ≤ rx.bytes.length then
      ∃ rx', receiveLoop fuel rx (got ++ List.replicate k 0) got.length =
          .ok (got ++ rx.bytes.take k, rx') ∧
        rx'.bytes = rx.bytes.drop k ∧ rx'.broken = rx.broken
    else receiveLoop fuel rx (got ++ List.replicate k 0) got.length =
      .error (if rx.broken then .io else .indexOutOfBounds) := by
  induction fuel generalizing rx k got with
  | zero => omega
  | succ fuel ih =>
    by_cases hs : rx.segments = []
    · have hbytes : rx.bytes = [] := by rw [Rx.bytes, hs]; rfl
      have hlen : (got ++ List.replicate k (0 : Byte)).length = got.length + k := by
        rw [List.length_append, List.length_replicate]
      rw [if_neg (by rw [hbytes, List.length_nil]; omega)]
      cases hb : rx.broken with
      | true =>
        rw [receiveLoop, readInto_broken hb hs (by omega)]
        rfl
      | false =>
        rw [receiveLoop_end hb hs (by omega) (by omega)]
        rfl
    · obtain ⟨bs, rx', hne, hfit, hbytes, hbroken, hturn⟩ := receiveLoop_some hs got hk fuel
      have hpos : 0 < bs.length := List.length_pos_of_ne_nil hne
      have htotal : rx.bytes.length = bs.length + rx'.bytes.length := by
        rw [hbytes, List.length_append]
      rw [hturn]
      by_cases hmore : bs.length < k
      · have hfuel' : rx'.bytes.length + ((got ++ bs).length + rx'.bytes.length) + 2 ≤ fuel := by
          rw [List.length_append]
          omega
        have hrest := ih (by omega : 0 < k - bs.length) hfuel'
        rw [if_pos hmore]
        by_cases hc : k ≤ rx.bytes.length
        · rw [if_pos (by omega)] at hrest
          obtain ⟨rx'', hloop, hb'', hbr''⟩ := hrest
          rw [if_pos hc]
          refine ⟨rx'', ?_, ?_, hbr''.trans hbroken⟩
          · rw [hloop, hbytes, List.take_append, List.take_of_length_le hfit, List.append_assoc]
          · rw [hb'', hbytes, List.drop_append, List.drop_eq_nil_of_le hfit, List.nil_append]
        · rw [if_neg (by omega)] at hrest
          rw [if_neg hc, hrest, hbroken]
      · have hk' : bs.length = k := by omega
        rw [if_neg hmore, if_pos (by omega)]
        refine ⟨rx', ?_, ?_, hbroken⟩
        · rw [hbytes, List.take_left' hk']
        · rw [hbytes, List.drop_left' hk']

/-- However the stream is cut: its front, or the error that follows it. -/
theorem receiveAll_spec (rx : Rx) {n : Nat} (hn : 0 < n) :
    if n ≤ rx.bytes.length then
      ∃ rx', receiveAll rx n = .ok (rx.bytes.take n, rx') ∧ rx'.bytes = rx.bytes.drop n ∧
        rx'.broken = rx.broken
    else receiveAll rx n = .error (if rx.broken then .io else .indexOutOfBounds) := by
  have hfuel : rx.bytes.length + (([] : List Byte).length + rx.bytes.length) + 2 ≤
      2 * rx.bytes.length + 2 := by
    rw [List.length_nil]
    omega
  exact receiveLoop_spec hn hfuel

end Receive

/-! ## ASCII text -/

/-- Every character is ASCII and none is the zero. -/
def Plain (s : JString) : Prop := ∀ c ∈ s, 0 < c.toNat ∧ c.toNat < 128

instance (s : JString) : Decidable (Plain s) :=
  List.decidableBAll (fun c : BitVec 16 => 0 < c.toNat ∧ c.toNat < 128) s

theorem asciiBytes_of_lt : ∀ {s : JString}, (∀ c ∈ s, c.toNat < 128) →
    asciiBytes s = s.map (·.setWidth 8)
  | [], _ => rfl
  | [c], h => by
    rw [asciiBytes, if_pos (h c List.mem_cons_self)]
    rfl
  | c :: d :: s, h => by
    rw [asciiBytes, if_pos (h c List.mem_cons_self),
      asciiBytes_of_lt fun x hx => h x (List.mem_cons_of_mem _ hx)]
    rfl

/-- Neither end is blank. -/
def Trimmed (s : JString) : Prop :=
  s.head?.all (32 < ·.toNat) = true ∧ s.getLast?.all (32 < ·.toNat) = true

instance (s : JString) : Decidable (Trimmed s) := inferInstanceAs (Decidable (_ ∧ _))

theorem dropWhile_of_head {s : JString} (h : s.head?.all (32 < ·.toNat) = true) :
    s.dropWhile (fun c => c.toNat ≤ 32) = s := by
  cases s with
  | nil => rfl
  | cons c s =>
    have hc : 32 < c.toNat := of_decide_eq_true h
    exact List.dropWhile_cons_of_neg (by simpa using hc)

/-- Zeros that pad a string are trimmed off, and no more of it. -/
theorem trim_pad {s : JString} (h : Trimmed s) (k : Nat) : trim (s ++ List.replicate k 0) = s := by
  have hzeros : ∀ c ∈ List.replicate k (0 : BitVec 16), decide (c.toNat ≤ 32) = true := by
    intro c hc
    rw [List.eq_of_mem_replicate hc]
    rfl
  cases s with
  | nil =>
    rw [List.nil_append, trim, List.dropWhile_eq_nil_iff.mpr hzeros]
    rfl
  | cons c s =>
    have hfront : (c :: s ++ List.replicate k 0).dropWhile (fun c => c.toNat ≤ 32) =
        c :: s ++ List.replicate k 0 := dropWhile_of_head h.1
    have hback : (c :: s).reverse.dropWhile (fun c => c.toNat ≤ 32) = (c :: s).reverse := by
      apply dropWhile_of_head
      rw [List.head?_reverse]
      exact h.2
    rw [trim, hfront, List.reverse_append, List.reverse_replicate,
      List.dropWhile_append_of_pos hzeros, hback, List.reverse_reverse]

theorem length_copyOf (bs : List Byte) (n : Nat) : (copyOf bs n).length = n := by
  rw [copyOf, List.length_append, List.length_take, List.length_replicate]
  omega

end Hamster.Lib.Java
