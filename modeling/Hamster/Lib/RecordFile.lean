import Mathlib.Tactic.Ring
import Hamster.Lib.Posix

/-!
# Files of fixed-size records

A byte string as its complete records and a rest shorter than one, and the loop
that reads a descriptor record by record until one satisfies a test. The fuel of
the loop is bounded by what the descriptor can still deliver, so it never decides
how a scan ends.
-/
namespace Hamster.Lib.RecordFile

open Bytes Posix

/-! ## Records and rest -/

section Chunks
variable {α : Type}

/-- The complete records of a byte string, in order. -/
def chunks (size : Nat) (bs : List α) : List (List α) :=
  (List.range (bs.length / size)).map fun i => (bs.drop (i * size)).take size

/-- What is left behind the last complete record. -/
def rest (size : Nat) (bs : List α) : List α := bs.drop (bs.length / size * size)

variable {size : Nat} {a bs tail : List α} {cs : List (List α)}

theorem chunks_of_lt (h : bs.length < size) : chunks size bs = [] := by
  simp [chunks, Nat.div_eq_of_lt h]

theorem rest_of_lt (h : bs.length < size) : rest size bs = bs := by
  simp [rest, Nat.div_eq_of_lt h]

theorem length_append_div (hs : 0 < size) (ha : a.length = size) :
    (a ++ bs).length / size = bs.length / size + 1 := by
  rw [List.length_append, ha, Nat.add_comm, Nat.add_div_right _ hs]

theorem chunks_cons (hs : 0 < size) (ha : a.length = size) :
    chunks size (a ++ bs) = a :: chunks size bs := by
  simp only [chunks, length_append_div hs ha, List.range_succ_eq_map, List.map_cons, List.map_map]
  congr 1
  · rw [Nat.zero_mul, List.drop_zero, ← ha, List.take_left]
  · apply List.map_congr_left
    intro i _
    simp only [Function.comp_apply]
    have hdrop : (a ++ bs).drop (i.succ * size) = bs.drop (i * size) := by
      rw [Nat.succ_mul, Nat.add_comm, ← List.drop_drop, List.drop_left' ha]
    rw [hdrop]

theorem rest_cons (hs : 0 < size) (ha : a.length = size) :
    rest size (a ++ bs) = rest size bs := by
  rw [rest, rest, length_append_div hs ha, Nat.succ_mul, Nat.add_comm, ← List.drop_drop,
    List.drop_left' ha]

/-- A concatenation of records and a short tail splits back into just these. -/
theorem chunks_flatten (hs : 0 < size) (hc : ∀ c ∈ cs, c.length = size)
    (ht : tail.length < size) : chunks size (cs.flatten ++ tail) = cs := by
  induction cs with
  | nil => simpa using chunks_of_lt ht
  | cons c cs ih =>
    rw [List.flatten_cons, List.append_assoc, chunks_cons hs (hc c (by simp)),
      ih fun x hx => hc x (by simp [hx])]

theorem rest_flatten (hs : 0 < size) (hc : ∀ c ∈ cs, c.length = size)
    (ht : tail.length < size) : rest size (cs.flatten ++ tail) = tail := by
  induction cs with
  | nil => simpa using rest_of_lt ht
  | cons c cs ih =>
    rw [List.flatten_cons, List.append_assoc, rest_cons hs (hc c (by simp)),
      ih fun x hx => hc x (by simp [hx])]

/-- Every byte string is a concatenation of records and a short tail. -/
theorem exists_records (hs : 0 < size) (bs : List α) :
    ∃ (cs : List (List α)) (tail : List α),
      bs = cs.flatten ++ tail ∧ (∀ c ∈ cs, c.length = size) ∧ tail.length < size := by
  induction hn : bs.length using Nat.strong_induction_on generalizing bs with
  | h n ih =>
    by_cases hlt : bs.length < size
    · exact ⟨[], bs, by simp, by simp, hlt⟩
    · obtain ⟨cs, tail, he, hc, ht⟩ :=
        ih (bs.drop size).length (by rw [List.length_drop]; omega) (bs.drop size) rfl
      refine ⟨bs.take size :: cs, tail, ?_, ?_, ht⟩
      · rw [List.flatten_cons, List.append_assoc, ← he, List.take_append_drop]
      · intro c hmem
        rcases List.mem_cons.mp hmem with rfl | hmem
        · rw [List.length_take]; omega
        · exact hc c hmem

theorem flatten_chunks (hs : 0 < size) (bs : List α) :
    (chunks size bs).flatten ++ rest size bs = bs := by
  obtain ⟨cs, tail, rfl, hc, ht⟩ := exists_records hs bs
  rw [chunks_flatten hs hc ht, rest_flatten hs hc ht]

theorem length_of_mem_chunks (hs : 0 < size) (hm : a ∈ chunks size bs) : a.length = size := by
  obtain ⟨cs, tail, rfl, hc, ht⟩ := exists_records hs bs
  rw [chunks_flatten hs hc ht] at hm
  exact hc a hm

theorem length_rest_lt (hs : 0 < size) (bs : List α) : (rest size bs).length < size := by
  obtain ⟨cs, tail, rfl, hc, ht⟩ := exists_records hs bs
  rwa [rest_flatten hs hc ht]

theorem length_flatten (hc : ∀ c ∈ cs, c.length = size) :
    cs.flatten.length = size * cs.length := by
  induction cs with
  | nil => simp
  | cons c cs ih =>
    rw [List.flatten_cons, List.length_append, hc c (by simp),
      ih fun x hx => hc x (by simp [hx]), List.length_cons]
    ring

/-- The rest is empty just when the length is a multiple of the record size. -/
theorem rest_eq_nil_iff (hs : 0 < size) (bs : List α) : rest size bs = [] ↔ size ∣ bs.length := by
  obtain ⟨cs, tail, rfl, hc, ht⟩ := exists_records hs bs
  rw [rest_flatten hs hc ht, List.length_append, length_flatten hc,
    Nat.dvd_add_right (Dvd.intro _ rfl)]
  constructor
  · rintro rfl; simp
  · intro h
    exact List.eq_nil_of_length_eq_zero (Nat.eq_zero_of_dvd_of_lt h ht)

end Chunks

/-! ## The reading loop -/

/-- How a scan ends: at a record that passes the test, or at a read that did not
fill the record. -/
inductive ScanEnd
  | hit (record : List Byte)
  | stop (last : Option (List Byte))
  deriving DecidableEq

variable {N : Type}

/-- How many bytes reads on `fd` can still deliver. -/
def unread (s : Sys N) (fd : Nat) : Nat :=
  match s.fds.lookup fd with
  | some (.file ino off _) => (s.inodes ino).length - off
  | some (.sock rx) => (rx.segments.map List.length).sum
  | some .listener | none => 0

/-- `while ((ret = read(fd, &h, size)) == size) if (test(h)) …`. -/
def scanLoop (size : Nat) (test : List Byte → Bool) : Nat → Sys N → Nat → ScanEnd × Sys N
  | 0, s, _ => (.stop none, s)
  | fuel + 1, s, fd =>
    match s.read fd size with
    | (none, s) => (.stop none, s)
    | (some bs, s) =>
      if bs.length = size then
        if test bs then (.hit bs, s) else scanLoop size test fuel s fd
      else (.stop (some bs), s)

def scan (size : Nat) (test : List Byte → Bool) (s : Sys N) (fd : Nat) : ScanEnd × Sys N :=
  scanLoop size test (unread s fd + 1) s fd

/-- The loop with a test that may itself fail, and with it the loop. -/
def scanLoopOpt (size : Nat) (test : List Byte → Option Bool) :
    Nat → Sys N → Nat → Option (ScanEnd × Sys N)
  | 0, s, _ => some (.stop none, s)
  | fuel + 1, s, fd =>
    match s.read fd size with
    | (none, s) => some (.stop none, s)
    | (some bs, s) =>
      if bs.length = size then
        (test bs).bind fun found =>
          if found then some (.hit bs, s) else scanLoopOpt size test fuel s fd
      else some (.stop (some bs), s)

def scanOpt (size : Nat) (test : List Byte → Option Bool) (s : Sys N) (fd : Nat) :
    Option (ScanEnd × Sys N) := scanLoopOpt size test (unread s fd + 1) s fd

theorem scanLoopOpt_eq {size : Nat} {test : List Byte → Option Bool} {t : List Byte → Bool}
    (h : ∀ bs, test bs = some (t bs)) (fuel : Nat) (s : Sys N) (fd : Nat) :
    scanLoopOpt size test fuel s fd = some (scanLoop size t fuel s fd) := by
  induction fuel generalizing s with
  | zero => rfl
  | succ fuel ih =>
    rw [scanLoopOpt, scanLoop]
    cases s.read fd size with
    | mk last s' =>
      cases last with
      | none => rfl
      | some bs =>
        simp only [h, Option.bind_some, ih]
        split
        · split <;> rfl
        · rfl

/-- A test that never fails makes the loop the plain one. -/
theorem scanOpt_eq {size : Nat} {test : List Byte → Option Bool} {t : List Byte → Bool}
    (h : ∀ bs, test bs = some (t bs)) (s : Sys N) (fd : Nat) :
    scanOpt size test s fd = some (scan size t s fd) := scanLoopOpt_eq h ..

theorem scanLoop_onlyReads (size : Nat) (test : List Byte → Bool) (fuel : Nat) (s : Sys N)
    (fd : Nat) : Sys.OnlyReads s (scanLoop size test fuel s fd).2 := by
  induction fuel generalizing s with
  | zero => exact .refl s
  | succ fuel ih =>
    have hread := s.read_onlyReads fd size
    rw [scanLoop]
    cases hr : s.read fd size with
    | mk last s' =>
      rw [hr] at hread
      cases last with
      | none => exact hread
      | some bs =>
        dsimp only
        split
        · split
          · exact hread
          · exact hread.trans (ih s')
        · exact hread

theorem scanLoop_onlyFd (size : Nat) (test : List Byte → Bool) (fuel : Nat) (s : Sys N)
    (fd : Nat) : Sys.OnlyFd fd s (scanLoop size test fuel s fd).2 := by
  induction fuel generalizing s with
  | zero => exact .refl fd s
  | succ fuel ih =>
    have hread := s.read_onlyFd fd size
    rw [scanLoop]
    cases hr : s.read fd size with
    | mk last s' =>
      rw [hr] at hread
      cases last with
      | none => exact hread
      | some bs =>
        dsimp only
        split
        · split
          · exact hread
          · exact hread.trans (ih s')
        · exact hread

theorem scan_onlyFd (size : Nat) (test : List Byte → Bool) (s : Sys N) (fd : Nat) :
    Sys.OnlyFd fd s (scan size test s fd).2 := scanLoop_onlyFd _ _ _ s fd

theorem unread_ahead (s : Sys N) (fd : Nat) : unread s fd =
    match s.ahead fd with
    | some (.inl bs) => bs.length
    | some (.inr rx) => (rx.segments.map List.length).sum
    | none => 0 := by
  unfold unread Sys.ahead
  cases s.fds.lookup fd with
  | none => rfl
  | some d =>
    cases d with
    | listener | sock => rfl
    | file ino off w => exact (List.length_drop ..).symm

/-- Where the same is ahead a loop ends the same way. -/
theorem scanLoop_congr {M : Type} (size : Nat) (test : List Byte → Bool) (fuel : Nat) {s : Sys N}
    {s' : Sys M} {fd fd' : Nat} (hr : s.Reliable) (hr' : s'.Reliable)
    (h : s.ahead fd = s'.ahead fd') :
    (scanLoop size test fuel s fd).1 = (scanLoop size test fuel s' fd').1 := by
  induction fuel generalizing s s' with
  | zero => rfl
  | succ fuel ih =>
    obtain ⟨hgot, hahead⟩ := Sys.read_congr hr hr' h size
    have hafter := (Sys.read_ahead hr fd size).1
    have hafter' := (Sys.read_ahead hr' fd' size).1
    rw [scanLoop, scanLoop]
    cases hread : s.read fd size with
    | mk got t =>
      cases hread' : s'.read fd' size with
      | mk got' t' =>
        rw [hread, hread'] at hgot hahead
        rw [hread] at hafter
        rw [hread'] at hafter'
        obtain rfl : got = got' := hgot
        cases got with
        | none => rfl
        | some bs =>
          dsimp only
          split
          · split
            · rfl
            · exact ih hafter hafter' hahead
          · rfl

theorem scan_congr {M : Type} (size : Nat) (test : List Byte → Bool) {s : Sys N} {s' : Sys M}
    {fd fd' : Nat} (hr : s.Reliable) (hr' : s'.Reliable) (h : s.ahead fd = s'.ahead fd') :
    (scan size test s fd).1 = (scan size test s' fd').1 := by
  have hfuel : unread s fd = unread s' fd' := by rw [unread_ahead, unread_ahead, h]
  rw [scan, scan, hfuel]
  exact scanLoop_congr size test _ hr hr' h

theorem scanLoop_isFile {s : Sys N} {fd : Nat} (h : Sys.IsFile s fd) (size : Nat)
    (test : List Byte → Bool) (fuel : Nat) :
    Sys.IsFile (scanLoop size test fuel s fd).2 fd := by
  induction fuel generalizing s with
  | zero => exact h
  | succ fuel ih =>
    have hread := h.read size
    rw [scanLoop]
    cases hr : s.read fd size with
    | mk last s' =>
      rw [hr] at hread
      cases last with
      | none => exact hread
      | some bs =>
        dsimp only
        split
        · split
          · exact hread
          · exact ih hread
        · exact hread

/-- A read takes what it returns from what is still to come. -/
theorem read_unread {s s' : Sys N} {fd n : Nat} {bs : List Byte}
    (h : s.read fd n = (some bs, s')) : unread s' fd + bs.length = unread s fd := by
  unfold Sys.read at h
  split at h
  · cases h
  · dsimp only at h
    split at h
    · rename_i ino off w hd
      have hd' : s.fds.lookup fd = some (.file ino off w) := hd
      obtain ⟨hbs, rfl⟩ := Prod.mk.inj h
      obtain rfl := Option.some.inj hbs
      have hino : s.tick.inodes = s.inodes := rfl
      simp only [unread, hd', Sys.setDesc_fds, Finmap.lookup_insert, Sys.setDesc_inodes, hino,
        List.length_take, List.length_drop]
      omega
    · rename_i rx hd
      have hd' : s.fds.lookup fd = some (.sock rx) := hd
      obtain ⟨hbs, rfl⟩ := Prod.mk.inj h
      have hlen := congrArg List.length (Rx.read_bytes hbs)
      simp only [Rx.bytes, List.length_append, List.length_flatten] at hlen
      simp only [unread, hd', Sys.setDesc_fds, Finmap.lookup_insert]
      omega
    · cases h
    · cases h

/-- A scan that ends at a record has moved its descriptor. -/
theorem scanLoop_hit_unread {size : Nat} {test : List Byte → Bool} {fd : Nat} {record : List Byte}
    {fuel : Nat} {s s' : Sys N} (h : scanLoop size test fuel s fd = (.hit record, s')) :
    unread s' fd + size ≤ unread s fd := by
  induction fuel generalizing s with
  | zero => cases h
  | succ fuel ih =>
    rw [scanLoop] at h
    cases hr : s.read fd size with
    | mk last s₁ =>
      rw [hr] at h
      cases last with
      | none => cases h
      | some bs =>
        have hread := read_unread hr
        dsimp only at h
        split at h
        · rename_i hlen
          split at h
          · cases h
            omega
          · have hrest := ih h
            omega
        · cases h

variable {size : Nat} {test : List Byte → Bool} {s : Sys N} {fd ino off fuel : Nat} {w : Bool}

/-- One turn of the loop on a file that still holds a complete record. -/
theorem scanLoop_file_cons (hr : s.Reliable) (hd : s.fds.lookup fd = some (.file ino off w))
    {c more : List Byte} (hc : c.length = size) (hcont : (s.inodes ino).drop off = c ++ more) :
    scanLoop size test (fuel + 1) s fd =
      if test c then (.hit c, s.setDesc fd (.file ino (off + size) w))
      else scanLoop size test fuel (s.setDesc fd (.file ino (off + size) w)) fd := by
  have htake : ((s.inodes ino).drop off).take size = c := by rw [hcont, ← hc, List.take_left]
  rw [scanLoop, Sys.read_file hr hd, htake, hc]
  simp [hc]

/-- The loop stops at the first read that meets fewer than `size` bytes. -/
theorem scanLoop_file_short (hr : s.Reliable) (hd : s.fds.lookup fd = some (.file ino off w))
    {tail : List Byte} (ht : tail.length < size) (hcont : (s.inodes ino).drop off = tail) :
    scanLoop size test (fuel + 1) s fd =
      (.stop (some tail), s.setDesc fd (.file ino (off + tail.length) w)) := by
  have htake : ((s.inodes ino).drop off).take size = tail := by
    rw [hcont, List.take_of_length_le ht.le]
  rw [scanLoop, Sys.read_file hr hd, htake]
  simp [ht.ne]

theorem drop_add_of_append {content c more : List Byte} (h : content.drop off = c ++ more) :
    content.drop (off + c.length) = more := by
  rw [← List.drop_drop, h, List.drop_left]

/-- The loop stops behind the first record that passes the test. -/
theorem scanLoop_hit (hr : s.Reliable) (hd : s.fds.lookup fd = some (.file ino off w))
    {pre post : List (List Byte)} {c tail : List Byte}
    (hcont : (s.inodes ino).drop off = (pre ++ c :: post).flatten ++ tail)
    (hpre : ∀ x ∈ pre, x.length = size ∧ test x = false) (hc : c.length = size)
    (htest : test c = true) (hfuel : pre.length < fuel) :
    scanLoop size test fuel s fd =
      (.hit c, s.setDesc fd (.file ino (off + size * (pre.length + 1)) w)) := by
  induction pre generalizing s off fuel with
  | nil =>
    obtain ⟨fuel, rfl⟩ : ∃ k, fuel = k + 1 := ⟨fuel - 1, by simp at hfuel; omega⟩
    rw [scanLoop_file_cons hr hd hc (by simpa using hcont), if_pos htest]
    simp
  | cons x pre ih =>
    obtain ⟨fuel, rfl⟩ : ∃ k, fuel = k + 1 := ⟨fuel - 1, by simp at hfuel; omega⟩
    obtain ⟨hx, hxt⟩ := hpre x (by simp)
    have hcont' : (s.inodes ino).drop off = x ++ ((pre ++ c :: post).flatten ++ tail) := by
      simpa using hcont
    rw [scanLoop_file_cons hr hd hx hcont', hxt, if_neg Bool.false_ne_true]
    have hr' : (s.setDesc fd (.file ino (off + size) w)).Reliable := hr
    rw [ih hr' (Finmap.lookup_insert _)
      (by rw [Sys.setDesc_inodes, ← hx]; exact drop_add_of_append hcont')
      (fun y hy => hpre y (by simp [hy])) (by simpa using hfuel)]
    have hoff : off + size + size * (pre.length + 1) = off + size * (pre.length + 1 + 1) := by ring
    rw [Sys.setDesc_setDesc, List.length_cons, hoff]

/-- Without such a record it stops at the end, on what is left of the file. -/
theorem scanLoop_stop (hr : s.Reliable) (hd : s.fds.lookup fd = some (.file ino off w))
    {cs : List (List Byte)} {tail : List Byte}
    (hcont : (s.inodes ino).drop off = cs.flatten ++ tail)
    (hcs : ∀ x ∈ cs, x.length = size ∧ test x = false) (ht : tail.length < size)
    (hfuel : cs.length < fuel) :
    scanLoop size test fuel s fd =
      (.stop (some tail), s.setDesc fd (.file ino (off + size * cs.length + tail.length) w)) := by
  induction cs generalizing s off fuel with
  | nil =>
    obtain ⟨fuel, rfl⟩ : ∃ k, fuel = k + 1 := ⟨fuel - 1, by simp at hfuel; omega⟩
    rw [scanLoop_file_short hr hd ht (by simpa using hcont)]
    simp
  | cons x cs ih =>
    obtain ⟨fuel, rfl⟩ : ∃ k, fuel = k + 1 := ⟨fuel - 1, by simp at hfuel; omega⟩
    obtain ⟨hx, hxt⟩ := hcs x (by simp)
    have hcont' : (s.inodes ino).drop off = x ++ (cs.flatten ++ tail) := by simpa using hcont
    rw [scanLoop_file_cons hr hd hx hcont', hxt, if_neg Bool.false_ne_true]
    have hr' : (s.setDesc fd (.file ino (off + size) w)).Reliable := hr
    rw [ih hr' (Finmap.lookup_insert _)
      (by rw [Sys.setDesc_inodes, ← hx]; exact drop_add_of_append hcont')
      (fun y hy => hcs y (by simp [hy])) (by simpa using hfuel)]
    have hoff : off + size + size * cs.length + tail.length =
        off + size * (cs.length + 1) + tail.length := by ring
    rw [Sys.setDesc_setDesc, List.length_cons, hoff]

/-- A file's unread bytes bound the number of its unread records. -/
theorem length_lt_unread (hd : s.fds.lookup fd = some (.file ino off w)) (hs : 0 < size)
    {cs : List (List Byte)} {tail : List Byte}
    (hcont : (s.inodes ino).drop off = cs.flatten ++ tail) (hcs : ∀ x ∈ cs, x.length = size) :
    cs.length < unread s fd + 1 := by
  have hlen := congrArg List.length hcont
  rw [List.length_drop, List.length_append, length_flatten hcs] at hlen
  have hle : cs.length ≤ size * cs.length := Nat.le_mul_of_pos_left _ hs
  simp only [unread, hd]
  omega

theorem scan_hit (hr : s.Reliable) (hd : s.fds.lookup fd = some (.file ino off w))
    {pre post : List (List Byte)} {c tail : List Byte}
    (hcont : (s.inodes ino).drop off = (pre ++ c :: post).flatten ++ tail)
    (hpre : ∀ x ∈ pre, x.length = size ∧ test x = false) (hc : c.length = size)
    (htest : test c = true) (hs : 0 < size) :
    scan size test s fd =
      (.hit c, s.setDesc fd (.file ino (off + size * (pre.length + 1)) w)) := by
  have hcont' : (s.inodes ino).drop off = pre.flatten ++ ((c :: post).flatten ++ tail) := by
    simpa using hcont
  have hfuel := length_lt_unread hd hs hcont' fun x hx => (hpre x hx).1
  exact scanLoop_hit hr hd hcont hpre hc htest hfuel

theorem scan_stop (hr : s.Reliable) (hd : s.fds.lookup fd = some (.file ino off w))
    {cs : List (List Byte)} {tail : List Byte}
    (hcont : (s.inodes ino).drop off = cs.flatten ++ tail)
    (hcs : ∀ x ∈ cs, x.length = size ∧ test x = false) (ht : tail.length < size) :
    scan size test s fd =
      (.stop (some tail), s.setDesc fd (.file ino (off + size * cs.length + tail.length) w)) := by
  have hfuel := length_lt_unread hd (by omega) hcont fun x hx => (hcs x hx).1
  exact scanLoop_stop hr hd hcont hcs ht hfuel

/-! ## Records from a connection -/

/-- The records that reads on a connection deliver: those of a run of bytes, and,
if they fill it, those of the next. -/
def arriving (size : Nat) : List (List Byte) → List (List Byte)
  | [] => []
  | seg :: segs => chunks size seg ++ if rest size seg = [] then arriving size segs else []

/-- A record read off a connection is the first to arrive; the others are still
to come. -/
theorem arriving_read {rx : Rx} {record : List Byte} (hs : 0 < size)
    (h : (rx.read size).1 = some record) (hlen : record.length = size) :
    arriving size rx.segments = record :: arriving size (rx.read size).2.segments := by
  cases hseg : rx.segments with
  | nil =>
    rw [Rx.read_nil hs.ne' hseg] at h
    split at h
    · cases h
    · rw [← Option.some.inj h, List.length_nil] at hlen
      omega
  | cons seg rest' =>
    obtain ⟨hrec, hrest⟩ := Rx.read_cons hs.ne' hseg
    rw [hrec] at h
    have htake : seg.take size = record := Option.some.inj h
    have hsplit : seg = record ++ seg.drop size := by rw [← htake, List.take_append_drop]
    rw [hrest, arriving, hsplit, chunks_cons hs hlen, rest_cons hs hlen, ← hsplit, List.cons_append]
    by_cases hle : seg.length ≤ size
    · have hnil : seg.drop size = [] := List.drop_of_length_le hle
      rw [if_pos hle, hnil, chunks_of_lt (by simpa using hs), rest_of_lt (by simpa using hs)]
      rfl
    · rw [if_neg hle, arriving]

theorem arriving_short {rx : Rx} {record : List Byte} (hs : 0 < size)
    (h : (rx.read size).1 = some record) (hlen : record.length ≠ size) :
    arriving size rx.segments = [] := by
  cases hseg : rx.segments with
  | nil => rfl
  | cons seg rest' =>
    rw [(Rx.read_cons hs.ne' hseg).1] at h
    have hlt : seg.length < size := by
      rw [← Option.some.inj h, List.length_take] at hlen
      omega
    have hne : seg ≠ [] := rx.nonempty seg (by rw [hseg]; exact List.mem_cons_self)
    rw [arriving, chunks_of_lt hlt, rest_of_lt hlt, if_neg hne]
    rfl

/-- What the loop finds on a connection is the first record to arrive that passes. -/
theorem scanLoop_sock (hs : 0 < size) (test : List Byte → Bool) :
    ∀ {fuel : Nat} {s : Sys N} {rx : Rx}, s.Reliable →
      s.fds.lookup fd = some (.sock rx) → unread s fd < fuel →
      match (arriving size rx.segments).find? test with
      | some record => (scanLoop size test fuel s fd).1 = .hit record
      | none => ∃ last, (scanLoop size test fuel s fd).1 = .stop last
  | 0, s, rx, _, _, hfuel => absurd hfuel (Nat.not_lt_zero _)
  | fuel + 1, s, rx, hr, hd, hfuel => by
    have hread : s.read fd size = ((rx.read size).1, s.setDesc fd (.sock (rx.read size).2)) := by
      simp only [Sys.read, Sys.failing_of_reliable s hr, Sys.tick_of_reliable s hr, hd,
        Bool.false_eq_true, ↓reduceIte]
    rw [scanLoop, hread]
    cases hrec : (rx.read size).1 with
    | none =>
      have hnil : rx.segments = [] := by
        cases hseg : rx.segments with
        | nil => rfl
        | cons seg rest' =>
          rw [(Rx.read_cons hs.ne' hseg).1] at hrec
          cases hrec
      rw [hnil]
      exact ⟨none, rfl⟩
    | some record =>
      dsimp only
      by_cases hlen : record.length = size
      · rw [if_pos hlen, arriving_read hs hrec hlen, List.find?_cons]
        cases test record with
        | true => rfl
        | false =>
          have hleft := read_unread (hread.trans (by rw [hrec]))
          exact scanLoop_sock hs test (s := s.setDesc fd (.sock (rx.read size).2)) hr
            (Finmap.lookup_insert _) (by omega)
      · rw [if_neg hlen, arriving_short hs hrec hlen]
        exact ⟨some record, rfl⟩

end Hamster.Lib.RecordFile
