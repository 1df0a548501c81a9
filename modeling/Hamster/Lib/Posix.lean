import Mathlib.Data.Finmap
import Hamster.Lib.Bytes
import Hamster.Lib.Clock

/-!
# Files, names and descriptors

A process's view of a POSIX system: directory entries that name inodes, inode
contents, a table of open descriptors with their offsets, and a schedule that
says which of the coming calls fail. An inode keeps its content when its name
is removed or rebound, so an open descriptor reads on from the same bytes.

Descriptors may also be sockets: a connected one delivers the byte runs the
network hands over, a listening one refuses to be read.
-/
namespace Hamster.Lib.Posix

open Bytes Clock

/-! ## State -/

/-- What a connected socket has still to deliver: the runs that successive
reads meet, and whether an error or an orderly close follows them. -/
structure Rx where
  segments : List (List Byte)
  broken : Bool
  nonempty : ∀ seg ∈ segments, seg ≠ []
  deriving DecidableEq

namespace Rx

/-- One `read` on a connection takes at most the run at hand. -/
def read (rx : Rx) (n : Nat) : Option (List Byte) × Rx :=
  if n = 0 then (some [], rx)
  else
    match h : rx.segments with
    | [] => (if rx.broken then none else some [], rx)
    | seg :: rest =>
      if hlen : seg.length ≤ n then
        (some seg, ⟨rest, rx.broken, fun r hr => rx.nonempty r (by simp [h, hr])⟩)
      else
        (some (seg.take n), ⟨seg.drop n :: rest, rx.broken, by
          intro r hr
          rcases List.mem_cons.mp hr with rfl | hr
          · simpa using hlen
          · exact rx.nonempty r (by simp [h, hr])⟩)

/-- All that a connection has still to deliver. -/
def bytes (rx : Rx) : List Byte := rx.segments.flatten

/-- Bytes that come in one run before an orderly close. -/
def ofBytes (bs : List Byte) : Rx where
  segments := if bs = [] then [] else [bs]
  broken := false
  nonempty := by
    split
    · exact fun _ h => nomatch h
    · rename_i hne
      intro seg h
      rwa [List.mem_singleton.mp h]

@[simp] theorem bytes_ofBytes (bs : List Byte) : (ofBytes bs).bytes = bs := by
  unfold bytes ofBytes
  split
  · rename_i h
    exact h.symm
  · exact List.append_nil bs

theorem read_nil {rx : Rx} {n : Nat} (hn : n ≠ 0) (h : rx.segments = []) :
    rx.read n = (if rx.broken then none else some [], rx) := by
  unfold read
  rw [if_neg hn]
  split
  · rfl
  · rename_i hseg
    rw [h] at hseg
    cases hseg

theorem read_cons {rx : Rx} {n : Nat} (hn : n ≠ 0) {seg : List Byte} {rest : List (List Byte)}
    (h : rx.segments = seg :: rest) :
    (rx.read n).1 = some (seg.take n) ∧
      (rx.read n).2.segments = if seg.length ≤ n then rest else seg.drop n :: rest := by
  unfold read
  rw [if_neg hn]
  split
  · rename_i hseg
    rw [h] at hseg
    cases hseg
  · rename_i hseg
    rw [h] at hseg
    cases hseg
    split
    · rename_i hlen
      exact ⟨by rw [List.take_of_length_le hlen], rfl⟩
    · exact ⟨rfl, rfl⟩

/-- At the end of a stream nothing more is returned. -/
theorem read_end {rx : Rx} {n : Nat} (hn : n ≠ 0) (hs : rx.segments = []) {bs : List Byte}
    (h : (rx.read n).1 = some bs) : bs = [] ∧ (rx.read n).2 = rx := by
  rw [read_nil hn hs] at h ⊢
  cases hb : rx.broken with
  | true =>
    rw [hb] at h
    cases h
  | false =>
    rw [hb] at h
    cases h
    exact ⟨rfl, rfl⟩

/-- What a read returns comes off the front of the bytes to come. -/
theorem read_bytes {rx : Rx} {n : Nat} {bs : List Byte} (h : (rx.read n).1 = some bs) :
    bs ++ (rx.read n).2.bytes = rx.bytes := by
  by_cases hn : n = 0
  · simp only [read, hn, ↓reduceIte, Option.some.injEq] at h ⊢
    rw [← h, List.nil_append]
  · cases hseg : rx.segments with
    | nil =>
      obtain ⟨rfl, hrx⟩ := read_end hn hseg h
      rw [hrx, List.nil_append]
    | cons seg rest =>
      obtain ⟨hbs, hrest⟩ := read_cons hn hseg
      rw [hbs] at h
      rw [bytes, bytes, hrest, hseg, ← Option.some.inj h]
      split
      · rename_i hlen
        rw [List.take_of_length_le hlen]
        rfl
      · simp only [List.flatten_cons, ← List.append_assoc, List.take_append_drop]

theorem length_read {rx : Rx} {n : Nat} {bs : List Byte} (h : (rx.read n).1 = some bs) :
    bs.length ≤ n := by
  by_cases hn : n = 0
  · rw [read, if_pos hn] at h
    rw [← Option.some.inj h]
    exact Nat.zero_le n
  · cases hseg : rx.segments with
    | nil =>
      obtain ⟨rfl, -⟩ := read_end hn hseg h
      exact Nat.zero_le n
    | cons seg rest =>
      rw [(read_cons hn hseg).1] at h
      rw [← Option.some.inj h]
      exact List.length_take_le n seg

/-- Before the end a read brings at least one byte and no more than asked. -/
theorem read_some {rx : Rx} {n : Nat} (hn : n ≠ 0) (hs : rx.segments ≠ []) :
    ∃ bs, (rx.read n).1 = some bs ∧ bs ≠ [] ∧ bs.length ≤ n ∧
      rx.bytes = bs ++ (rx.read n).2.bytes := by
  obtain ⟨seg, rest, hseg⟩ := List.exists_cons_of_ne_nil hs
  have hget := (read_cons hn hseg).1
  have hne : seg.take n ≠ [] := by
    intro he
    rcases List.take_eq_nil_iff.mp he with h0 | h0
    · exact hn h0
    · exact rx.nonempty seg (by rw [hseg]; exact List.mem_cons_self) h0
  exact ⟨seg.take n, hget, hne, length_read hget, (read_bytes hget).symm⟩

theorem read_broken (rx : Rx) (n : Nat) : (rx.read n).2.broken = rx.broken := by
  unfold read
  split
  · rfl
  · split
    · rfl
    · split <;> rfl

end Rx

inductive Desc
  | file (ino off : Nat) (writable : Bool)
  | sock (rx : Rx)
  | listener
  deriving DecidableEq

inductive OpenMode
  | rdonly
  | rdwr
  | rdwrCreat
  deriving DecidableEq

def OpenMode.writable : OpenMode → Bool
  | .rdonly => false
  | .rdwr | .rdwrCreat => true

abbrev FdTable := Finmap fun _ : Nat => Desc

structure Sys (N : Type) where
  names : N → Option Nat
  inodes : Nat → List Byte
  nextIno : Nat
  fds : FdTable
  /-- The fate of the coming calls, `true` for failure; when it runs out no
  further call fails. -/
  faults : List Bool
  now : Timestamp

variable {N : Type} [DecidableEq N]

namespace Sys

/-- No call to come fails. -/
def Reliable (s : Sys N) : Prop := s.faults = []

def failing (s : Sys N) : Bool := s.faults.headD false

def tick (s : Sys N) : Sys N := { s with faults := s.faults.tail }

/-- The content under a name, if the name exists. -/
def content (s : Sys N) (name : N) : Option (List Byte) := (s.names name).map s.inodes

def setDesc (s : Sys N) (fd : Nat) (d : Desc) : Sys N := { s with fds := s.fds.insert fd d }

def setInode (s : Sys N) (ino : Nat) (bs : List Byte) : Sys N :=
  { s with inodes := Function.update s.inodes ino bs }

def setName (s : Sys N) (name : N) (ino : Option Nat) : Sys N :=
  { s with names := Function.update s.names name ino }

/-- A new name for a new, empty inode. -/
def create (s : Sys N) (name : N) : Sys N :=
  { (s.setName name (some s.nextIno)).setInode s.nextIno [] with nextIno := s.nextIno + 1 }

def lowestFree (s : Sys N) : Nat :=
  ((List.range (s.fds.keys.card + 1)).find? (fun fd => fd ∉ s.fds)).getD 0

/-- `open`; `none` is the result `-1`. -/
def openFile (s : Sys N) (name : N) (mode : OpenMode) : Option Nat × Sys N :=
  if s.failing then (none, s.tick)
  else
    let s := s.tick
    match s.names name, mode with
    | some ino, _ => (some s.lowestFree, s.setDesc s.lowestFree (.file ino 0 mode.writable))
    | none, .rdwrCreat =>
        (some s.lowestFree, (s.create name).setDesc s.lowestFree (.file s.nextIno 0 true))
    | none, _ => (none, s)

/-- `read(fd, buf, n)`: the bytes put into `buf`, or `none` for `-1`. -/
def read (s : Sys N) (fd n : Nat) : Option (List Byte) × Sys N :=
  if s.failing then (none, s.tick)
  else
    let s := s.tick
    match s.fds.lookup fd with
    | some (.file ino off w) =>
        let bs := ((s.inodes ino).drop off).take n
        (some bs, s.setDesc fd (.file ino (off + bs.length) w))
    | some (.sock rx) => ((rx.read n).1, s.setDesc fd (.sock (rx.read n).2))
    | some .listener | none => (none, s)

/-- Bytes put over `content` at `off`; a gap in front of `off` reads as zeros. -/
def overwrite (content : List Byte) (off : Nat) (bs : List Byte) : List Byte :=
  (content ++ List.replicate (off - content.length) 0).take off ++ bs ++
    content.drop (off + bs.length)

/-- `accept(fd, …)`: the next connection, whose bytes will come as `rx` says. -/
def accept (s : Sys N) (fd : Nat) (rx : Rx) : Option Nat × Sys N :=
  if s.failing then (none, s.tick)
  else
    let s := s.tick
    match s.fds.lookup fd with
    | some .listener => (some s.lowestFree, s.setDesc s.lowestFree (.sock rx))
    | some (.file _ _ _) | some (.sock _) | none => (none, s)

/-- `write(fd, bs, |bs|)`: the number of bytes written, or `none` for `-1`. -/
def write (s : Sys N) (fd : Nat) (bs : List Byte) : Option Nat × Sys N :=
  if s.failing then (none, s.tick)
  else
    let s := s.tick
    match s.fds.lookup fd with
    | some (.file ino off true) =>
        (some bs.length,
          (s.setInode ino (overwrite (s.inodes ino) off bs)).setDesc fd
            (.file ino (off + bs.length) true))
    | some (.sock _) => (some bs.length, s)
    | some (.file _ _ false) | some .listener | none => (none, s)

/-- `lseek(fd, delta, SEEK_CUR)`. -/
def lseekCur (s : Sys N) (fd : Nat) (delta : Int) : Option Nat × Sys N :=
  if s.failing then (none, s.tick)
  else
    let s := s.tick
    match s.fds.lookup fd with
    | some (.file ino off w) =>
        if (off : Int) + delta < 0 then (none, s)
        else
          let off' := ((off : Int) + delta).toNat
          (some off', s.setDesc fd (.file ino off' w))
    | some (.sock _) | some .listener | none => (none, s)

def close (s : Sys N) (fd : Nat) : Sys N := { s with fds := s.fds.erase fd }

/-- `rename`; `true` is success. Two names of one inode are left alone. -/
def rename (s : Sys N) (old new : N) : Bool × Sys N :=
  if s.failing then (false, s.tick)
  else
    let s := s.tick
    match s.names old with
    | none => (false, s)
    | some ino =>
        if s.names new = some ino then (true, s)
        else (true, (s.setName new (some ino)).setName old none)

/-- `unlink`; `true` is success. -/
def unlink (s : Sys N) (name : N) : Bool × Sys N :=
  if s.failing then (false, s.tick)
  else
    let s := s.tick
    match s.names name with
    | none => (false, s)
    | some _ => (true, s.setName name none)

end Sys

/-! ## The updates, field by field -/

namespace Sys

section Fields
variable {N : Type} (s : Sys N) (fd ino : Nat) (d d' : Desc) (bs : List Byte)

@[simp] theorem setDesc_names : (s.setDesc fd d).names = s.names := rfl
@[simp] theorem setDesc_inodes : (s.setDesc fd d).inodes = s.inodes := rfl
@[simp] theorem setDesc_nextIno : (s.setDesc fd d).nextIno = s.nextIno := rfl
@[simp] theorem setDesc_fds : (s.setDesc fd d).fds = s.fds.insert fd d := rfl
@[simp] theorem setDesc_faults : (s.setDesc fd d).faults = s.faults := rfl
@[simp] theorem setDesc_now : (s.setDesc fd d).now = s.now := rfl

@[simp] theorem setInode_names : (s.setInode ino bs).names = s.names := rfl
@[simp] theorem setInode_inodes :
    (s.setInode ino bs).inodes = Function.update s.inodes ino bs := rfl
@[simp] theorem setInode_nextIno : (s.setInode ino bs).nextIno = s.nextIno := rfl
@[simp] theorem setInode_fds : (s.setInode ino bs).fds = s.fds := rfl
@[simp] theorem setInode_faults : (s.setInode ino bs).faults = s.faults := rfl
@[simp] theorem setInode_now : (s.setInode ino bs).now = s.now := rfl

@[simp] theorem close_names : (s.close fd).names = s.names := rfl
@[simp] theorem close_inodes : (s.close fd).inodes = s.inodes := rfl
@[simp] theorem close_nextIno : (s.close fd).nextIno = s.nextIno := rfl
@[simp] theorem close_fds : (s.close fd).fds = s.fds.erase fd := rfl
@[simp] theorem close_faults : (s.close fd).faults = s.faults := rfl
@[simp] theorem close_now : (s.close fd).now = s.now := rfl

@[simp] theorem setDesc_setDesc : (s.setDesc fd d).setDesc fd d' = s.setDesc fd d' := by
  simp only [setDesc, Finmap.insert_insert]

@[simp] theorem setInode_setInode (bs' : List Byte) :
    (s.setInode ino bs).setInode ino bs' = s.setInode ino bs' := by
  simp only [setInode, Function.update_idem]

/-- A descriptor opened and closed again leaves the table as it was. -/
theorem close_setDesc (h : fd ∉ s.fds) : (s.setDesc fd d).close fd = s := by
  have ht : (s.fds.insert fd d).erase fd = s.fds := by
    apply Finmap.ext_lookup
    intro x
    by_cases hx : x = fd
    · subst hx
      rw [Finmap.lookup_erase, Finmap.lookup_eq_none.mpr h]
    · rw [Finmap.lookup_erase_ne hx, Finmap.lookup_insert_of_ne _ hx]
  simp only [close, setDesc, ht]

theorem tick_of_reliable (h : s.Reliable) : s.tick = s := by
  unfold Reliable at h
  simp only [tick, h, List.tail_nil]
  cases s
  simp_all

theorem failing_of_reliable (h : s.Reliable) : s.failing = false := by
  unfold Reliable at h
  simp [failing, h]

theorem lowestFree_notMem : s.lowestFree ∉ s.fds := by
  unfold lowestFree
  cases hf : (List.range (s.fds.keys.card + 1)).find? (fun fd => fd ∉ s.fds) with
  | some fd => simpa using List.find?_some hf
  | none =>
    -- every number up to the size of the table would be open: too many
    have hsub : Finset.range (s.fds.keys.card + 1) ⊆ s.fds.keys := by
      intro fd hfd
      have h := List.find?_eq_none.mp hf fd (by simpa using hfd)
      simpa [Finmap.mem_keys] using h
    have hcard := Finset.card_le_card hsub
    rw [Finset.card_range] at hcard
    omega

theorem lowestFree_le {n : Nat} (h : n ∉ s.fds) : s.lowestFree ≤ n := by
  unfold lowestFree
  cases hf : (List.range (s.fds.keys.card + 1)).find? (fun fd => fd ∉ s.fds) with
  | none => exact Nat.zero_le n
  | some fd =>
    obtain ⟨-, -, hlower⟩ := List.find?_range_eq_some.mp hf
    refine Nat.not_lt.mp fun hlt => h ?_
    simpa using hlower n hlt

end Fields

section NameFields
variable {N : Type} [DecidableEq N] (s : Sys N) (name : N) (i : Option Nat)

@[simp] theorem setName_names :
    (s.setName name i).names = Function.update s.names name i := rfl
@[simp] theorem setName_inodes : (s.setName name i).inodes = s.inodes := rfl
@[simp] theorem setName_nextIno : (s.setName name i).nextIno = s.nextIno := rfl
@[simp] theorem setName_fds : (s.setName name i).fds = s.fds := rfl
@[simp] theorem setName_faults : (s.setName name i).faults = s.faults := rfl
@[simp] theorem setName_now : (s.setName name i).now = s.now := rfl

@[simp] theorem create_names :
    (s.create name).names = Function.update s.names name (some s.nextIno) := rfl
@[simp] theorem create_inodes :
    (s.create name).inodes = Function.update s.inodes s.nextIno [] := rfl
@[simp] theorem create_nextIno : (s.create name).nextIno = s.nextIno + 1 := rfl
@[simp] theorem create_fds : (s.create name).fds = s.fds := rfl
@[simp] theorem create_faults : (s.create name).faults = s.faults := rfl
@[simp] theorem create_now : (s.create name).now = s.now := rfl

end NameFields

/-! ## Calls that do not fail -/

section DescriptorCalls
variable {N : Type} {s : Sys N} {fd ino off n : Nat} {w : Bool} {bs : List Byte}

theorem read_file (hr : s.Reliable) (hd : s.fds.lookup fd = some (.file ino off w)) :
    s.read fd n = (some (((s.inodes ino).drop off).take n),
      s.setDesc fd (.file ino (off + (((s.inodes ino).drop off).take n).length) w)) := by
  simp [read, failing_of_reliable s hr, tick_of_reliable s hr, hd]

theorem read_closed (hr : s.Reliable) (hd : fd ∉ s.fds) : s.read fd n = (none, s) := by
  simp [read, failing_of_reliable s hr, tick_of_reliable s hr, Finmap.lookup_eq_none.mpr hd]

theorem write_file (hr : s.Reliable) (hd : s.fds.lookup fd = some (.file ino off true)) :
    s.write fd bs = (some bs.length,
      (s.setInode ino (overwrite (s.inodes ino) off bs)).setDesc fd
        (.file ino (off + bs.length) true)) := by
  simp [write, failing_of_reliable s hr, tick_of_reliable s hr, hd]

theorem lseekCur_back {k : Nat} (hr : s.Reliable)
    (hd : s.fds.lookup fd = some (.file ino (off + k) w)) :
    s.lseekCur fd (-(k : Int)) = (some off, s.setDesc fd (.file ino off w)) := by
  have hneg : ¬ ((off + k : Nat) : Int) + -(k : Int) < 0 := by omega
  have hoff : (((off + k : Nat) : Int) + -(k : Int)).toNat = off := by omega
  simp only [lseekCur, failing_of_reliable s hr, tick_of_reliable s hr, hd, hneg, hoff,
    Bool.false_eq_true, ↓reduceIte]

end DescriptorCalls

/-! ## What a descriptor delivers -/

/-- The rest of a file, or a connection; nothing if a `read` fails. -/
def ahead {N : Type} (s : Sys N) (fd : Nat) : Option (List Byte ⊕ Rx) :=
  match s.fds.lookup fd with
  | some (.file ino off _) => some (.inl ((s.inodes ino).drop off))
  | some (.sock rx) => some (.inr rx)
  | some .listener | none => none

section Ahead
variable {N M : Type} {s : Sys N} {s' : Sys M} {fd fd' : Nat}

/-- A `read` delivers of what is ahead and moves on. -/
theorem read_ahead (hr : s.Reliable) (fd n : Nat) :
    (s.read fd n).2.Reliable ∧
      match s.ahead fd with
      | some (.inl bs) => (s.read fd n).1 = some (bs.take n) ∧
          (s.read fd n).2.ahead fd = some (.inl (bs.drop (bs.take n).length))
      | some (.inr rx) => (s.read fd n).1 = (rx.read n).1 ∧
          (s.read fd n).2.ahead fd = some (.inr (rx.read n).2)
      | none => (s.read fd n).1 = none ∧ (s.read fd n).2.ahead fd = none := by
  have hmoved (d : Desc) : (s.setDesc fd d).fds.lookup fd = some d := Finmap.lookup_insert _
  unfold read ahead
  simp only [failing_of_reliable s hr, tick_of_reliable s hr, Bool.false_eq_true, ↓reduceIte]
  cases hd : s.fds.lookup fd with
  | none => exact ⟨hr, rfl, by simp only [hd]⟩
  | some d =>
    cases d with
    | listener => exact ⟨hr, rfl, by simp only [hd]⟩
    | sock rx => exact ⟨hr, rfl, by simp only [hmoved]⟩
    | file ino off w => exact ⟨hr, rfl, by simp only [hmoved, setDesc_inodes, List.drop_drop]⟩

/-- Where the same is ahead the same is read. -/
theorem read_congr (hr : s.Reliable) (hr' : s'.Reliable) (h : s.ahead fd = s'.ahead fd') (n : Nat) :
    (s.read fd n).1 = (s'.read fd' n).1 ∧
      (s.read fd n).2.ahead fd = (s'.read fd' n).2.ahead fd' := by
  have hread := (read_ahead hr fd n).2
  have hread' := (read_ahead hr' fd' n).2
  rw [h] at hread
  cases ha : s'.ahead fd' with
  | none =>
    rw [ha] at hread hread'
    exact ⟨hread.1.trans hread'.1.symm, hread.2.trans hread'.2.symm⟩
  | some x =>
    rw [ha] at hread hread'
    cases x with
    | inl bs => exact ⟨hread.1.trans hread'.1.symm, hread.2.trans hread'.2.symm⟩
    | inr rx => exact ⟨hread.1.trans hread'.1.symm, hread.2.trans hread'.2.symm⟩

end Ahead

section NameCalls
variable {N : Type} [DecidableEq N] {s : Sys N} {name : N} {ino : Nat}

theorem openFile_existing {mode : OpenMode} (hr : s.Reliable) (hn : s.names name = some ino) :
    s.openFile name mode =
      (some s.lowestFree, s.setDesc s.lowestFree (.file ino 0 mode.writable)) := by
  simp [openFile, failing_of_reliable s hr, tick_of_reliable s hr, hn]

theorem openFile_creating (hr : s.Reliable) (hn : s.names name = none) :
    s.openFile name .rdwrCreat =
      (some s.lowestFree, (s.create name).setDesc s.lowestFree (.file s.nextIno 0 true)) := by
  simp [openFile, failing_of_reliable s hr, tick_of_reliable s hr, hn]

theorem openFile_missing (hr : s.Reliable) (hn : s.names name = none) (mode : OpenMode)
    (hm : mode ≠ .rdwrCreat) :
    s.openFile name mode = (none, s) := by
  cases mode <;> simp_all [openFile, failing_of_reliable s hr, tick_of_reliable s hr]

theorem rename_existing {old new : N} (hr : s.Reliable) (hn : s.names old = some ino)
    (hne : s.names new ≠ some ino) :
    s.rename old new = (true, (s.setName new (some ino)).setName old none) := by
  simp [rename, failing_of_reliable s hr, tick_of_reliable s hr, hn, hne]

theorem rename_missing {old new : N} (hr : s.Reliable) (hn : s.names old = none) :
    s.rename old new = (false, s) := by
  simp [rename, failing_of_reliable s hr, tick_of_reliable s hr, hn]

theorem unlink_existing (hr : s.Reliable) (hn : s.names name = some ino) :
    s.unlink name = (true, s.setName name none) := by
  simp [unlink, failing_of_reliable s hr, tick_of_reliable s hr, hn]

end NameCalls

/-! ## Reading leaves the files alone -/

/-- The same names for the same contents. -/
structure SameFiles {N : Type} (s s' : Sys N) : Prop where
  names : s'.names = s.names
  inodes : s'.inodes = s.inodes

theorem SameFiles.refl {N : Type} (s : Sys N) : SameFiles s s := ⟨rfl, rfl⟩

theorem SameFiles.trans {N : Type} {s s' s'' : Sys N} (h : SameFiles s s')
    (h' : SameFiles s' s'') : SameFiles s s'' :=
  ⟨h'.names.trans h.names, h'.inodes.trans h.inodes⟩

theorem SameFiles.content {N : Type} {s s' : Sys N} (h : SameFiles s s') (name : N) :
    s'.content name = s.content name := by
  rw [Sys.content, Sys.content, h.names, h.inodes]

/-- The files are the same, none was created, and no more calls are going to fail. -/
structure OnlyReads {N : Type} (s s' : Sys N) : Prop extends SameFiles s s' where
  nextIno : s'.nextIno = s.nextIno
  reliable : s.Reliable → s'.Reliable

section OnlyReads
variable {N : Type} {s s' s'' : Sys N}

theorem OnlyReads.refl (s : Sys N) : OnlyReads s s := ⟨.refl s, rfl, id⟩

theorem OnlyReads.trans (h : OnlyReads s s') (h' : OnlyReads s' s'') : OnlyReads s s'' :=
  ⟨h.toSameFiles.trans h'.toSameFiles, h'.nextIno.trans h.nextIno,
    fun hr => h'.reliable (h.reliable hr)⟩

theorem tick_onlyReads (s : Sys N) : OnlyReads s s.tick :=
  ⟨⟨rfl, rfl⟩, rfl, fun hr => by rw [Reliable, tick, show s.faults = [] from hr]; rfl⟩

/-- Whatever becomes of its descriptors. -/
theorem OnlyReads.setFds (h : OnlyReads s s') (fds : FdTable) :
    OnlyReads s { s' with fds := fds } :=
  ⟨⟨h.names, h.inodes⟩, h.nextIno, h.reliable⟩

theorem read_now (s : Sys N) (fd n : Nat) : (s.read fd n).2.now = s.now := by
  unfold read
  split
  · rfl
  · dsimp only
    split
    · rfl
    · rfl
    · rfl
    · rfl

theorem read_onlyReads (s : Sys N) (fd n : Nat) : OnlyReads s (s.read fd n).2 := by
  have htick := tick_onlyReads s
  unfold read
  split
  · exact htick
  · dsimp only
    split
    · exact htick.setFds _
    · exact htick.setFds _
    · exact htick
    · exact htick

theorem openFile_onlyReads [DecidableEq N] (s : Sys N) (name : N) {mode : OpenMode}
    (hm : mode ≠ .rdwrCreat) : OnlyReads s (s.openFile name mode).2 := by
  have htick := tick_onlyReads s
  unfold openFile
  split
  · exact htick
  · dsimp only
    split
    · exact htick.setFds _
    · exact absurd rfl hm
    · exact htick

end OnlyReads

/-! ## A call changes its own descriptor -/

/-- Every descriptor but `fd` is left alone. -/
def OnlyFd {N : Type} (fd : Nat) (s s' : Sys N) : Prop :=
  ∀ x, x ≠ fd → s'.fds.lookup x = s.fds.lookup x

/-- Every descriptor that was open is left alone. -/
def Spares {N : Type} (s s' : Sys N) : Prop := ∀ x ∈ s.fds, s'.fds.lookup x = s.fds.lookup x

section Descriptors
variable {N : Type} {s s' s'' : Sys N} {fd : Nat}

theorem OnlyFd.refl (fd : Nat) (s : Sys N) : OnlyFd fd s s := fun _ _ => rfl

theorem OnlyFd.trans (h : OnlyFd fd s s') (h' : OnlyFd fd s' s'') : OnlyFd fd s s'' :=
  fun x hx => (h' x hx).trans (h x hx)

theorem OnlyFd.spares (h : OnlyFd fd s s') (hfd : fd ∉ s.fds) : Spares s s' :=
  fun x hx => h x fun he => hfd (he ▸ hx)

theorem Spares.of_fds (h : s'.fds = s.fds) : Spares s s' := fun _ _ => by rw [h]

theorem setDesc_onlyFd (s : Sys N) (fd : Nat) (d : Desc) : OnlyFd fd s (s.setDesc fd d) :=
  fun _ hx => Finmap.lookup_insert_of_ne _ hx

theorem close_onlyFd (s : Sys N) (fd : Nat) : OnlyFd fd s (s.close fd) :=
  fun _ hx => Finmap.lookup_erase_ne hx

theorem read_onlyFd (s : Sys N) (fd n : Nat) : OnlyFd fd s (s.read fd n).2 := by
  unfold read
  split
  · exact .refl fd s
  · dsimp only
    split
    · exact setDesc_onlyFd s.tick fd _
    · exact setDesc_onlyFd s.tick fd _
    · exact .refl fd s
    · exact .refl fd s

theorem write_onlyFd (s : Sys N) (fd : Nat) (bs : List Byte) : OnlyFd fd s (s.write fd bs).2 := by
  unfold write
  split
  · exact .refl fd s
  · dsimp only
    split
    · exact setDesc_onlyFd (s.tick.setInode _ _) fd _
    all_goals exact .refl fd s

theorem lseekCur_onlyFd (s : Sys N) (fd : Nat) (delta : Int) :
    OnlyFd fd s (s.lseekCur fd delta).2 := by
  unfold lseekCur
  split
  · exact .refl fd s
  · dsimp only
    split
    · split
      · exact .refl fd s
      · exact setDesc_onlyFd s.tick fd _
    all_goals exact .refl fd s

variable [DecidableEq N]

/-- A file is opened on a number that was free. -/
theorem openFile_fds {name : N} {mode : OpenMode} (h : s.openFile name mode = (some fd, s')) :
    fd ∉ s.fds ∧ OnlyFd fd s s' := by
  unfold openFile at h
  split at h
  · cases h
  · dsimp only at h
    split at h
    · cases h
      exact ⟨s.tick.lowestFree_notMem, setDesc_onlyFd s.tick _ _⟩
    · cases h
      exact ⟨s.tick.lowestFree_notMem, setDesc_onlyFd (s.tick.create name) _ _⟩
    · cases h

/-- The descriptor is a file's. -/
def IsFile {N : Type} (s : Sys N) (fd : Nat) : Prop :=
  ∃ ino off w, s.fds.lookup fd = some (.file ino off w)

theorem isFile_setDesc {N : Type} (s : Sys N) (fd ino off : Nat) (w : Bool) :
    IsFile (s.setDesc fd (.file ino off w)) fd := ⟨ino, off, w, Finmap.lookup_insert _⟩

theorem IsFile.congr {N : Type} {s s' : Sys N} {fd : Nat} (h : IsFile s fd)
    (he : s'.fds.lookup fd = s.fds.lookup fd) : IsFile s' fd := by
  obtain ⟨ino, off, w, hd⟩ := h
  exact ⟨ino, off, w, he.trans hd⟩

theorem IsFile.mem {N : Type} {s : Sys N} {fd : Nat} (h : IsFile s fd) : fd ∈ s.fds := by
  obtain ⟨ino, off, w, hd⟩ := h
  exact Finmap.mem_of_lookup_eq_some hd

theorem IsFile.read {N : Type} {s : Sys N} {fd : Nat} (h : IsFile s fd) (n : Nat) :
    IsFile (s.read fd n).2 fd := by
  obtain ⟨ino, off, w, hd⟩ := h
  unfold Sys.read
  split
  · exact ⟨ino, off, w, hd⟩
  · have hd' : s.tick.fds.lookup fd = some (.file ino off w) := hd
    simp only [hd']
    exact isFile_setDesc ..

/-- The descriptor is a connection's. -/
def IsSock {N : Type} (s : Sys N) (fd : Nat) : Prop := ∃ rx, s.fds.lookup fd = some (.sock rx)

theorem IsSock.congr {N : Type} {s s' : Sys N} {fd : Nat} (h : IsSock s fd)
    (he : s'.fds.lookup fd = s.fds.lookup fd) : IsSock s' fd := by
  obtain ⟨rx, hd⟩ := h
  exact ⟨rx, he.trans hd⟩

theorem IsSock.mem {N : Type} {s : Sys N} {fd : Nat} (h : IsSock s fd) : fd ∈ s.fds := by
  obtain ⟨rx, hd⟩ := h
  exact Finmap.mem_of_lookup_eq_some hd

theorem IsSock.not_isFile {N : Type} {s : Sys N} {fd : Nat} (h : IsSock s fd) : ¬ IsFile s fd := by
  rintro ⟨ino, off, w, hf⟩
  obtain ⟨rx, hd⟩ := h
  rw [hd] at hf
  cases hf

theorem IsSock.read {N : Type} {s : Sys N} {fd : Nat} (h : IsSock s fd) (n : Nat) :
    IsSock (s.read fd n).2 fd := by
  obtain ⟨rx, hd⟩ := h
  unfold Sys.read
  split
  · exact ⟨rx, hd⟩
  · have hd' : s.tick.fds.lookup fd = some (.sock rx) := hd
    simp only [hd']
    exact ⟨_, Finmap.lookup_insert _⟩

/-- A connection comes in on a number that was free. -/
theorem accept_fds {N : Type} (s : Sys N) (fd : Nat) (rx : Rx) : Spares s (s.accept fd rx).2 ∧
    ∀ x, (s.accept fd rx).1 = some x → IsSock (s.accept fd rx).2 x := by
  unfold accept
  split
  · exact ⟨.of_fds rfl, nofun⟩
  · dsimp only
    split
    · refine ⟨(setDesc_onlyFd s.tick _ _).spares s.tick.lowestFree_notMem, ?_⟩
      rintro x ⟨⟩
      exact ⟨rx, Finmap.lookup_insert _⟩
    all_goals exact ⟨.of_fds rfl, nofun⟩

theorem openFile_isFile {name : N} {mode : OpenMode} (h : s.openFile name mode = (some fd, s')) :
    IsFile s' fd := by
  unfold openFile at h
  split at h
  · cases h
  · dsimp only at h
    split at h
    · cases h
      exact isFile_setDesc ..
    · cases h
      exact isFile_setDesc ..
    · cases h

theorem openFile_failed {name : N} {mode : OpenMode} (h : s.openFile name mode = (none, s')) :
    s'.fds = s.fds := by
  unfold openFile at h
  split at h
  · cases h
    rfl
  · dsimp only at h
    split at h
    · cases h
    · cases h
    · cases h
      rfl

theorem rename_fds (old new : N) : (s.rename old new).2.fds = s.fds := by
  unfold rename
  split
  · rfl
  · dsimp only
    split
    · rfl
    · split <;> rfl

theorem unlink_fds (name : N) : (s.unlink name).2.fds = s.fds := by
  unfold unlink
  split
  · rfl
  · dsimp only
    split <;> rfl

end Descriptors

/-! ## Which calls fail -/

section Failing
variable {N : Type} [DecidableEq N] (s : Sys N)

theorem openFile_faults (name : N) (mode : OpenMode) :
    (s.openFile name mode).2.faults = s.faults.tail := by
  unfold openFile
  split
  · rfl
  · dsimp only
    split <;> rfl

theorem rename_faults (old new : N) : (s.rename old new).2.faults = s.faults.tail := by
  unfold rename
  split
  · rfl
  · dsimp only
    split
    · rfl
    · split <;> rfl

theorem openFile_eq_none_iff (name : N) (mode : OpenMode) : (s.openFile name mode).1 = none ↔
    s.failing = true ∨ (s.names name = none ∧ mode ≠ .rdwrCreat) := by
  unfold openFile
  cases hf : s.failing with
  | true => simp
  | false =>
    have hnames : s.tick.names name = s.names name := rfl
    simp only [Bool.false_eq_true, ↓reduceIte, hnames]
    cases s.names name with
    | some ino => simp
    | none => cases mode <;> simp

theorem rename_fst (old new : N) :
    (s.rename old new).1 = (!s.failing && (s.names old).isSome) := by
  unfold rename
  cases hf : s.failing with
  | true => rfl
  | false =>
    have hnames : s.tick.names old = s.names old := rfl
    simp only [Bool.false_eq_true, ↓reduceIte, hnames]
    cases s.names old with
    | none => rfl
    | some ino =>
      dsimp only
      split <;> rfl

/-- What was renamed is there under its new name. -/
theorem rename_names {old new : N} {s' : Sys N} (h : s.rename old new = (true, s')) :
    s'.names new ≠ none := by
  unfold rename at h
  split at h
  · cases h
  · dsimp only at h
    split at h
    · cases h
    · rename_i ino hold
      split at h
      · rename_i hsame
        cases h
        rw [hsame]
        exact nofun
      · rename_i hne
        cases h
        have hnew : new ≠ old := by
          rintro rfl
          exact hne hold
        rw [setName_names, setName_names, Function.update_of_ne hnew, Function.update_self]
        exact nofun

end Failing

theorem overwrite_append (content bs : List Byte) :
    overwrite content content.length bs = content ++ bs := by
  simp [overwrite]

/-- Bytes put over a run of the same length replace just that run. -/
theorem overwrite_middle {pre old post bs : List Byte} (h : bs.length = old.length) :
    overwrite (pre ++ old ++ post) pre.length bs = pre ++ bs ++ post := by
  have hgap : pre.length - (pre ++ old ++ post).length = 0 := by simp
  have hdrop : (pre ++ old ++ post).drop (pre.length + bs.length) = post := by
    rw [h, ← List.length_append, List.drop_left]
  rw [overwrite, hgap, hdrop, List.replicate_zero, List.append_nil,
    List.append_assoc pre old, List.take_left]

end Sys
end Hamster.Lib.Posix
