import Mathlib.Data.BitVec
import Hamster.Store.Scans

/-!
# What collecting does to a file of any content

The copying loop of `hmstr_collect` reads one descriptor and writes another. Its
invariant is a world in which the copy holds the other owners' entries read so
far; from it follow the sum, the copy and the names the call leaves behind.
-/
namespace Hamster.Store.CollectScan

open Lib.Bytes Lib.Clock Lib.Posix Lib.RecordFile Entry Library Scans

/-- The entries a collection for `ownerName` takes out. -/
def owned (ownerName : CString) (hs : List Hamsterdesc) : List Hamsterdesc :=
  hs.filter fun h => h.ownerStr = ownerName

/-- The entries it copies. -/
def others (ownerName : CString) (hs : List Hamsterdesc) : List Hamsterdesc :=
  hs.filter fun h => h.ownerStr ≠ ownerName

/-- The amounts added up, in file order; `none` if one of them aborts. -/
def charges (now : Timestamp) (ownerName : CString) (hs : List Hamsterdesc) :
    Option (List (BitVec 32)) :=
  (owned ownerName hs).mapM fun h => (getRounds now h.admissionTime).map (charge h)

section Lists
variable {now : Timestamp} {o : CString} {h : Hamsterdesc} {hs : List Hamsterdesc}

theorem owned_cons_of_eq (he : h.ownerStr = o) : owned o (h :: hs) = h :: owned o hs := by
  simp [owned, he]

theorem owned_cons_of_ne (he : h.ownerStr ≠ o) : owned o (h :: hs) = owned o hs := by
  simp [owned, he]

theorem others_cons_of_eq (he : h.ownerStr = o) : others o (h :: hs) = others o hs := by
  simp [others, he]

theorem others_cons_of_ne (he : h.ownerStr ≠ o) : others o (h :: hs) = h :: others o hs := by
  simp [others, he]

theorem charges_cons_of_eq (he : h.ownerStr = o) : charges now o (h :: hs) =
    (getRounds now h.admissionTime).bind fun r =>
      (charges now o hs).map fun cs => charge h r :: cs := by
  rw [charges, owned_cons_of_eq he, List.mapM_cons]
  simp only [Option.bind_eq_bind, Option.bind_map, Option.pure_def]
  cases getRounds now h.admissionTime with
  | none => rfl
  | some r => simp [charges, Option.map_eq_bind]

theorem charges_cons_of_ne (he : h.ownerStr ≠ o) : charges now o (h :: hs) = charges now o hs := by
  rw [charges, owned_cons_of_ne he, charges]

end Lists

section Loop
variable (b : World) (fdi fd ino jno off : Nat) (kept : List Byte)

/-- The world inside the loop: `fdi` at `off` in the old file, `fd` behind the
entries already copied to the new one. -/
def loopWorld : World :=
  ((b.setInode jno kept).setDesc fdi (.file ino off false)).setDesc fd
    (.file jno kept.length true)

variable {b fdi fd ino jno off kept}

theorem loopWorld_lookup_fdi (hne : fd ≠ fdi) :
    (loopWorld b fdi fd ino jno off kept).fds.lookup fdi = some (.file ino off false) := by
  simp only [loopWorld, Sys.setDesc_fds]
  rw [Finmap.lookup_insert_of_ne _ hne.symm, Finmap.lookup_insert]

theorem loopWorld_lookup_fd :
    (loopWorld b fdi fd ino jno off kept).fds.lookup fd = some (.file jno kept.length true) :=
  Finmap.lookup_insert _

theorem loopWorld_inodes_ino (hij : ino ≠ jno) :
    (loopWorld b fdi fd ino jno off kept).inodes ino = b.inodes ino := by
  simp [loopWorld, hij]

theorem loopWorld_setDesc_fdi (hne : fd ≠ fdi) (off' : Nat) :
    (loopWorld b fdi fd ino jno off kept).setDesc fdi (.file ino off' false) =
      loopWorld b fdi fd ino jno off' kept := by
  simp only [loopWorld, Sys.setDesc]
  rw [Finmap.insert_insert_of_ne _ hne, Finmap.insert_insert]

theorem loopWorld_read (hr : b.Reliable) (hne : fd ≠ fdi) (hij : ino ≠ jno) {n : Nat}
    {bs : List Byte} (hbs : ((b.inodes ino).drop off).take n = bs) :
    (loopWorld b fdi fd ino jno off kept).read fdi n =
      (some bs, loopWorld b fdi fd ino jno (off + bs.length) kept) := by
  rw [Sys.read_file (s := loopWorld b fdi fd ino jno off kept) hr (loopWorld_lookup_fdi hne),
    loopWorld_inodes_ino hij, hbs, loopWorld_setDesc_fdi hne]

theorem loopWorld_write (hr : b.Reliable) (bs : List Byte) :
    (loopWorld b fdi fd ino jno off kept).write fd bs =
      (some bs.length, loopWorld b fdi fd ino jno off (kept ++ bs)) := by
  have hcont : (loopWorld b fdi fd ino jno off kept).inodes jno = kept := by simp [loopWorld]
  rw [Sys.write_file (s := loopWorld b fdi fd ino jno off kept) hr loopWorld_lookup_fd, hcont,
    Sys.overwrite_append, ← List.length_append]
  change (some bs.length, ((((b.setInode jno kept).setInode jno (kept ++ bs)).setDesc fdi _).setDesc
    fd _).setDesc fd _) = _
  rw [Sys.setInode_setInode, Sys.setDesc_setDesc]
  rfl

theorem loopWorld_close (hfdi : fdi ∉ b.fds) (hfd : fd ∉ b.fds.insert fdi (.file ino off false)) :
    ((loopWorld b fdi fd ino jno off kept).close fd).close fdi = b.setInode jno kept := by
  rw [loopWorld, Sys.close_setDesc _ _ _ hfd,
    Sys.close_setDesc (s := b.setInode jno kept) _ _ hfdi]

/-- The loop reads the whole old file: the invariant holds with one entry less
to read and, unless it is the owner's, one entry more in the copy. -/
theorem collectLoop_spec (hr : b.Reliable) (hne : fd ≠ fdi) (hij : ino ≠ jno) (o : CString)
    {tail : List Byte} (ht : tail.length < 96) :
    ∀ (hs : List Hamsterdesc) (fuel off : Nat) (kept : List Byte) (total : BitVec 32)
      (found : Bool),
      (b.inodes ino).drop off = image hs ++ tail → hs.length < fuel →
      collectLoop o fdi fd fuel (loopWorld b fdi fd ino jno off kept) total found =
        (charges b.now o hs).map fun cs =>
          (.read (some tail) (total + cs.sum) (found || !(owned o hs).isEmpty),
            loopWorld b fdi fd ino jno (off + 96 * hs.length + tail.length)
              (kept ++ image (others o hs))) := by
  intro hs
  induction hs with
  | nil =>
    intro fuel off kept total found hcont hfuel
    obtain ⟨fuel, rfl⟩ : ∃ k, fuel = k + 1 := ⟨fuel - 1, by simp at hfuel; omega⟩
    have hread : ((b.inodes ino).drop off).take sizeofHamsterdesc = tail := by
      rw [hcont, image_nil, List.nil_append, List.take_of_length_le ht.le]
    rw [collectLoop, loopWorld_read hr hne hij hread]
    simp [charges, owned, others, ht.ne]
  | cons h hs ih =>
    intro fuel off kept total found hcont hfuel
    obtain ⟨fuel, rfl⟩ : ∃ k, fuel = k + 1 := ⟨fuel - 1, by simp at hfuel; omega⟩
    have hcont' : (b.inodes ino).drop off = h.toBytes ++ (image hs ++ tail) := by
      rw [hcont, image_cons, List.append_assoc]
    have hread : ((b.inodes ino).drop off).take sizeofHamsterdesc = h.toBytes := by
      rw [hcont', List.take_left' h.length_toBytes]
    have hnext : (b.inodes ino).drop (off + 96) = image hs ++ tail := by
      rw [← List.drop_drop, hcont', List.drop_left' h.length_toBytes]
    have hoff : off + 96 + 96 * hs.length = off + 96 * (hs.length + 1) := by ring
    rw [collectLoop, loopWorld_read hr hne hij hread]
    simp only [Hamsterdesc.length_toBytes, Hamsterdesc.ofBytes_toBytes, ↓reduceIte]
    by_cases he : h.ownerStr = o
    · rw [if_pos he, charges_cons_of_eq he, owned_cons_of_eq he, others_cons_of_eq he]
      have hnow : (loopWorld b fdi fd ino jno (off + 96) kept).now = b.now := rfl
      rw [hnow]
      cases getRounds b.now h.admissionTime with
      | none => rfl
      | some r =>
        simp only [Option.bind_some, Option.map_map, List.length_cons]
        rw [ih fuel (off + 96) kept _ true hnext (by simpa using hfuel), hoff]
        simp [Function.comp_def, BitVec.add_assoc]
    · rw [if_neg he, charges_cons_of_ne he, owned_cons_of_ne he, others_cons_of_ne he,
        loopWorld_write hr]
      simp only [Hamsterdesc.length_toBytes, ↓reduceIte, List.length_cons]
      rw [ih fuel (off + 96) _ _ found hnext (by simpa using hfuel), hoff]
      simp

end Loop

variable {w : World} {ino : Nat} {o : CString}

theorem collect_absent (hr : w.Reliable) (hn : w.names .datafile = none)
    (hl : tooLong o = false) : hmstrCollect w (some o) = some (hmstrErrStore, w) := by
  simp only [hmstrCollect, hl, Bool.false_eq_true, ↓reduceIte, Sys.rename_missing hr hn]

/-- After the `rename`. -/
def renamed (w : World) (ino : Nat) : World :=
  (w.setName .intermediateFile (some ino)).setName .datafile none

/-- The database renamed and a new, empty one in its place. -/
def renewed (w : World) (ino : Nat) : World := (renamed w ino).create .datafile

/-- The descriptor of the new database, opened next to the old one. -/
def copyFd (w : World) (ino : Nat) : Nat :=
  ((renamed w ino).setDesc w.lowestFree (.file ino 0 false)).lowestFree

theorem copyFd_notMem (w : World) (ino off : Nat) :
    copyFd w ino ∉ (renewed w ino).fds.insert w.lowestFree (.file ino off false) := by
  have h := ((renamed w ino).setDesc w.lowestFree (.file ino 0 false)).lowestFree_notMem
  intro hm
  exact h (Finmap.mem_insert.mpr (Finmap.mem_insert.mp hm))

theorem copyFd_ne (w : World) (ino : Nat) : copyFd w ino ≠ w.lowestFree := by
  intro h
  exact copyFd_notMem w ino 0 (Finmap.mem_insert.mpr (Or.inl h))

theorem open_old (hr : w.Reliable) : (renamed w ino).openFile .intermediateFile .rdonly =
    (some w.lowestFree, (renamed w ino).setDesc w.lowestFree (.file ino 0 false)) :=
  Sys.openFile_existing (s := renamed w ino) hr (by simp [renamed])

theorem open_new (hr : w.Reliable) :
    ((renamed w ino).setDesc w.lowestFree (.file ino 0 false)).openFile .datafile .rdwrCreat =
      (some (copyFd w ino),
        loopWorld (renewed w ino) w.lowestFree (copyFd w ino) ino w.nextIno 0 []) := by
  rw [Sys.openFile_creating (s := (renamed w ino).setDesc w.lowestFree (.file ino 0 false)) hr
    (by simp [renamed])]
  have he : (renewed w ino).setInode w.nextIno [] = renewed w ino := by
    simp [renewed, renamed, Sys.create, Sys.setInode, Sys.setName]
  rw [loopWorld, he]
  rfl

theorem collect_present (hr : w.Reliable) (hn : w.names .datafile = some ino)
    (hi : w.names .intermediateFile ≠ some ino) (hlt : ino < w.nextIno)
    (hl : tooLong o = false) :
    hmstrCollect w (some o) =
      (charges w.now o (entries (w.inodes ino))).map fun cs =>
        let w' := (renewed w ino).setInode w.nextIno (image (others o (entries (w.inodes ino))))
        if damage (w.inodes ino) = [] then
          (if (owned o (entries (w.inodes ino))).isEmpty then hmstrErrNotFound else cs.sum,
            w'.setName .intermediateFile none)
        else (hmstrErrCorrupt, w') := by
  have hij : ino ≠ w.nextIno := hlt.ne
  have hne := copyFd_ne w ino
  have hrename : w.rename .datafile .intermediateFile = (true, renamed w ino) :=
    Sys.rename_existing hr hn hi
  have hino : (renewed w ino).inodes ino = w.inodes ino := by simp [renewed, renamed, hij]
  have hcont : ((renewed w ino).inodes ino).drop 0 =
      image (entries (w.inodes ino)) ++ damage (w.inodes ino) := by
    rw [hino, List.drop_zero, image_entries]
  have hfuel : (entries (w.inodes ino)).length < unread
      (loopWorld (renewed w ino) w.lowestFree (copyFd w ino) ino w.nextIno 0 []) w.lowestFree + 1 := by
    have hcont' : ((loopWorld (renewed w ino) w.lowestFree (copyFd w ino) ino w.nextIno 0
        []).inodes ino).drop 0 =
        ((entries (w.inodes ino)).map Hamsterdesc.toBytes).flatten ++ damage (w.inodes ino) := by
      rw [loopWorld_inodes_ino hij, hcont, image_eq_flatten]
    have h := length_lt_unread (loopWorld_lookup_fdi hne) (by decide : 0 < 96) hcont'
      length_of_mem_map_toBytes
    rwa [List.length_map] at h
  have hloop := collectLoop_spec (b := renewed w ino) hr hne hij o (length_damage_lt _)
    (entries (w.inodes ino)) _ 0 [] 0 false hcont hfuel
  have hnow : (renewed w ino).now = w.now := rfl
  simp only [hmstrCollect, hl, Bool.false_eq_true, ↓reduceIte, hrename, open_old hr, open_new hr,
    hloop, hnow]
  cases charges w.now o (entries (w.inodes ino)) with
  | none => rfl
  | some cs =>
    simp only [Option.map_some, List.nil_append,
      loopWorld_close (b := renewed w ino) w.lowestFree_notMem (copyFd_notMem w ino _)]
    cases hd : damage (w.inodes ino) with
    | nil =>
      have hun : ((renewed w ino).setInode w.nextIno
            (image (others o (entries (w.inodes ino))))).unlink .intermediateFile =
          (true, ((renewed w ino).setInode w.nextIno
            (image (others o (entries (w.inodes ino))))).setName .intermediateFile none) :=
        Sys.unlink_existing hr (show _ = some ino by simp [renewed, renamed])
      simp only [hun, ↓reduceIte]
      cases (owned o (entries (w.inodes ino))).isEmpty <;> simp
    | cons x xs => simp

end Hamster.Store.CollectScan
