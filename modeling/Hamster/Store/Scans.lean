import Mathlib.Data.List.Lookmap
import Hamster.Store.Library

/-!
# What each function does to a file of any content

One equation for each function that scans the database, for a world in which no
file system call fails. The file is described by its complete entries and the
bytes behind them; nothing is assumed about either.
-/
namespace Hamster.Store.Scans

open Lib.Bytes Lib.Clock Lib.Posix Lib.RecordFile Entry Library

variable {w : World} {fd ino off : Nat} {wr : Bool} {test : Hamsterdesc → Bool}

theorem scanEntries_hit (hr : w.Reliable) (hd : w.fds.lookup fd = some (.file ino off wr))
    {pre post : List Hamsterdesc} {h : Hamsterdesc} {tail : List Byte}
    (hcont : (w.inodes ino).drop off = image (pre ++ h :: post) ++ tail)
    (hpre : ∀ x ∈ pre, test x = false) (hh : test h = true) :
    scanEntries test w fd =
      (.hit h.toBytes, w.setDesc fd (.file ino (off + 96 * (pre.length + 1)) wr)) := by
  rw [image_eq_flatten, List.map_append, List.map_cons] at hcont
  have hpre' : ∀ c ∈ pre.map Hamsterdesc.toBytes,
      c.length = 96 ∧ test (Hamsterdesc.ofBytes c) = false := by
    intro c hc
    obtain ⟨x, hx, rfl⟩ := List.mem_map.mp hc
    exact ⟨x.length_toBytes, by rw [Hamsterdesc.ofBytes_toBytes, hpre x hx]⟩
  have hh' : test (Hamsterdesc.ofBytes h.toBytes) = true := by
    rw [Hamsterdesc.ofBytes_toBytes, hh]
  rw [scanEntries, scan_hit hr hd hcont hpre' h.length_toBytes hh' (by decide), List.length_map]

theorem scanEntries_stop (hr : w.Reliable) (hd : w.fds.lookup fd = some (.file ino off wr))
    {hs : List Hamsterdesc} {tail : List Byte}
    (hcont : (w.inodes ino).drop off = image hs ++ tail) (ht : tail.length < 96)
    (hno : ∀ x ∈ hs, test x = false) :
    scanEntries test w fd =
      (.stop (some tail), w.setDesc fd (.file ino (off + 96 * hs.length + tail.length) wr)) := by
  rw [image_eq_flatten] at hcont
  have hno' : ∀ c ∈ hs.map Hamsterdesc.toBytes,
      c.length = 96 ∧ test (Hamsterdesc.ofBytes c) = false := by
    intro c hc
    obtain ⟨x, hx, rfl⟩ := List.mem_map.mp hc
    exact ⟨x.length_toBytes, by rw [Hamsterdesc.ofBytes_toBytes, hno x hx]⟩
  rw [scanEntries, scan_stop hr hd hcont hno' ht, List.length_map]

/-- Either no entry passes the test, or there is a first one. -/
theorem first_or_none (test : Hamsterdesc → Bool) (hs : List Hamsterdesc) :
    (hs.find? test = none ∧ ∀ x ∈ hs, test x = false) ∨
      ∃ pre h post, hs = pre ++ h :: post ∧ (∀ x ∈ pre, test x = false) ∧ test h = true ∧
        hs.find? test = some h := by
  cases hf : hs.find? test with
  | none => exact .inl ⟨rfl, fun x hx => by simpa using List.find?_eq_none.mp hf x hx⟩
  | some h =>
    obtain ⟨hh, pre, post, rfl, hpre⟩ := List.find?_eq_some_iff_append.mp hf
    exact .inr ⟨pre, h, post, rfl, fun x hx => by simpa using hpre x hx, hh, rfl⟩

/-- A freshly opened descriptor, scanned and moved. -/
theorem lookup_setDesc (w : World) (fd : Nat) (d : Desc) :
    (w.setDesc fd d).fds.lookup fd = some d := Finmap.lookup_insert _

theorem drop_zero_content (c : List Byte) :
    c.drop 0 = image (entries c) ++ damage c := by
  rw [List.drop_zero, image_entries]

/-- The scan of a database just opened. -/
theorem scanEntries_opened (hr : w.Reliable) (test : Hamsterdesc → Bool) (fd ino : Nat)
    (wr : Bool) :
    (∃ pre h post, entries (w.inodes ino) = pre ++ h :: post ∧ (∀ x ∈ pre, test x = false) ∧
        test h = true ∧ (entries (w.inodes ino)).find? test = some h ∧
        scanEntries test (w.setDesc fd (.file ino 0 wr)) fd =
          (.hit h.toBytes, w.setDesc fd (.file ino (96 * (pre.length + 1)) wr))) ∨
      ((entries (w.inodes ino)).find? test = none ∧ (∀ x ∈ entries (w.inodes ino), test x = false) ∧
        scanEntries test (w.setDesc fd (.file ino 0 wr)) fd =
          (.stop (some (damage (w.inodes ino))),
            w.setDesc fd (.file ino (w.inodes ino).length wr))) := by
  have hcont := drop_zero_content (w.inodes ino)
  rcases first_or_none test (entries (w.inodes ino)) with ⟨hf, hno⟩ | ⟨pre, h, post, he, hpre, hh, hf⟩
  · right
    refine ⟨hf, hno, ?_⟩
    have hlen := congrArg List.length (image_entries (w.inodes ino))
    rw [List.length_append, length_image] at hlen
    rw [scanEntries_stop (w := w.setDesc fd (.file ino 0 wr)) hr (lookup_setDesc ..) hcont
      (length_damage_lt _) hno, Sys.setDesc_setDesc, Nat.zero_add, hlen]
  · left
    refine ⟨pre, h, post, he, hpre, hh, hf, ?_⟩
    rw [he] at hcont
    rw [scanEntries_hit (w := w.setDesc fd (.file ino 0 wr)) hr (lookup_setDesc ..) hcont hpre hh,
      Sys.setDesc_setDesc, Nat.zero_add]

theorem close_opened (w : World) (d : Desc) :
    (w.setDesc w.lowestFree d).close w.lowestFree = w :=
  Sys.close_setDesc _ _ _ w.lowestFree_notMem

/-- Writing through a freshly opened descriptor leaves only the new content. -/
theorem close_written (w : World) (ino : Nat) (c : List Byte) (d d' : Desc) :
    (((w.setDesc w.lowestFree d).setInode ino c).setDesc w.lowestFree d').close w.lowestFree =
      w.setInode ino c := by
  change (((w.setInode ino c).setDesc w.lowestFree d).setDesc w.lowestFree d').close
    w.lowestFree = _
  rw [Sys.setDesc_setDesc]
  exact Sys.close_setDesc _ _ _ w.lowestFree_notMem

/-- The entries that reads on a descriptor have still to deliver. -/
def coming (w : World) (fd : Nat) : List Hamsterdesc :=
  match w.fds.lookup fd with
  | some (.file ino off _) => entries ((w.inodes ino).drop off)
  | some (.sock rx) => (arriving sizeofHamsterdesc rx.segments).map Hamsterdesc.ofBytes
  | some .listener | none => []

/-- A scan finds the first of them that passes. -/
theorem scanEntries_coming (hr : w.Reliable) (test : Hamsterdesc → Bool) (fd : Nat) :
    match (coming w fd).find? test with
    | some h => ∃ bs, (scanEntries test w fd).1 = .hit bs ∧ Hamsterdesc.ofBytes bs = h
    | none => ∃ last, (scanEntries test w fd).1 = .stop last := by
  unfold coming
  cases hd : w.fds.lookup fd with
  | none =>
    have hscan : scanEntries test w fd = (.stop none, w) := by
      simp only [scanEntries, scan, scanLoop, Sys.read_closed hr (Finmap.lookup_eq_none.mp hd)]
    exact ⟨none, by rw [hscan]⟩
  | some d =>
    cases d with
    | listener =>
      have hread : w.read fd sizeofHamsterdesc = (none, w) := by
        simp only [Sys.read, Sys.failing_of_reliable w hr, Sys.tick_of_reliable w hr, hd,
          Bool.false_eq_true, ↓reduceIte]
      have hscan : scanEntries test w fd = (.stop none, w) := by
        simp only [scanEntries, scan, scanLoop, hread]
      exact ⟨none, by rw [hscan]⟩
    | sock rx =>
      have hfirst := scanLoop_sock (by decide : 0 < sizeofHamsterdesc)
        (fun bs => test (Hamsterdesc.ofBytes bs)) hr hd (Nat.lt_succ_self (unread w fd))
      rw [List.find?_map]
      simp only [Function.comp_def]
      cases hf : (arriving sizeofHamsterdesc rx.segments).find?
          (fun bs => test (Hamsterdesc.ofBytes bs)) with
      | none =>
        rw [hf] at hfirst
        exact hfirst
      | some bs =>
        rw [hf] at hfirst
        exact ⟨bs, hfirst, rfl⟩
    | file ino off wr =>
      have hcont := (image_entries ((w.inodes ino).drop off)).symm
      dsimp only
      rcases first_or_none test (entries ((w.inodes ino).drop off))
        with ⟨hf, hno⟩ | ⟨pre, h, post, he, hpre, hh, hf⟩
      · rw [hf, scanEntries_stop hr hd hcont (length_damage_lt _) hno]
        exact ⟨_, rfl⟩
      · rw [he] at hcont
        rw [hf, scanEntries_hit hr hd hcont hpre hh]
        exact ⟨_, rfl, Hamsterdesc.ofBytes_toBytes h⟩

def byName (ownerName hamsterName : CString) (h : Hamsterdesc) : Bool :=
  h.ownerStr = ownerName && h.nameStr = hamsterName

def byId (id : BitVec 32) (h : Hamsterdesc) : Bool := h.uid = id

/-- How a scan that finds nothing is classified by the functions that look. -/
def endOfFile (c : List Byte) : BitVec 32 :=
  if damage c = [] then hmstrErrNotFound else hmstrErrCorrupt

theorem ite_some_nil (c : List Byte) :
    (if some (damage c) = some [] then hmstrErrNotFound else hmstrErrCorrupt) = endOfFile c := by
  simp [endOfFile]

theorem lookup_absent (hr : w.Reliable) (hn : w.names .datafile = none) {o n : CString}
    (hl : (tooLong o || tooLong n) = false) :
    hmstrLookup w (some o) (some n) = (hmstrErrNotFound, w) := by
  simp only [hmstrLookup, hl, Bool.false_eq_true, ↓reduceIte,
    Sys.openFile_missing hr hn .rdonly (by decide)]

theorem lookup_present (hr : w.Reliable) (hn : w.names .datafile = some ino) {o n : CString}
    (hl : (tooLong o || tooLong n) = false) :
    hmstrLookup w (some o) (some n) =
      (((entries (w.inodes ino)).find? (byName o n)).elim (endOfFile (w.inodes ino)) (·.uid), w) := by
  simp only [hmstrLookup, hl, Bool.false_eq_true, ↓reduceIte, Sys.openFile_existing hr hn]
  rcases scanEntries_opened hr (byName o n) w.lowestFree ino false
    with ⟨pre, h, post, -, -, -, hf, hs⟩ | ⟨hf, -, hs⟩
  all_goals
    unfold byName at hs
    simp only [OpenMode.writable, hs, hf, close_opened, Option.elim, Hamsterdesc.ofBytes_toBytes,
      ite_some_nil]

theorem readentry_absent (hr : w.Reliable) (hn : w.names .datafile = none) (id : BitVec 32)
    (owner name : List Byte) (price : BitVec 16) :
    hmstrReadentry w id owner name price = some (hmstrErrNotFound, owner, name, price, w) := by
  simp only [hmstrReadentry, Sys.openFile_missing hr hn .rdonly (by decide)]

/-- The out parameters `hmstr_readentry` fills from an entry. -/
def entryOut (h : Hamsterdesc) (rounds : BitVec 32) (owner name : List Byte) :
    BitVec 32 × List Byte × List Byte × BitVec 16 :=
  (h.treatsLeft.setWidth 32, strcpy owner h.ownerStr, strcpy name h.nameStr,
    (charge h rounds).setWidth 16)

theorem readentry_present (hr : w.Reliable) (hn : w.names .datafile = some ino) (id : BitVec 32)
    (owner name : List Byte) (price : BitVec 16) :
    hmstrReadentry w id owner name price =
      match (entries (w.inodes ino)).find? (byId id) with
      | none => some (hmstrErrNotFound, owner, name, price, w)
      | some h =>
        (getRounds w.now h.admissionTime).map fun rounds =>
          let out := entryOut h rounds owner name
          (out.1, out.2.1, out.2.2.1, out.2.2.2, w) := by
  simp only [hmstrReadentry, Sys.openFile_existing hr hn]
  rcases scanEntries_opened hr (byId id) w.lowestFree ino false
    with ⟨pre, h, post, -, -, -, hf, hs⟩ | ⟨hf, -, hs⟩
  · unfold byId at hs
    simp only [OpenMode.writable, hs, hf, Hamsterdesc.ofBytes_toBytes, close_opened,
      Sys.setDesc_now]
    cases getRounds w.now h.admissionTime <;> rfl
  · unfold byId at hs
    simp only [OpenMode.writable, hs, hf, close_opened]

/-- The file with its first entry of that uid changed. -/
def updateFirst (id : BitVec 32) (f : Hamsterdesc → Hamsterdesc) (hs : List Hamsterdesc) :
    List Hamsterdesc :=
  hs.lookmap fun h => if byId id h then some (f h) else none

theorem updateFirst_of_split {id : BitVec 32} {f : Hamsterdesc → Hamsterdesc}
    {pre post : List Hamsterdesc} {h : Hamsterdesc} (hpre : ∀ x ∈ pre, byId id x = false)
    (hh : byId id h = true) :
    updateFirst id f (pre ++ h :: post) = pre ++ f h :: post := by
  induction pre with
  | nil => simp [updateFirst, hh]
  | cons x pre ih =>
    have hx := hpre x (by simp)
    have hrest := ih fun y hy => hpre y (by simp [hy])
    unfold updateFirst at hrest ⊢
    simp [hx, hrest]

theorem updateFirst_of_none {id : BitVec 32} {f : Hamsterdesc → Hamsterdesc}
    {hs : List Hamsterdesc} (h : ∀ x ∈ hs, byId id x = false) : updateFirst id f hs = hs := by
  apply List.lookmap_of_forall_not
  intro x hx
  simp [h x hx]

/-- Seeking back over the entry just read and writing replaces that entry. -/
theorem writeBack_spec (hr : w.Reliable) {pre post : List Hamsterdesc} {h : Hamsterdesc}
    {tail : List Byte} (h' : Hamsterdesc) (ok : BitVec 32)
    (hc : w.inodes ino = image (pre ++ h :: post) ++ tail) :
    writeBack (w.setDesc w.lowestFree (.file ino (96 * (pre.length + 1)) true)) w.lowestFree h' ok =
      (ok, w.setInode ino (image (pre ++ h' :: post) ++ tail)) := by
  have hoff : 96 * (pre.length + 1) = 96 * pre.length + 96 := by ring
  have hat : (w.setDesc w.lowestFree (.file ino (96 * (pre.length + 1)) true)).fds.lookup
      w.lowestFree = some (.file ino (96 * pre.length + 96) true) := by rw [lookup_setDesc, hoff]
  have hseek := Sys.lseekCur_back (s := w.setDesc w.lowestFree _) hr hat
  have hover : Sys.overwrite (w.inodes ino) (96 * pre.length) h'.toBytes =
      image (pre ++ h' :: post) ++ tail := by
    have hm : Sys.overwrite (image pre ++ h.toBytes ++ (image post ++ tail)) (image pre).length
        h'.toBytes = image pre ++ h'.toBytes ++ (image post ++ tail) :=
      Sys.overwrite_middle (by simp)
    rw [length_image] at hm
    rw [hc]
    simpa [List.append_assoc] using hm
  rw [writeBack, show (-96 : Int) = -((96 : Nat) : Int) from rfl, hseek]
  simp only [Sys.setDesc_setDesc]
  rw [Sys.write_file (s := w.setDesc w.lowestFree (.file ino (96 * pre.length) true)) hr
    (lookup_setDesc ..), Sys.setDesc_inodes, hover]
  simp only [Hamsterdesc.length_toBytes, close_written, ↓reduceIte]

theorem givetreats_absent (hr : w.Reliable) (hn : w.names .datafile = none) (id : BitVec 32)
    (treats : BitVec 16) : hmstrGivetreats w id treats = (hmstrErrNotFound, w) := by
  simp only [hmstrGivetreats, Sys.openFile_missing hr hn .rdwr (by decide)]

theorem givetreats_present (hr : w.Reliable) (hn : w.names .datafile = some ino) (id : BitVec 32)
    (treats : BitVec 16) :
    hmstrGivetreats w id treats =
      (((entries (w.inodes ino)).find? (byId id)).elim hmstrErrNotFound
          (fun h => (feed h treats).treatsLeft.setWidth 32),
        w.setInode ino (image (updateFirst id (feed · treats) (entries (w.inodes ino))) ++
          damage (w.inodes ino))) := by
  simp only [hmstrGivetreats, Sys.openFile_existing hr hn]
  rcases scanEntries_opened hr (byId id) w.lowestFree ino true
    with ⟨pre, h, post, he, hpre, hh, hf, hs⟩ | ⟨hf, hno, hs⟩
  · have hc : w.inodes ino = image (pre ++ h :: post) ++ damage (w.inodes ino) := by
      rw [← he, image_entries]
    have hwb := writeBack_spec hr (feed h treats) ((feed h treats).treatsLeft.setWidth 32) hc
    unfold byId at hs
    simp only [OpenMode.writable, hs, hf, Hamsterdesc.ofBytes_toBytes, hwb, Option.elim]
    rw [he, updateFirst_of_split hpre hh]
  · unfold byId at hs
    simp only [OpenMode.writable, hs, hf, Option.elim, close_opened]
    rw [updateFirst_of_none hno, image_entries]
    simp [Sys.setInode]

theorem howsdoing_absent (hr : w.Reliable) (hn : w.names .datafile = none) (id : BitVec 32)
    (st : HmstrState) : hmstrHowsdoing w id st = some (hmstrErrNotFound, st, w) := by
  simp only [hmstrHowsdoing, Sys.openFile_missing hr hn .rdwr (by decide)]

theorem howsdoing_present (hr : w.Reliable) (hn : w.names .datafile = some ino) (id : BitVec 32)
    (st : HmstrState) :
    hmstrHowsdoing w id st =
      match (entries (w.inodes ino)).find? (byId id) with
      | none => some (hmstrErrNotFound, st, w)
      | some h =>
        (getRounds w.now h.admissionTime).map fun rounds =>
          (0, stateOf (inquire h) rounds,
            w.setInode ino (image (updateFirst id inquire (entries (w.inodes ino))) ++
              damage (w.inodes ino))) := by
  simp only [hmstrHowsdoing, Sys.openFile_existing hr hn]
  rcases scanEntries_opened hr (byId id) w.lowestFree ino true
    with ⟨pre, h, post, he, hpre, hh, hf, hs⟩ | ⟨hf, hno, hs⟩
  · have hc : w.inodes ino = image (pre ++ h :: post) ++ damage (w.inodes ino) := by
      rw [← he, image_entries]
    have hwb := writeBack_spec hr (inquire h) 0 hc
    unfold byId at hs
    simp only [OpenMode.writable, hs, hf, Hamsterdesc.ofBytes_toBytes, hwb, Sys.setDesc_now]
    rw [he, updateFirst_of_split hpre hh]
    cases getRounds w.now h.admissionTime <;> rfl
  · unfold byId at hs
    simp only [OpenMode.writable, hs, hf, close_opened]

theorem new_present (hr : w.Reliable) (hn : w.names .datafile = some ino) {o n : CString}
    (hl : (tooLong o || tooLong n) = false) (treats : BitVec 16) :
    hmstrNew w o n treats =
      if ((entries (w.inodes ino)).find? (byName o n)).isSome then (hmstrErrExists, w)
      else if damage (w.inodes ino) = [] then
        (makeHash o n, w.setInode ino (w.inodes ino ++ (newEntry w.now o n treats).toBytes))
      else (hmstrErrCorrupt, w) := by
  simp only [hmstrNew, hl, Bool.false_eq_true, ↓reduceIte, Sys.openFile_existing hr hn]
  rcases scanEntries_opened hr (byName o n) w.lowestFree ino true
    with ⟨pre, h, post, -, -, -, hf, hs⟩ | ⟨hf, -, hs⟩
  · unfold byName at hs
    simp only [OpenMode.writable, hs, hf, close_opened, Option.isSome_some, ↓reduceIte]
  · unfold byName at hs
    simp only [OpenMode.writable, hs, hf, Option.isSome_none, Bool.false_eq_true, ↓reduceIte]
    by_cases hd : damage (w.inodes ino) = []
    · rw [if_pos hd, if_neg (by simp [hd]), Sys.write_file
        (s := w.setDesc w.lowestFree (.file ino (w.inodes ino).length true)) hr (lookup_setDesc ..),
        Sys.setDesc_inodes, Sys.overwrite_append]
      simp only [Sys.setDesc_now, Hamsterdesc.length_toBytes, close_written, ↓reduceIte]
      rfl
    · have hpos : 0 < (damage (w.inodes ino)).length := List.length_pos_iff.mpr hd
      rw [if_neg hd, if_pos hpos, close_opened]

/-- Without a database the call first creates an empty one. -/
theorem new_absent (hr : w.Reliable) (hn : w.names .datafile = none) {o n : CString}
    (hl : (tooLong o || tooLong n) = false) (treats : BitVec 16) :
    hmstrNew w o n treats = (makeHash o n,
      (w.create .datafile).setInode w.nextIno (newEntry w.now o n treats).toBytes) := by
  have hcreated : (w.create .datafile).names .datafile = some w.nextIno := by simp
  have hopen : w.openFile .datafile .rdwrCreat =
      (w.create .datafile).openFile .datafile .rdwrCreat := by
    rw [Sys.openFile_creating hr hn, Sys.openFile_existing (s := w.create .datafile) hr hcreated]
    rfl
  have hsame : hmstrNew w o n treats = hmstrNew (w.create .datafile) o n treats := by
    simp only [hmstrNew, hl, hopen, Bool.false_eq_true, ↓reduceIte]
  have hempty : (w.create .datafile).inodes w.nextIno = image [] := by simp
  rw [hsame, new_present (w := w.create .datafile) hr hcreated hl treats, hempty, entries_image,
    damage_image]
  simp

theorem close_moved (w : World) (fd : Nat) (d : Desc) : (w.setDesc fd d).close fd = w.close fd := by
  have ht : (w.fds.insert fd d).erase fd = w.fds.erase fd := by
    apply Finmap.ext_lookup
    intro x
    by_cases hx : x = fd
    · subst hx
      rw [Finmap.lookup_erase, Finmap.lookup_erase]
    · rw [Finmap.lookup_erase_ne hx, Finmap.lookup_erase_ne hx, Finmap.lookup_insert_of_ne _ hx]
  simp only [Sys.close, Sys.setDesc, ht]

variable {fdptr : Int} {o n : Option CString}

theorem directory_absent (hr : w.Reliable) (hn : w.names .datafile = none) (hp : fdptr < 0)
    (hl : (tooLongOpt o || tooLongOpt n) = false) :
    hmstrDirectory w fdptr o n = (hmstrErrNotFound, -1, w) := by
  simp only [hmstrDirectory, hl, directoryFd, hp, Bool.false_eq_true, ↓reduceIte,
    Sys.openFile_missing hr hn .rdonly (by decide)]

/-- Whatever descriptor a directory call is given, it only reads. -/
theorem directory_onlyReads (w : World) (fdptr : Int) (o n : Option CString) :
    Sys.OnlyReads w (hmstrDirectory w fdptr o n).2.2 := by
  have hopen : Sys.OnlyReads w (directoryFd w fdptr).2 := by
    unfold directoryFd
    split
    · exact Sys.openFile_onlyReads w .datafile (by decide)
    · exact .refl w
  unfold hmstrDirectory
  split
  · exact .refl w
  · cases hd : directoryFd w fdptr with
    | mk fd w' =>
      rw [hd] at hopen
      cases fd with
      | none => exact hopen
      | some fd =>
        have hscan : Sys.OnlyReads w' (scanEntries (passesFilter o n) w' fd).2 :=
          scanLoop_onlyReads ..
        dsimp only
        cases hs : scanEntries (passesFilter o n) w' fd with
        | mk e w'' =>
          rw [hs] at hscan
          cases e with
          | hit bs => exact hopen.trans hscan
          | stop last => exact hopen.trans (hscan.setFds _)

/-- On an open file the scan goes on at the descriptor's offset. -/
theorem directory_hit (hr : w.Reliable) (hd : w.fds.lookup fd = some (.file ino off wr))
    (hl : (tooLongOpt o || tooLongOpt n) = false) {pre post : List Hamsterdesc} {h : Hamsterdesc}
    {tail : List Byte} (hcont : (w.inodes ino).drop off = image (pre ++ h :: post) ++ tail)
    (hpre : ∀ x ∈ pre, passesFilter o n x = false) (hh : passesFilter o n h = true) :
    hmstrDirectory w fd o n =
      (h.uid, (fd : Int), w.setDesc fd (.file ino (off + 96 * (pre.length + 1)) wr)) := by
  have hneg : ¬ (fd : Int) < 0 := by omega
  simp only [hmstrDirectory, hl, directoryFd, hneg, Int.toNat_natCast, Bool.false_eq_true,
    ↓reduceIte, scanEntries_hit hr hd hcont hpre hh, Hamsterdesc.ofBytes_toBytes]

theorem directory_end (hr : w.Reliable) (hd : w.fds.lookup fd = some (.file ino off wr))
    (hl : (tooLongOpt o || tooLongOpt n) = false) {hs : List Hamsterdesc} {tail : List Byte}
    (hcont : (w.inodes ino).drop off = image hs ++ tail) (ht : tail.length < 96)
    (hno : ∀ x ∈ hs, passesFilter o n x = false) :
    hmstrDirectory w fd o n =
      (if tail = [] then hmstrErrNotFound else hmstrErrCorrupt, -1, w.close fd) := by
  have hneg : ¬ (fd : Int) < 0 := by omega
  simp only [hmstrDirectory, hl, directoryFd, hneg, Int.toNat_natCast, Bool.false_eq_true,
    ↓reduceIte, scanEntries_stop hr hd hcont ht hno, close_moved, Option.some.injEq]

/-- A negative handle opens the database and goes on like an open one. -/
theorem directory_opens (hr : w.Reliable) (hn : w.names .datafile = some ino) (hp : fdptr < 0)
    (hl : (tooLongOpt o || tooLongOpt n) = false) :
    hmstrDirectory w fdptr o n =
      hmstrDirectory (w.setDesc w.lowestFree (.file ino 0 false)) w.lowestFree o n := by
  have hneg : ¬ (w.lowestFree : Int) < 0 := by omega
  simp only [hmstrDirectory, hl, directoryFd, hp, hneg, Int.toNat_natCast, Bool.false_eq_true,
    ↓reduceIte, Sys.openFile_existing hr hn, OpenMode.writable]

/-- A handle that has been closed is read from in vain. -/
theorem directory_closed (hr : w.Reliable) (hd : fd ∉ w.fds)
    (hl : (tooLongOpt o || tooLongOpt n) = false) :
    hmstrDirectory w fd o n = (hmstrErrCorrupt, -1, w.close fd) := by
  have hneg : ¬ (fd : Int) < 0 := by omega
  simp only [hmstrDirectory, hl, directoryFd, hneg, Int.toNat_natCast, Bool.false_eq_true,
    ↓reduceIte, scanEntries, scan, scanLoop, Sys.read_closed hr hd]
  rfl

end Hamster.Store.Scans
