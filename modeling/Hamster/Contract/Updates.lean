import Hamster.Contract.Integrity

/-!
# Updates in place

`hmstr_givetreats` and `hmstr_howsdoing` write a whole record back. Byte by byte
the file differs at most where the price and the stock of the first record with
that id are, whatever the file holds, duplicate ids and a damaged tail included.
-/
namespace Hamster.Contract.Updates

open Lib.Bytes Lib.Clock Lib.Posix Lib.RecordFile Store Store.Entry Store.Library Store.Scans
  Store.Outcomes

/-- Byte `i` of the file is one of the `width` bytes from the price on in the first
complete record with the id. The price has two bytes, the stock the next two. -/
def InAccount (id : BitVec 32) (bytes : List Byte) (width i : Nat) : Prop :=
  ∃ k, (entries bytes).findIdx? (byId id) = some k ∧ 96 * k + 88 ≤ i ∧ i < 96 * k + 88 + width

/-- From `bytes` to `bytes'` nothing changes but these. -/
structure Confined (id : BitVec 32) (width : Nat) (bytes bytes' : List Byte) : Prop where
  length : bytes'.length = bytes.length
  only : ∀ i, bytes'[i]? ≠ bytes[i]? → InAccount id bytes width i
  missing : (entries bytes).findIdx? (byId id) = none → bytes' = bytes

theorem differ_middle {pre old new post : List Byte} (hlen : new.length = old.length) {i : Nat}
    (h : (pre ++ new ++ post)[i]? ≠ (pre ++ old ++ post)[i]?) :
    pre.length ≤ i ∧ i < pre.length + old.length := by
  by_contra hout
  apply h
  rcases Nat.lt_or_ge i pre.length with hi | hi
  · rw [List.append_assoc, List.append_assoc, List.getElem?_append_left hi,
      List.getElem?_append_left hi]
  · have hend : pre.length + old.length ≤ i := by omega
    rw [List.getElem?_append_right (by rw [List.length_append]; omega),
      List.getElem?_append_right (by rw [List.length_append]; omega), List.length_append,
      List.length_append, hlen]

/-- The record in front of its price. -/
def front (h : Hamsterdesc) : List Byte :=
  leBytes 4 h.uid.toNat ++ leBytes 4 h.padding.toNat ++ leBytes 8 h.admissionTime.tvSec.toNat ++
    leBytes 8 h.admissionTime.tvUsec.toNat ++ h.owner.val ++ h.name.val

theorem length_front (h : Hamsterdesc) : (front h).length = 88 := by simp [front]

theorem toBytes_front (h : Hamsterdesc) : h.toBytes = front h ++ leBytes 2 h.price.toNat ++
    (leBytes 2 h.treatsLeft.toNat ++ leBytes 4 h.tailPadding.toNat) := by
  simp [Hamsterdesc.toBytes, front]

theorem findIdx?_of_split {p : Hamsterdesc → Bool} {pre post : List Hamsterdesc} {h : Hamsterdesc}
    (hpre : ∀ x ∈ pre, p x = false) (hh : p h = true) :
    (pre ++ h :: post).findIdx? p = some pre.length := by
  induction pre with
  | nil => simp [List.findIdx?_cons, hh]
  | cons x pre ih =>
    have hx := hpre x (by simp)
    have hrest := ih fun y hy => hpre y (by simp [hy])
    simp [List.findIdx?_cons, hx, hrest]

section Records
variable {id : BitVec 32} {bytes : List Byte} {f : Hamsterdesc → Hamsterdesc}

/-- The file with its first entry of that id changed. -/
def updated (id : BitVec 32) (f : Hamsterdesc → Hamsterdesc) (bytes : List Byte) : List Byte :=
  image (updateFirst id f (entries bytes)) ++ damage bytes

/-- A change of one run of bytes within the record is a change of that run in the
file. -/
theorem confined_of_run {width : Nat}
    (hrun : ∀ h, ∃ pre old new post, h.toBytes = pre ++ old ++ post ∧
      (f h).toBytes = pre ++ new ++ post ∧ pre.length = 88 ∧ old.length = width ∧
      new.length = width) :
    Confined id width bytes (updated id f bytes) := by
  have hsplit := image_entries bytes
  rcases first_or_none (byId id) (entries bytes) with ⟨-, hno⟩ | ⟨pre, h, post, he, hpre, hh, -⟩
  · have hsame : updated id f bytes = bytes := by rw [updated, updateFirst_of_none hno, hsplit]
    exact ⟨by rw [hsame], fun i hi => absurd (by rw [hsame]) hi, fun _ => hsame⟩
  · obtain ⟨front, old, new, back, hold, hnew, hfront, hlo, hln⟩ := hrun h
    have hbytes : bytes = (image pre ++ front) ++ old ++ (back ++ image post ++ damage bytes) := by
      rw [he, image_append, image_cons, hold] at hsplit
      conv_lhs => rw [← hsplit]
      simp only [List.append_assoc]
    have hbytes' : updated id f bytes =
        (image pre ++ front) ++ new ++ (back ++ image post ++ damage bytes) := by
      rw [updated, he, updateFirst_of_split hpre hh, image_append, image_cons, hnew]
      simp only [List.append_assoc]
    have hidx : (pre ++ h :: post).findIdx? (byId id) = some pre.length :=
      findIdx?_of_split hpre hh
    rw [← he] at hidx
    refine ⟨?_, fun i hi => ⟨pre.length, hidx, ?_⟩, fun hnone => ?_⟩
    · rw [hbytes']
      conv_rhs => rw [hbytes]
      simp only [List.length_append, hlo, hln]
    · rw [hbytes'] at hi
      nth_rewrite 2 [hbytes] at hi
      have hin := differ_middle (hln.trans hlo.symm) hi
      rw [List.length_append, length_image, hfront, hlo] at hin
      exact hin
    · rw [hidx] at hnone
      cases hnone

/-- Feeding touches the price and the stock. -/
theorem feed_run (treats : BitVec 16) (h : Hamsterdesc) :
    ∃ pre old new post, h.toBytes = pre ++ old ++ post ∧
      (feed h treats).toBytes = pre ++ new ++ post ∧ pre.length = 88 ∧ old.length = 4 ∧
      new.length = 4 := by
  have hkeep : front (feed h treats) = front h ∧ (feed h treats).tailPadding = h.tailPadding := by
    unfold feed
    split <;> exact ⟨rfl, rfl⟩
  have hbytes := toBytes_front (feed h treats)
  rw [hkeep.1, hkeep.2] at hbytes
  refine ⟨front h, leBytes 2 h.price.toNat ++ leBytes 2 h.treatsLeft.toNat,
    leBytes 2 (feed h treats).price.toNat ++ leBytes 2 (feed h treats).treatsLeft.toNat,
    leBytes 4 h.tailPadding.toNat, ?_, ?_, length_front h, by simp, by simp⟩
  · rw [toBytes_front]
    simp only [List.append_assoc]
  · rw [hbytes]
    simp only [List.append_assoc]

/-- Asking touches the price. -/
theorem inquire_run (h : Hamsterdesc) : ∃ pre old new post, h.toBytes = pre ++ old ++ post ∧
    (inquire h).toBytes = pre ++ new ++ post ∧ pre.length = 88 ∧ old.length = 2 ∧
    new.length = 2 :=
  ⟨front h, leBytes 2 h.price.toNat, leBytes 2 (inquire h).price.toNat, _, toBytes_front h,
    toBytes_front (inquire h), length_front h, length_leBytes .., length_leBytes ..⟩

end Records

section Calls
variable {w : World} {ino : Nat} {id : BitVec 32}

theorem content_setInode (hn : w.names .datafile = some ino) (bytes : List Byte) :
    (w.setInode ino bytes).content .datafile = some bytes := by
  rw [content_of_name (w := w.setInode ino bytes) hn, Sys.setInode_inodes, Function.update_self]

theorem givetreats_confined (hr : w.Reliable) (hn : w.names .datafile = some ino)
    (treats : BitVec 16) : ∃ bytes',
      (hmstrGivetreats w id treats).2.content .datafile = some bytes' ∧
        Confined id 4 (w.inodes ino) bytes' := by
  refine ⟨updated id (feed · treats) (w.inodes ino), ?_, confined_of_run (feed_run treats)⟩
  rw [givetreats_present hr hn, content_setInode hn, updated]

theorem howsdoing_confined (hr : w.Reliable) (hn : w.names .datafile = some ino)
    {st st' : HmstrState} {ret : BitVec 32} {w' : World}
    (h : hmstrHowsdoing w id st = some (ret, st', w')) :
    ∃ bytes', w'.content .datafile = some bytes' ∧ Confined id 2 (w.inodes ino) bytes' := by
  rw [howsdoing_present hr hn] at h
  cases hf : (entries (w.inodes ino)).find? (byId id) with
  | none =>
    rw [hf] at h
    cases h
    exact ⟨_, content_of_name hn, rfl, fun i hi => absurd rfl hi, fun _ => rfl⟩
  | some x =>
    rw [hf] at h
    obtain ⟨r, -, h⟩ := Option.map_eq_some_iff.mp h
    have hw : w.setInode ino (updated id inquire (w.inodes ino)) = w' := congrArg (·.2.2) h
    rw [← hw]
    exact ⟨_, content_setInode hn _, confined_of_run inquire_run⟩

theorem howsdoing_returns (hr : w.Reliable) (hn : w.names .datafile = some ino)
    (hclock : ∀ h ∈ entries (w.inodes ino), ¬ Premature w.now h) (st : HmstrState) :
    hmstrHowsdoing w id st ≠ none := by
  rw [howsdoing_present hr hn]
  cases hf : (entries (w.inodes ino)).find? (byId id) with
  | none => exact nofun
  | some h =>
    have hearly := hclock h (List.mem_of_find?_eq_some hf)
    simp only [ne_eq, Option.map_eq_none_iff, getRounds_eq_none_iff]
    exact hearly

/-- Whatever the database holds, feeding changes at most the four bytes of price and
stock, asking at most the two of the price, of the first record with the id. A clock
that is not behind lets asking return. -/
theorem updates_confined {bytes : List Byte} (hr : w.Reliable)
    (hc : w.content .datafile = some bytes) (id : BitVec 32) (treats : BitVec 16)
    (st : HmstrState) :
    (∃ bytes', (hmstrGivetreats w id treats).2.content .datafile = some bytes' ∧
      Confined id 4 bytes bytes') ∧
    (∀ ret st' w', hmstrHowsdoing w id st = some (ret, st', w') →
      ∃ bytes', w'.content .datafile = some bytes' ∧ Confined id 2 bytes bytes') ∧
    ((∀ h ∈ entries bytes, ¬ Premature w.now h) → hmstrHowsdoing w id st ≠ none) := by
  obtain ⟨ino, hn, rfl⟩ := Option.map_eq_some_iff.mp hc
  exact ⟨givetreats_confined hr hn treats, fun _ _ _ h => howsdoing_confined hr hn h,
    fun hclock => howsdoing_returns hr hn hclock st⟩

end Calls

open Integrity (alice bert twoGuests)

/-- The second of two hamsters is fed or asked. -/
theorem updates_confined_second : ∃ bytes, twoGuests.world.content .datafile = some bytes ∧
    (entries bytes).length = 2 ∧
    (∃ bytes', (hmstrGivetreats twoGuests.world (makeHash bert alice) 5).2.content .datafile =
        some bytes' ∧ Confined (makeHash bert alice) 4 bytes bytes') ∧
    ∀ ret st' w', hmstrHowsdoing twoGuests.world (makeHash bert alice) blankState =
        some (ret, st', w') →
      ∃ bytes', w'.content .datafile = some bytes' ∧ Confined (makeHash bert alice) 2 bytes bytes' := by
  have htwo : (twoGuests.world.content .datafile).map (fun bytes => (entries bytes).length) =
      some 2 := by decide +kernel
  obtain ⟨bytes, hbytes, hlen⟩ := Option.map_eq_some_iff.mp htwo
  have hr : twoGuests.world.Reliable := show twoGuests.world.faults = [] by decide +kernel
  obtain ⟨hgive, hask, -⟩ := updates_confined hr hbytes (makeHash bert alice) 5 blankState
  exact ⟨bytes, hbytes, hlen, hgive, hask⟩

end Hamster.Contract.Updates
