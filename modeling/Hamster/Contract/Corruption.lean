import Hamster.Contract.Failure
import Hamster.Store.Fields

/-!
# How a search that finds nothing ends

Seven loops read the database to its end. Four functions look at the last `read`
and tell a damaged tail from a plain end; the three that search by id do not, and
report both alike.
-/
namespace Hamster.Contract.Corruption

open Lib.Bytes Lib.Clock Lib.Posix Lib.RecordFile Store Store.Entry Store.Library Store.Scans
  Store.CollectScan Store.Outcomes Store.Fields

/-- The call reads the database, of the given bytes, to its end and does not find
the record it is about. A directory call may also go on from a record it has
reached before. -/
def Misses (w : World) (bytes : List Byte) : Call Int → Prop
  | .new o n _ | .lookup (some o) (some n) =>
      (tooLong o || tooLong n) = false ∧ ∀ h ∈ entries bytes, byName o n h = false
  | .directory p o n => (tooLongOpt o || tooLongOpt n) = false ∧
      ((p < 0 ∧ ∀ h ∈ entries bytes, passesFilter o n h = false) ∨
        0 ≤ p ∧ ∃ ino k wr, w.names .datafile = some ino ∧
          w.fds.lookup p.toNat = some (.file ino (96 * k) wr) ∧ k ≤ (entries bytes).length ∧
          ∀ h ∈ (entries bytes).drop k, passesFilter o n h = false)
  | .howsdoing id | .readentry id | .givetreats id _ => ∀ h ∈ entries bytes, byId id h = false
  | .collect (some o) => tooLong o = false ∧ owned o (entries bytes) = []
  | .lookup _ _ | .collect none => False

def IsNew : Call Int → Prop
  | .new _ _ _ => True
  | _ => False

/-- `hmstr_howsdoing`, `hmstr_readentry` and `hmstr_givetreats`. -/
def ById : Call Int → Prop
  | .howsdoing _ | .readentry _ | .givetreats _ _ => True
  | _ => False

instance : DecidablePred ById := fun c => by unfold ById; split <;> infer_instance

/-- The call returns, with the error for a corrupt database if there is a partial
record, and otherwise that nothing was found or, for an admission, an id. -/
def Reported (w : World) (bytes : List Byte) (c : Call Int) : Prop :=
  ∃ r w', c.exec w = some (r, w') ∧
    (¬ sizeofHamsterdesc ∣ bytes.length → r.ret = hmstrErrCorrupt) ∧
    (sizeofHamsterdesc ∣ bytes.length → r.ret ≠ hmstrErrCorrupt ∧
      (r.ret = hmstrErrNotFound ∨ IsNew c ∧ 0 ≤ r.ret.toInt))

section Calls
variable {w : World} {bytes : List Byte} {ino : Nat} {c : Call Int}

/-- The four functions that look at the last `read`. -/
theorem reported_of_end {r : Reply} {w' : World} (h : c.exec w = some (r, w'))
    (hret : r.ret = endOfFile bytes) : Reported w bytes c := by
  refine ⟨r, w', h, fun hd => ?_, fun hd => ?_⟩
  · rw [hret, endOfFile, if_neg (mt (damage_eq_nil_iff bytes).mp hd)]
  · rw [hret, endOfFile, if_pos ((damage_eq_nil_iff bytes).mpr hd)]
    exact ⟨by decide, .inl rfl⟩

/-- A call that reports the same whatever the tail. -/
theorem reported_iff_whole {r : Reply} {w' : World} (h : c.exec w = some (r, w'))
    (hret : r.ret = hmstrErrNotFound) :
    Reported w bytes c ↔ sizeofHamsterdesc ∣ bytes.length := by
  constructor
  · rintro ⟨r', v, h', hdamaged, -⟩
    obtain ⟨rfl, -⟩ := Prod.mk.inj (Option.some.inj (h.symm.trans h'))
    by_contra hd
    have hcorrupt := hdamaged hd
    rw [hret] at hcorrupt
    exact absurd hcorrupt (by decide)
  · intro hd
    exact ⟨r, w', h, fun hno => absurd hd hno, fun _ => ⟨by rw [hret]; decide, .inl hret⟩⟩

/-- Nothing is found that is not there. -/
theorem find?_eq_none {p : Hamsterdesc → Bool} {hs : List Hamsterdesc}
    (h : ∀ x ∈ hs, p x = false) : hs.find? p = none :=
  List.find?_eq_none.mpr fun x hx => by simp [h x hx]

theorem new_reported (hr : w.Reliable) (hn : w.names .datafile = some ino) {o n : CString}
    {t : BitVec 16} (hm : Misses w (w.inodes ino) (.new o n t)) :
    Reported w (w.inodes ino) (.new o n t) := by
  obtain ⟨hl, hno⟩ := hm
  have hcall := new_present hr hn hl t
  simp only [find?_eq_none hno, Option.isSome_none, Bool.false_eq_true, ↓reduceIte] at hcall
  by_cases hd : damage (w.inodes ino) = []
  · have hpos := Amounts.makeHash_nonneg o n
    have hret : (hmstrNew w o n t).1 = makeHash o n := by rw [hcall, if_pos hd]
    refine ⟨_, _, exec_new w o n t, fun hno => absurd ((damage_eq_nil_iff _).mp hd) hno,
      fun _ => ⟨?_, .inr ⟨trivial, ?_⟩⟩⟩
    · intro he
      have hneg : ¬ 0 ≤ hmstrErrCorrupt.toInt := corrupt_neg
      exact hneg (he ▸ hret ▸ hpos)
    · exact hret ▸ hpos
  · refine reported_of_end (exec_new w o n t) ?_
    rw [endOfFile, if_neg hd, hcall, if_neg hd]

theorem lookup_reported (hr : w.Reliable) (hn : w.names .datafile = some ino) {o n : CString}
    (hm : Misses w (w.inodes ino) (.lookup (some o) (some n))) :
    Reported w (w.inodes ino) (.lookup (some o) (some n)) := by
  obtain ⟨hl, hno⟩ := hm
  refine reported_of_end (exec_lookup w (some o) (some n)) ?_
  rw [lookup_present hr hn hl, find?_eq_none hno]
  rfl

theorem directory_reported (hr : w.Reliable) (hn : w.names .datafile = some ino) {p : Int}
    {o n : Option CString} (hm : Misses w (w.inodes ino) (.directory p o n)) :
    Reported w (w.inodes ino) (.directory p o n) := by
  obtain ⟨hl, ⟨hp, hno⟩ | ⟨hp, j, k, wr, hj, hd, hk, hno⟩⟩ := hm
  · refine reported_of_end (exec_directory w p o n) ?_
    have hend := directory_end (w := w.setDesc w.lowestFree (.file ino 0 false)) (o := o) (n := n)
      hr (lookup_setDesc ..) hl (drop_zero_content (w.inodes ino)) (length_damage_lt _) hno
    rw [directory_opens hr hn hp hl, hend]
    rfl
  · obtain rfl : ino = j := Option.some.inj (hn.symm.trans hj)
    obtain ⟨fd, rfl⟩ := Int.eq_ofNat_of_zero_le hp
    refine reported_of_end (exec_directory w fd o n) ?_
    have hrest : (w.inodes ino).drop (96 * k) =
        image ((entries (w.inodes ino)).drop k) ++ damage (w.inodes ino) := by
      conv_lhs => rw [← image_entries (w.inodes ino),
        ← List.take_append_drop k (entries (w.inodes ino)), image_append, List.append_assoc]
      rw [List.drop_left' (by rw [length_image, List.length_take, Nat.min_eq_left hk])]
    rw [Int.toNat_natCast] at hd
    rw [directory_end hr hd hl hrest (length_damage_lt _) hno]
    rfl

theorem collect_reported (hr : w.Reliable) (hw : FilesApart w)
    (hn : w.names .datafile = some ino) {o : CString}
    (hm : Misses w (w.inodes ino) (.collect (some o))) :
    Reported w (w.inodes ino) (.collect (some o)) := by
  obtain ⟨hl, hno⟩ := hm
  have hcs : charges w.now o (entries (w.inodes ino)) = some [] := by rw [charges, hno]; rfl
  obtain ⟨w', hex, -⟩ := collect_outcome hr hw hn hl hcs
  refine reported_of_end hex ?_
  simp only [hno, ↓reduceIte, endOfFile]

/-- A search by id that finds nothing says so, whatever the tail. -/
theorem byId_reports (hr : w.Reliable) (hn : w.names .datafile = some ino) (hc : ById c)
    (hm : Misses w (w.inodes ino) c) :
    ∃ r w', c.exec w = some (r, w') ∧ r.ret = hmstrErrNotFound := by
  cases c with
  | new _ _ _ => exact hc.elim
  | lookup _ _ => exact hc.elim
  | directory _ _ _ => exact hc.elim
  | collect _ => exact hc.elim
  | howsdoing id =>
    refine ⟨⟨hmstrErrNotFound, .state blankState⟩, w, ?_, rfl⟩
    rw [exec_howsdoing, howsdoing_present hr hn, find?_eq_none hm]
    rfl
  | readentry id =>
    refine ⟨⟨hmstrErrNotFound, .entry blankName blankName 0⟩, w, ?_, rfl⟩
    rw [exec_readentry, readentry_present hr hn, find?_eq_none hm]
    rfl
  | givetreats id t =>
    refine ⟨_, _, exec_givetreats w id t, ?_⟩
    rw [givetreats_present hr hn, find?_eq_none hm]
    rfl

/-- A call that finds nothing reports the state of the file as it should, unless the
file is damaged and the search was by id. -/
theorem reported_iff (hr : w.Reliable) (hw : FilesApart w)
    (hc : w.content .datafile = some bytes) (hm : Misses w bytes c) :
    Reported w bytes c ↔ (sizeofHamsterdesc ∣ bytes.length ∨ ¬ ById c) := by
  obtain ⟨ino, hn, rfl⟩ := Option.map_eq_some_iff.mp hc
  by_cases hid : ById c
  · obtain ⟨r, w', hex, hret⟩ := byId_reports hr hn hid hm
    rw [reported_iff_whole hex hret, or_iff_left (not_not.mpr hid)]
  · refine iff_of_true ?_ (.inr hid)
    match c, hid, hm with
    | .new _ _ _, _, hm => exact new_reported hr hn hm
    | .lookup (some _) (some _), _, hm => exact lookup_reported hr hn hm
    | .lookup (some _) none, _, hm => exact hm.elim
    | .lookup none _, _, hm => exact hm.elim
    | .directory _ _ _, _, hm => exact directory_reported hr hn hm
    | .collect (some _), _, hm => exact collect_reported hr hw hn hm
    | .collect none, _, hm => exact hm.elim
    | .howsdoing _, hid, _ => exact absurd trivial hid
    | .readentry _, hid, _ => exact absurd trivial hid
    | .givetreats _ _, hid, _ => exact absurd trivial hid

end Calls

open Failure (holding filesApart_holding carol daisy)

theorem reported_damaged : Reported (holding [0]) [0] (.lookup (some carol) (some daisy)) ↔
    (sizeofHamsterdesc ∣ ([0] : List Byte).length ∨ ¬ ById (.lookup (some carol) (some daisy))) :=
  reported_iff (w := holding [0]) rfl (filesApart_holding [0]) rfl ⟨by decide, by decide +kernel⟩

/-- One stray byte: asking after an id reports that there is no such hamster. -/
theorem damage_not_reported : Misses (holding [0]) [0] (.howsdoing 0) ∧
    ¬ Reported (holding [0]) [0] (.howsdoing 0) := by
  have hmiss : Misses (holding [0]) [0] (.howsdoing 0) := by
    intro h hm
    have hnone : entries [0] = [] := by decide +kernel
    rw [hnone] at hm
    cases hm
  have hid : ById (.howsdoing 0) := trivial
  obtain ⟨r, w', hex, hret⟩ := byId_reports (w := holding [0]) rfl rfl hid hmiss
  exact ⟨hmiss, fun h => absurd ((reported_iff_whole hex hret).mp h) (by decide)⟩

end Hamster.Contract.Corruption
